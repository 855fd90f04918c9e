import ProtoBridge.Rdma.Submission

/-!
# The ledger of the submission model

What orders and counts work requests is a small part of the submission model: the map of
works, three queues and two counters for each queue pair, and who has yet to enter them.
`View` is that part, and `Micro` lists everything that can happen to it, one guard and
one effect each.

A call of the source is a chain of such steps, and in the middle of a call a view also
holds what the call has still to do: the works to be started, the queue pair whose
completions are to be looked at, the signal that is being refused, the works to be
finished, and the request being cut up.
-/

namespace ProtoBridge.Rdma

open Lib Relation
open Function (update)

/-- The queues and counters of a queue pair. `line` holds the works whose descriptor is on
its way to the NIC, in the order they will be executed in; `stray` is the list that the
PCIe model in use leaves empty. -/
structure Ledger where
  waiting : List Nat := []
  line : List Nat := []
  stray : List Nat := []
  outstanding : List Nat := []
  completions : List (Nat × List Nat) := []
  occupied : Nat := 0
  readAtomicOccupied : Nat := 0

/-- The ledger of a queue pair. -/
def Qp.ledger (c : Config) (q : Qp) : Ledger :=
  { waiting := q.waiting, outstanding := q.outstanding, completions := q.completions
    occupied := q.occupied, readAtomicOccupied := q.readAtomicOccupied
    line := (if c.pcieModel = .tlp then q.pcieFetched else q.fetching) ++ q.published ++ q.publishing
    stray := if c.pcieModel = .tlp then q.fetching else q.pcieFetched }

/-- A work without the fields the ledger does not depend on. -/
def Work.core (w : Work) : Work := { w with acknowledgedBytes := 0, stagingAllocated := false }

/-- What a call has still to do. -/
structure Agenda where
  front : List Nat := []
  back : List Nat := []
  due : Option QpKey := none
  refusing : Option Nat := none
  unfinished : List Work := []
  request : Submission.Submit :=
    { opcode := .write, peer := 0, bytes := 0, producer := none, requestId := 0 }
  left : Nat := 0
  closed : Bool := false

/-- The ledger, and the agenda of the call in progress. -/
structure View where
  config : Config
  nextId : Nat
  work : Nat → Option Work
  qps : QpKey → Ledger
  fences : Nat → Nat
  remaining : Nat → Nat
  succeeded : Nat → Bool
  handoffs : List (List Nat)
  starting : List Nat
  upstream : Multiset Nat
  due : Option QpKey
  refusing : Option Nat
  unfinished : List Work
  request : Submission.Submit
  closed : Bool
  log : List Event

namespace View

/-- Replace a ledger. -/
def setQp (v : View) (key : QpKey) (q : Ledger) : View :=
  { v with qps := update v.qps key q }

/-- Replace a work. -/
def setWork (v : View) (id : Nat) (w : Work) : View :=
  { v with work := update v.work id (some w) }

/-- Add to the history. -/
def record (v : View) (e : Event) : View := { v with log := v.log ++ [e] }

/-- A work is there and acknowledged. -/
def acked (v : View) (id : Nat) : Bool :=
  match v.work id with
  | some w => w.acked
  | none => false

/-- `BlockedByFence`. -/
def blockedByFence (v : View) (w : Work) : Bool :=
  (List.range (w.fenceThrough + 1)).any fun id =>
    match v.work id with
    | some other => other.time.peer == w.time.peer && !other.acked
    | none => false

/-- The works an entry covers. -/
def covered (v : View) (key : QpKey) (through : Nat) : List Nat :=
  (List.range (through + 1)).filter fun id =>
    match v.work id with
    | some w => w.key == key && w.acked
    | none => false

/-- The part of some works that holds a read/atomic credit. -/
def credited (v : View) (ids : List Nat) : List Nat :=
  ids.filter fun id =>
    match v.work id with
    | some w => w.time.opcode.usesReadAtomicCredit
    | none => false

/-- The acknowledged works at the front of a queue pair's ledger. -/
def ready (v : View) (key : QpKey) : List Nat := (v.qps key).outstanding.takeWhile v.acked

end View

/-- One step of the ledger. `C` is what must hold when a staged work enters its queue. -/
inductive Micro (C : View → Nat → Prop) : View → View → Prop
  | openRequest (v : View) (s : Submission.Submit) (hs : s.requestId = v.nextId) :
      Micro C v { v with
        remaining := update v.remaining v.nextId 0
        succeeded := update v.succeeded v.nextId true
        request := s
        closed := false }
  | addData (v : View) (w : Work) (raw : Nat) (hid : w.time.id = v.nextId)
      (hreq : w.time.requestId = v.request.requestId) (hpeer : w.time.peer = v.request.peer)
      (hflags : w.acked = false ∧ w.failed = false ∧ w.reserved = false ∧ w.executed = false)
      (hopen : v.closed = false) (hop : w.time.opcode = v.request.opcode) (hraw : raw < v.nextId)
      (hfence : w.fenceThrough = max (v.fences w.time.peer) raw)
      (hcurrent : 0 < v.request.requestId) :
      Micro C v { v with
        nextId := v.nextId + 1
        work := update v.work v.nextId (some w)
        remaining := update v.remaining v.request.requestId
          (v.remaining v.request.requestId + 1)
        starting := v.starting ++ [v.nextId]
        log := v.log ++ [.submitted w.time] }
  | addSignal (v : View) (w : Work) (hid : w.time.id = v.nextId)
      (hreq : w.time.requestId = v.request.requestId) (hpeer : w.time.peer = v.request.peer)
      (hflags : w.acked = false ∧ w.failed = false ∧ w.reserved = false ∧ w.executed = false)
      (hopen : v.closed = false) (hop : w.time.opcode = .signal)
      (hfence : w.fenceThrough = v.nextId - 1) (hcurrent : 0 < v.request.requestId) :
      Micro C v { v with
        nextId := v.nextId + 1
        work := update v.work v.nextId (some w)
        remaining := update v.remaining v.request.requestId
          (v.remaining v.request.requestId + 1)
        starting := v.starting ++ [v.nextId]
        closed := true
        log := v.log ++ [.submitted w.time] }
  | closeRequest (v : View) (s : Submission.Submit) (hs : s.requestId = 0) :
      Micro C v { v with request := s, closed := false }
  | regroup (v : View) (h : List (List Nat))
      (hh : Submission.handoffDelay v.config = 0 → h = v.handoffs ∨ h = v.handoffs.tail) :
      Micro C v { v with handoffs := h }
  | start (v : View) (id : Nat) (rest : List Nat) (w : Work) (hid : v.starting = id :: rest)
      (hw : v.work id = some w) :
      Micro C v (View.setQp { v with starting := rest } w.key
        { v.qps w.key with waiting := Submission.insertId id (v.qps w.key).waiting })
  | stage (v : View) (id : Nat) (rest : List Nat) (w : Work) (hid : v.starting = id :: rest)
      (hw : v.work id = some w) :
      Micro C v { v with starting := rest, upstream := v.upstream + {id} }
  | copy (v : View) (id : Nat) (w : Work) (hid : id ∈ v.upstream) (hw : v.work id = some w)
      (hC : C v id) :
      Micro C v (View.setQp { v with upstream := v.upstream.erase id } w.key
        { v.qps w.key with waiting := Submission.insertId id (v.qps w.key).waiting })
  | reserve (v : View) (key : QpKey) (id : Nat) (rest : List Nat) (w : Work)
      (hid : (v.qps key).waiting = id :: rest) (hw : v.work id = some w)
      (hslot : (v.qps key).occupied < v.config.queueDepth)
      (hcredit : w.time.opcode.usesReadAtomicCredit →
        (v.qps key).readAtomicOccupied < v.config.maxReadAtomic)
      (hfence : v.blockedByFence w = false) :
      Micro C v (((v.setWork id { w with reserved := true }).setQp key
        { v.qps key with
          waiting := rest
          line := (v.qps key).line ++ [id]
          outstanding := (v.qps key).outstanding ++ [id]
          occupied := wadd 32 (v.qps key).occupied 1
          readAtomicOccupied := wadd 32 (v.qps key).readAtomicOccupied
            (if w.time.opcode.usesReadAtomicCredit then 1 else 0) }).record (.reserved key id))
  | execute (v : View) (key : QpKey) (id : Nat) (rest : List Nat) (w : Work)
      (hid : (v.qps key).line = id :: rest) (hw : v.work id = some w) (hr : v.refusing = none)
      (hok : w.time.opcode ≠ .signal ∨ v.succeeded w.time.requestId = true) :
      Micro C v (((v.setWork id { w with executed := true }).setQp key
        { v.qps key with line := rest }).record (.executed id true))
  | refuse (v : View) (key : QpKey) (id : Nat) (rest : List Nat) (w : Work)
      (hid : (v.qps key).line = id :: rest) (hw : v.work id = some w) (hr : v.refusing = none)
      (hop : w.time.opcode = .signal) (hbad : v.succeeded w.time.requestId = false) :
      Micro C v ((({ v.setWork id { w with executed := true } with refusing := some id }).setQp key
        { v.qps key with line := rest }).record (.executed id false))
  | skip (v : View) (key : QpKey) (id : Nat) (rest : List Nat)
      (hid : (v.qps key).line = id :: rest) (hw : v.work id = none) :
      Micro C v (v.setQp key { v.qps key with line := rest })
  | settle (v : View) (id : Nat) (w : Work) (hr : v.refusing = some id) (hw : v.work id = some w)
      (hacked : w.acked = true) :
      Micro C v { v with refusing := none }
  | fail (v : View) (id : Nat) (w : Work) (hw : v.work id = some w) (hex : w.executed = true)
      (hok : w.failed = false) :
      Micro C v (View.record
        { v.setWork id { w with failed := true } with
          succeeded := update v.succeeded w.time.requestId false } (.failed id))
  | ack (v : View) (id : Nat) (w : Work) (hw : v.work id = some w) (hex : w.executed = true)
      (hok : w.acked = false) (hdue : v.due = none)
      (hr : v.refusing = none ∨ v.refusing = some id ∧ w.failed = true) :
      Micro C v (View.record
        { v.setWork id { w with acked := true } with due := some w.key, refusing := none }
        (.acked id))
  | pass (v : View) (key : QpKey) (hdue : v.due = some key)
      (hready : v.ready key = [] ∨ (v.ready key).length < v.config.cqModeration ∧
        (v.ready key).length ≠ (v.qps key).occupied) :
      Micro C v { v with due := none }
  | signal (v : View) (key : QpKey) (hdue : v.due = some key) (hready : v.ready key ≠ []) :
      Micro C v (View.record (View.setQp { v with due := none } key
        { v.qps key with
          outstanding := (v.qps key).outstanding.drop (v.ready key).length
          completions := (v.qps key).completions ++ [((v.ready key).getLastD 0, v.ready key)] })
        (.signalled key ((v.ready key).getLastD 0) (v.ready key)))
  | observe (v : View) (key : QpKey) (i through : Nat) (ids : List Nat) (hdue : v.due = none)
      (hdone : v.unfinished = []) (hi : (v.qps key).completions[i]? = some (through, ids)) :
      Micro C v (View.record (View.setQp
        { v with
          work := fun id => if id ∈ v.covered key through then none else v.work id
          due := some key
          unfinished := (v.covered key through).filterMap v.work } key
        { v.qps key with
          completions := (v.qps key).completions.eraseIdx i
          occupied := wsub 32 (v.qps key).occupied (v.covered key through).length
          readAtomicOccupied := wsub 32 (v.qps key).readAtomicOccupied
            (v.credited (v.covered key through)).length })
        (.observed key through (v.covered key through)))
  | finish (v : View) (w : Work) (rest : List Work) (hw : v.unfinished = w :: rest)
      (hidle : v.request.requestId = 0) :
      Micro C v { v with
        unfinished := rest
        succeeded := update v.succeeded w.time.requestId
          (v.succeeded w.time.requestId && !w.failed)
        remaining := update v.remaining w.time.requestId
          (v.remaining w.time.requestId - 1)
        log := if v.remaining w.time.requestId - 1 = 0 then
            v.log ++ [.completed w.time.requestId (v.succeeded w.time.requestId && !w.failed)]
          else v.log }
  | fence (v : View) (peer : Nat) :
      Micro C v (View.record
        { v with fences := update v.fences peer (v.nextId - 1) } (.fenced peer))
  | quieted (v : View) (name : Nat) (success : Bool) : Micro C v (v.record (.quieted name success))

/-- Any number of steps. -/
abbrev Chain (C : View → Nat → Prop) : View → View → Prop := ReflTransGen (Micro C)

namespace Submission

/-- The works that wait for staging space or are being copied into it. -/
def upstream (σ : Submission) : Multiset Nat :=
  (σ.staging.owed.filterMap Prod.snd : Multiset Nat) + (σ.copies.filterMap Prod.snd : Multiset Nat)

/-- The view of a state in the middle of a call. -/
def view (σ : Submission) (l : Agenda) : View where
  config := σ.config
  nextId := σ.nextId
  work := Option.map Work.core ∘ σ.work
  qps := Qp.ledger σ.config ∘ σ.qps
  fences := σ.fences
  remaining := update σ.remaining l.request.requestId
    (σ.remaining l.request.requestId - l.left)
  succeeded := σ.succeeded
  handoffs := σ.handoffs
  starting := l.front ++ σ.handoffs.flatten ++ l.back
  upstream := σ.upstream
  due := l.due
  refusing := l.refusing
  unfinished := l.unfinished.map Work.core
  request := l.request
  closed := l.closed
  log := σ.log

/-- The view of a state between calls. -/
def ledger (σ : Submission) : View := σ.view {}

end Submission

end ProtoBridge.Rdma
