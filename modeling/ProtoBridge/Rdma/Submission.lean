import Mathlib.Data.List.Sort
import Mathlib.Data.Finset.Card
import ProtoBridge.Lib.Machine
import ProtoBridge.Lib.Pool
import ProtoBridge.Lib.Word
import ProtoBridge.Rdma.Types

/-!
# The RDMA submission model

`RdmaSubmissionModel` as functions on an explicit state: requests are cut into work
requests, which are staged, queued, published, fetched, executed, acknowledged and
observed. Everything the model hands to the simulator or to the PCIe fabric is kept
in the queue its closure belongs to and runs at some later step, or never.

Closures of one queue pair that the source keeps in order by a ledger of free times
(publication, the fetch of a published entry) are queues. Doorbell writes, descriptor
fetches and completion writes cross the PCIe fabric and may finish in any order; so may
staging copies, unless the bandwidth model is in use, whose ledgers are first come
first served. `Schedule` arms nothing at or past the simulation horizon: such a closure
stays in its queue and never runs. Only the batch timer is looked at again, so whether it
was armed is decided by the clock.

`log` and `unarmed` are history and are read by no function.
-/

namespace ProtoBridge.Rdma

open Lib
open Function (update)

/-- Peer and queue pair number. -/
abbrev QpKey := Nat × Nat

/-- `NS_ABORT_MSG` reasons of the submission model, and the failed `at` of its maps. -/
inductive Fault
  | badSubmission
  | noReadAtomicCredit
  | producerOutOfRange
  | workItemCountOverflows
  | workIdExhausted
  | ackExceedsLedger
  | sourceStagingTooSmall
  | sourceStagingUnderflow
  | unknownWork
  deriving DecidableEq

/-- The messages of those aborts. The last one is no check of the source: it stands
for the exception of `m_work.at`. -/
def Fault.message : Fault → String
  | .badSubmission => "RDMA needs live model, nonzero bytes and execution"
  | .noReadAtomicCredit => "RDMA Read/atomic operations require rdmaMaxReadAtomic > 0"
  | .producerOutOfRange => "RDMA producer ID out of range"
  | .workItemCountOverflows => "RDMA staged work-item count overflows uint64"
  | .workIdExhausted => "RDMA work ID exhausted"
  | .ackExceedsLedger => "RDMA ACK exceeds WR byte ledger"
  | .sourceStagingTooSmall => "Responder staging buffer is too small"
  | .sourceStagingUnderflow => "Source staging buffer accounting underflow"
  | .unknownWork => ""

/-- `Work`. Of the time stamps only the two that say how far the work got are kept, as
flags: `time.reserved` and `time.execute`. -/
structure Work where
  time : WorkTiming
  acknowledgedBytes : Nat := 0
  fenceThrough : Nat := 0
  acked : Bool := false
  failed : Bool := false
  stagingAllocated : Bool := false
  reserved : Bool := false
  executed : Bool := false
  deriving DecidableEq

/-- The queue pair a work request goes through. -/
def Work.key (w : Work) : QpKey := (w.time.peer, w.time.qp)

/-- `Qp`, with the closures in flight for it: entries being published, entries being
fetched, and completion writes. A completion write is the last work it covers and, for
the record, the works it was issued for. -/
structure Qp where
  waiting : List Nat := []
  publishing : List Nat := []
  published : List Nat := []
  fetching : List Nat := []
  pcieFetched : List Nat := []
  outstanding : List Nat := []
  completions : List (Nat × List Nat) := []
  occupied : Nat := 0
  readAtomicOccupied : Nat := 0
  batchEvent : Bool := false
  deriving DecidableEq

/-- History of the run. -/
inductive Event
  | submitted (time : WorkTiming)
  | fenced (peer : Nat)
  | reserved (key : QpKey) (id : Nat)
  | executed (id : Nat) (launched : Bool)
  | acked (id : Nat)
  | failed (id : Nat)
  | signalled (key : QpKey) (through : Nat) (ids : List Nat)
  | observed (key : QpKey) (through : Nat) (ids : List Nat)
  | completed (requestId : Nat) (success : Bool)
  | quieted (name : Nat) (success : Bool)
  deriving DecidableEq

/-- `RdmaSubmissionModel`. A staging request is its size and its work, or no work for
the payload of a responder; `lent` is what responders hold. -/
structure Submission where
  config : Config
  nextId : Nat := 1
  work : Nat → Option Work := fun _ => none
  qps : QpKey → Qp := fun _ => {}
  qpKeys : List QpKey := []
  fences : Nat → Nat := fun _ => 0
  nextQp : Nat → Nat := fun _ => 0
  remaining : Nat → Nat := fun _ => 0
  succeeded : Nat → Bool := fun _ => true
  staging : Pool (Nat × Option Nat)
  lent : Nat := 0
  handoffs : List (List Nat) := []
  copies : List (Nat × Option Nat) := []
  doorbells : List (QpKey × List Nat) := []
  fetches : List (QpKey × Nat) := []
  pcieReady : Finset Nat := ∅
  quiet : List (Nat × Nat) := []
  quietCalls : Nat := 0
  failed : Nat := 0
  now : Nat := 0
  /-- The queue pairs whose batch timer could not be armed. -/
  unarmed : List QpKey := []
  log : List Event := []

/-- An idle model of a given configuration. -/
def Submission.idle (c : Config) : Submission :=
  { config := c, staging := { capacity := c.stagingBufferBytes } }

namespace Submission

/-- Add to the history. -/
def record (σ : Submission) (e : Event) : Submission := { σ with log := σ.log ++ [e] }

/-- Replace a queue pair. -/
def setQp (σ : Submission) (key : QpKey) (q : Qp) : Submission :=
  { σ with qps := update σ.qps key q }

/-- Replace a work request. -/
def setWork (σ : Submission) (id : Nat) (w : Work) : Submission :=
  { σ with work := update σ.work id (some w) }

/-- The works the map holds, in order. -/
def live (σ : Submission) : List Nat := (List.range σ.nextId).filter fun id => (σ.work id).isSome

/-! ## The send queues -/

/-- `BlockedByFence`. -/
def blockedByFence (σ : Submission) (w : Work) : Bool :=
  (List.range (w.fenceThrough + 1)).any fun id =>
    match σ.work id with
    | some other => other.time.peer == w.time.peer && !other.acked
    | none => false

/-- One turn of the loop in `Pump`: the work at the front takes a slot. -/
def reserve (σ : Submission) (key : QpKey) (id : Nat) (w : Work) (rest : List Nat) : Submission :=
  let q := σ.qps key
  let credit := if w.time.opcode.usesReadAtomicCredit then 1 else 0
  ((σ.setWork id { w with reserved := true }).setQp key
    { q with
      waiting := rest
      occupied := wadd 32 q.occupied 1
      readAtomicOccupied := wadd 32 q.readAtomicOccupied credit
      outstanding := q.outstanding ++ [id]
      publishing := q.publishing ++ [id] }).record (.reserved key id)

/-- `Pump`. Each turn takes one waiting work, so their number is fuel enough. -/
def pumpLoop : Nat → Submission → QpKey → Except Fault Submission
  | 0, σ, _ => .ok σ
  | fuel + 1, σ, key =>
      match (σ.qps key).waiting with
      | [] => .ok σ
      | id :: rest =>
          if σ.config.queueDepth ≤ (σ.qps key).occupied then .ok σ
          else
            match σ.work id with
            | none => .error .unknownWork
            | some w =>
                if w.time.opcode.usesReadAtomicCredit ∧
                    σ.config.maxReadAtomic ≤ (σ.qps key).readAtomicOccupied then .ok σ
                else if σ.blockedByFence w then .ok σ
                else pumpLoop fuel (σ.reserve key id w rest) key

/-- `Pump`. -/
def pump (σ : Submission) (key : QpKey) : Except Fault Submission :=
  pumpLoop (σ.qps key).waiting.length σ key

/-- `Pump` on every queue pair. -/
def pumpAll (σ : Submission) : Except Fault Submission :=
  σ.qpKeys.foldlM (fun σ key => σ.pump key) σ

/-- `m_qps[key]`: the queue pair is there from now on. -/
def touchQp (σ : Submission) (key : QpKey) : Submission :=
  if key ∈ σ.qpKeys then σ
  else { σ with qpKeys := σ.qpKeys.orderedInsert (fun a b => a.1 < b.1 ∨ a.1 = b.1 ∧ a.2 ≤ b.2) key }

/-- Insertion at `upper_bound`. -/
def insertId (id : Nat) : List Nat → List Nat
  | [] => [id]
  | x :: rest => if id < x then id :: x :: rest else x :: insertId id rest

/-- The work joins the queue of its queue pair, which is pumped. -/
def enqueueWaiting (σ : Submission) (id : Nat) (w : Work) : Except Fault Submission :=
  let σ := σ.touchQp w.key
  let q := σ.qps w.key
  (σ.setQp w.key { q with waiting := insertId id q.waiting }).pump w.key

/-! ## Staging -/

/-- The work of a grant now holds staging space. -/
def grantStaging (work : Nat → Option Work) (grant : Nat × Option Nat) : Nat → Option Work :=
  match grant.2 with
  | none => work
  | some id => update work id ((work id).map fun w => { w with stagingAllocated := true })

/-- The bytes a grant lends to a responder. -/
def lentBytes (grant : Nat × Option Nat) : Nat := if grant.2 = none then grant.1 else 0

/-- `PumpSourceStaging`: each grant starts a D2H copy. -/
def pumpSourceStaging (σ : Submission) : Submission :=
  { σ with
    staging := σ.staging.pump
    work := σ.staging.granted.foldl grantStaging σ.work
    lent := σ.lent + (σ.staging.granted.map lentBytes).sum
    copies := σ.copies ++ σ.staging.granted }

/-- `StageSourcePayload`, called by a responder. -/
def stageSourcePayload (σ : Submission) (bytes : Nat) : Except Fault Submission :=
  if bytes = 0 ∨ σ.config.stagingBufferBytes < bytes then .error .sourceStagingTooSmall
  else .ok (pumpSourceStaging { σ with staging := σ.staging.request bytes (bytes, none) })

/-- `ReleaseSourceStaging`, called by a responder. -/
def releaseSourceStaging (σ : Submission) (bytes : Nat) : Except Fault Submission :=
  if σ.staging.used < bytes then .error .sourceStagingUnderflow
  else .ok (pumpSourceStaging
    { σ with staging := σ.staging.release bytes, lent := σ.lent - bytes })

/-- A D2H copy ends. What it was for a responder is not the model's business. -/
def copied (σ : Submission) (i : Nat) : Except Fault Submission :=
  match σ.copies[i]? with
  | none => .ok σ
  | some (_, none) => .ok { σ with copies := σ.copies.eraseIdx i }
  | some (_, some id) =>
      match σ.work id with
      | none => .error .unknownWork
      | some w => enqueueWaiting { σ with copies := σ.copies.eraseIdx i } id w

/-! ## Submission -/

/-- The staged path cuts payloads and reads into chunks. -/
def splits (c : Config) (op : Opcode) : Bool :=
  c.dataPath == .staged && (op.hasSourcePayload || op == .read)

/-- How many work requests carry data. -/
def dataChunks (c : Config) (op : Opcode) (bytes : Nat) : Nat :=
  if splits c op then 1 + (bytes - 1) / c.stagingChunkBytes else 1

/-- The signal of a put-signal is one more. -/
def signalItems (op : Opcode) : Nat := if op = .putSignal then 1 else 0

/-- The last earlier payload work of a queue pair: a later read or atomic waits for it. -/
def payloadFence (σ : Submission) (key : QpKey) : Nat :=
  σ.live.foldl (fun fence id =>
    match σ.work id with
    | some w => if w.key = key ∧ w.time.opcode.hasSourcePayload then max fence id else fence
    | none => fence) 0

/-- The arguments of `SubmitOperation` that all work requests of a request share. -/
structure Submit where
  opcode : Opcode
  peer : Nat
  bytes : Nat
  producer : Option Nat
  requestId : Nat
  deriving DecidableEq

/-- The work request that `SubmitOperation` builds at `index`, whose payload starts at
`offset`. -/
def newWork (σ : Submission) (s : Submit) (index offset : Nat) : Work :=
  let signal := index = dataChunks σ.config s.opcode s.bytes
  let bytes :=
    if signal then 8
    else if splits σ.config s.opcode then min σ.config.stagingChunkBytes (s.bytes - offset)
    else s.bytes
  let producer := s.producer.getD ((σ.nextId - 1) % σ.config.producerCount)
  let qp :=
    (if σ.config.mapQpByProducer then producer else σ.nextQp s.peer) % σ.config.qpsPerPeer
  let opcode := if signal then .signal else s.opcode
  let raw := if opcode.usesReadAtomicCredit then σ.payloadFence (s.peer, qp) else 0
  { time :=
      { id := σ.nextId, requestId := s.requestId, offset, bytes, peer := s.peer, producer, qp
        opcode }
    fenceThrough := if signal then σ.nextId - 1 else max (σ.fences s.peer) raw }

/-- The work request enters the map. -/
def addWork (σ : Submission) (w : Work) : Submission :=
  { σ with
    nextId := σ.nextId + 1
    work := update σ.work σ.nextId (some w)
    nextQp := if σ.config.mapQpByProducer then σ.nextQp
      else update σ.nextQp w.time.peer (σ.nextQp w.time.peer + 1)
    log := σ.log ++ [.submitted w.time] }

/-- The loop of `SubmitOperation`: `count` more work requests from `index` on. -/
def addWorks (s : Submit) : Nat → Nat → Nat → Submission → Submission
  | 0, _, _, σ => σ
  | count + 1, index, offset, σ =>
      let w := σ.newWork s index offset
      let next := if index = dataChunks σ.config s.opcode s.bytes then offset
        else offset + w.time.bytes
      addWorks s count (index + 1) next (σ.addWork w)

/-- The closure `enqueue` of `SubmitOperation`. -/
def enqueue (σ : Submission) (id : Nat) : Except Fault Submission :=
  match σ.work id with
  | none => .error .unknownWork
  | some w =>
      if σ.config.dataPath = .staged ∧ w.time.opcode.hasSourcePayload then
        .ok { σ with staging := σ.staging.request w.time.bytes (w.time.bytes, some id) }
      else σ.enqueueWaiting id w

/-- The closure `start` of `SubmitOperation`. -/
def start (σ : Submission) (ids : List Nat) : Except Fault Submission := do
  let σ ← ids.foldlM enqueue σ
  .ok σ.pumpSourceStaging

/-- The CPU hands a request over to the NIC only after a delay. -/
def handoffDelay (c : Config) : Nat :=
  if c.initiator = .cpu ∧ c.dataPath ≠ .host then c.cpuHandoff else 0

/-- The requests of the run so far stay apart: the next one is numbered by its first
work request. -/
def openRequest (σ : Submission) (count : Nat) : Submission :=
  { σ with
    remaining := update σ.remaining σ.nextId count
    succeeded := update σ.succeeded σ.nextId true }

/-- `SubmitOperation`. -/
def submitOperation (σ : Submission) (opcode : Opcode) (peer bytes : Nat)
    (producer : Option Nat) : Except Fault Submission :=
  if bytes = 0 then .error .badSubmission
  else if (opcode.usesReadAtomicCredit ∨ opcode = .putSignal) ∧ σ.config.maxReadAtomic = 0 then
    .error .noReadAtomicCredit
  else if ∃ p ∈ producer, σ.config.producerCount ≤ p then .error .producerOutOfRange
  else
    let chunks := dataChunks σ.config opcode bytes
    if u64Max - signalItems opcode < chunks then .error .workItemCountOverflows
    else
      let count := chunks + signalItems opcode
      if u64Max - σ.nextId < count then .error .workIdExhausted
      else
        let ids := List.range' σ.nextId count
        let s : Submit := { opcode, peer, bytes, producer, requestId := σ.nextId }
        let σ := addWorks s count 0 0 (σ.openRequest count)
        if handoffDelay σ.config = 0 then σ.start ids
        else .ok { σ with handoffs := σ.handoffs ++ [ids] }

/-- A handoff is over. The delay is the same for all, so they end in order. -/
def handedOff (σ : Submission) : Except Fault Submission :=
  match σ.handoffs with
  | [] => .ok σ
  | ids :: rest => start { σ with handoffs := rest } ids

/-! ## Completion -/

/-- The acknowledged works at the front of a queue pair's ledger. -/
def readyPrefix (σ : Submission) : List Nat → Except Fault (List Nat)
  | [] => .ok []
  | id :: rest =>
      match σ.work id with
      | none => .error .unknownWork
      | some w =>
          if w.acked then do
            let ready ← readyPrefix σ rest
            .ok (id :: ready)
          else .ok []

/-- A completion entry for the first `ready` works of the ledger. -/
def signal (σ : Submission) (key : QpKey) (ready : List Nat) : Submission :=
  let q := σ.qps key
  let through := ready.getLastD 0
  (σ.setQp key
    { q with
      outstanding := q.outstanding.drop ready.length
      completions := q.completions ++ [(through, ready)] }).record (.signalled key through ready)

/-- `Progress`. -/
def progress (σ : Submission) (key : QpKey) : Except Fault Submission := do
  let ready ← σ.readyPrefix (σ.qps key).outstanding
  if ready = [] then .ok σ
  else if ready.length < σ.config.cqModeration ∧ ready.length ≠ (σ.qps key).occupied then .ok σ
  else .ok (σ.signal key ready)

/-- The work is marked failed, once. -/
def markFailed (σ : Submission) (id : Nat) (w : Work) : Submission :=
  if w.failed then σ
  else
    ({ σ with
      work := update σ.work id (some { w with failed := true })
      succeeded := update σ.succeeded w.time.requestId false
      failed := σ.failed + 1 } : Submission).record (.failed id)

/-- The work is acknowledged in full; completions and queues move on. -/
def acknowledgeWork (σ : Submission) (id : Nat) (w : Work) : Except Fault Submission := do
  let σ ← ((σ.setWork id { w with acknowledgedBytes := w.time.bytes, acked := true }).record
    (.acked id)).progress w.key
  σ.pumpAll

/-- `NotifyOperationComplete`. -/
def notifyOperationComplete (σ : Submission) (id : Nat) (success : Bool) :
    Except Fault Submission :=
  match σ.work id with
  | none => .ok σ
  | some w =>
      if w.acked then .ok σ
      else if success then σ.acknowledgeWork id w
      else (σ.markFailed id w).acknowledgeWork id { w with failed := true }

/-- `NotifyPacketAck`. -/
def notifyPacketAck (σ : Submission) (id bytes : Nat) : Except Fault Submission :=
  match σ.work id with
  | none => .ok σ
  | some w =>
      if w.acked then .ok σ
      else if w.time.bytes - w.acknowledgedBytes < bytes then .error .ackExceedsLedger
      else if w.acknowledgedBytes + bytes ≠ w.time.bytes then
        .ok (σ.setWork id { w with acknowledgedBytes := w.acknowledgedBytes + bytes })
      else σ.acknowledgeWork id w

/-- `NotifyFailure`. -/
def notifyFailure (σ : Submission) (id : Nat) : Submission :=
  match σ.work id with
  | none => σ
  | some w => σ.markFailed id w

/-- The works a completion entry covers: acknowledged, of its queue pair, not after it. -/
def covered (σ : Submission) (key : QpKey) (through : Nat) : List Nat :=
  (List.range (through + 1)).filter fun id =>
    match σ.work id with
    | some w => w.key == key && w.acked
    | none => false

/-- The part of some works that holds a read/atomic credit. -/
def credited (σ : Submission) (ids : List Nat) : List Nat :=
  ids.filter fun id =>
    match σ.work id with
    | some w => w.time.opcode.usesReadAtomicCredit
    | none => false

/-- The staging space some works hold. -/
def stagedBytes (σ : Submission) (ids : List Nat) : Nat :=
  (ids.map fun id =>
    match σ.work id with
    | some w => if w.stagingAllocated then w.time.bytes else 0
    | none => 0).sum

/-- The loop of `Observe`: the covered works leave the map and free their slots. -/
def erase (σ : Submission) (key : QpKey) (through : Nat) : Submission :=
  let ids := σ.covered key through
  let q := σ.qps key
  ({ σ with work := fun id => if id ∈ ids then none else σ.work id }.setQp key
    { q with
      occupied := wsub 32 q.occupied ids.length
      readAtomicOccupied := wsub 32 q.readAtomicOccupied (σ.credited ids).length }).record
    (.observed key through ids)

/-- The closure `finish` of `SubmitOperation`, for one work of a request. -/
def finish (σ : Submission) (w : Work) : Submission :=
  let r := w.time.requestId
  let ok := σ.succeeded r && !w.failed
  let σ := { σ with
    succeeded := update σ.succeeded r ok
    remaining := update σ.remaining r (σ.remaining r - 1) }
  if σ.remaining r = 0 then σ.record (.completed r ok) else σ

/-- `CheckQuiet`. The callbacks run once all that are due have left the list. -/
def checkQuiet (σ : Submission) : Submission :=
  let due := fun q : Nat × Nat => σ.live.all fun id => decide (q.1 < id)
  { σ with
    quiet := σ.quiet.filter fun q => !due q
    log := σ.log ++ (σ.quiet.filter due).map fun q => .quieted q.2 (σ.failed == 0) }

/-- The staging space of the observed works comes back. -/
def giveBack (σ : Submission) (bytes : Nat) : Except Fault Submission :=
  if σ.staging.used < bytes then .error .sourceStagingUnderflow
  else if bytes = 0 then .ok σ
  else .ok (pumpSourceStaging { σ with staging := σ.staging.release bytes })

/-- `Observe`. Whatever the callbacks submit in turn is a later step. -/
def observe (σ : Submission) (key : QpKey) (through : Nat) : Except Fault Submission := do
  let ids := σ.covered key through
  let works := ids.filterMap σ.work
  let σ ← (σ.erase key through).giveBack (σ.stagedBytes ids)
  let σ ← σ.pump key
  let σ ← σ.progress key
  .ok (works.foldl finish σ).checkQuiet

/-- A completion write arrives. -/
def completionWritten (σ : Submission) (key : QpKey) (i : Nat) : Except Fault Submission :=
  match (σ.qps key).completions[i]? with
  | none => .ok σ
  | some (through, _) =>
      observe (σ.setQp key
        { σ.qps key with completions := (σ.qps key).completions.eraseIdx i }) key through

/-! ## Publication and execution -/

/-- `Ring`. -/
def ring (σ : Submission) (key : QpKey) : Submission :=
  let q := { σ.qps key with batchEvent := false }
  if q.published = [] then σ.setQp key q
  else if σ.config.pcieModel = .tlp then
    { σ.setQp key { q with published := [], pcieFetched := q.pcieFetched ++ q.published } with
      doorbells := σ.doorbells ++ [(key, q.published)] }
  else σ.setQp key { q with published := [], fetching := q.fetching ++ q.published }

/-- `Publish`, for the entry whose publication ends first. A batch timer that would run out at or
past the horizon is not armed. -/
def publish (σ : Submission) (key : QpKey) : Except Fault Submission :=
  match (σ.qps key).publishing with
  | [] => .ok σ
  | id :: rest =>
      if (σ.work id).isNone then .error .unknownWork
      else
        let q := { σ.qps key with publishing := rest, published := (σ.qps key).published ++ [id] }
        if σ.config.doorbellBatch ≤ q.published.length then .ok ((σ.setQp key q).ring key)
        else if q.batchEvent then .ok (σ.setQp key q)
        else if σ.config.batchTimeout < horizon - σ.now then
          .ok (σ.setQp key { q with batchEvent := true })
        else .ok { σ.setQp key q with unarmed := key :: σ.unarmed }

/-- The batch timer of a queue pair. -/
def batchTimeout (σ : Submission) (key : QpKey) : Submission :=
  if (σ.qps key).batchEvent then σ.ring key else σ

/-- `ExecuteWork` with the callback of the operation engine: a signal whose request has
failed is completed as failed, everything else is sent. -/
def executeWork (σ : Submission) (id : Nat) : Except Fault Submission :=
  match σ.work id with
  | none => .ok σ
  | some w =>
      let refused := w.time.opcode == .signal && !σ.succeeded w.time.requestId
      let σ := (σ.setWork id { w with executed := true }).record (.executed id (!refused))
      if refused then σ.notifyOperationComplete id false else .ok σ

/-- A published entry has been fetched. -/
def execute (σ : Submission) (key : QpKey) : Except Fault Submission :=
  match (σ.qps key).fetching with
  | [] => .ok σ
  | id :: rest => (σ.setQp key { σ.qps key with fetching := rest }).executeWork id

/-- `FetchPublished`, when a doorbell write arrives. -/
def fetchPublished (σ : Submission) (i : Nat) : Except Fault Submission :=
  match σ.doorbells[i]? with
  | none => .ok σ
  | some (key, ids) =>
      if ids.any fun id => (σ.work id).isNone then .error .unknownWork
      else .ok { σ with
        doorbells := σ.doorbells.eraseIdx i
        fetches := σ.fetches ++ ids.map fun id => (key, id) }

/-- `PumpPcieFetch`. -/
def pumpPcieFetch : Nat → Submission → QpKey → Except Fault Submission
  | 0, σ, _ => .ok σ
  | fuel + 1, σ, key =>
      match (σ.qps key).pcieFetched with
      | [] => .ok σ
      | id :: rest =>
          if id ∈ σ.pcieReady then do
            let σ ← executeWork
              ({ σ with pcieReady := σ.pcieReady.erase id }.setQp key
                { σ.qps key with pcieFetched := rest }) id
            pumpPcieFetch fuel σ key
          else .ok σ

/-- The read of a descriptor is answered. -/
def fetched (σ : Submission) (i : Nat) : Except Fault Submission :=
  match σ.fetches[i]? with
  | none => .ok σ
  | some (key, id) =>
      pumpPcieFetch (σ.qps key).pcieFetched.length
        { σ with fetches := σ.fetches.eraseIdx i, pcieReady := insert id σ.pcieReady } key

/-! ## Ordering calls -/

/-- `Ring` on some of the queue pairs. -/
def ringAll (σ : Submission) (keys : List QpKey) : Submission := keys.foldl ring σ

/-- `Quiet`. The callback is known by the number of the call. -/
def quietCall (σ : Submission) : Submission :=
  checkQuiet (ringAll
    { σ with quiet := σ.quiet ++ [(σ.nextId - 1, σ.quietCalls)], quietCalls := σ.quietCalls + 1 }
    σ.qpKeys)

/-- `Fence`. -/
def fence (σ : Submission) (peer : Nat) : Submission :=
  ringAll (record { σ with fences := update σ.fences peer (σ.nextId - 1) } (.fenced peer))
    (σ.qpKeys.filter fun key => key.1 = peer)

/-! ## The machine -/

/-- What may happen next: a call, or a closure that runs. -/
inductive Act
  | submit (opcode : Opcode) (peer bytes : Nat) (producer : Option Nat)
  | fence (peer : Nat)
  | quiet
  | notifyPacketAck (id bytes : Nat)
  | notifyOperationComplete (id : Nat) (success : Bool)
  | notifyFailure (id : Nat)
  | stageSourcePayload (bytes : Nat)
  | releaseSourceStaging (bytes : Nat)
  | handedOff
  | copied (i : Nat)
  | publish (key : QpKey)
  | batchTimeout (key : QpKey)
  | fetchPublished (i : Nat)
  | fetched (i : Nat)
  | execute (key : QpKey)
  | completionWritten (key : QpKey) (i : Nat)
  | tick (ticks : Nat)

/-- One action of the model. -/
def exec (σ : Submission) : Act → Except Fault Submission
  | .submit opcode peer bytes producer => σ.submitOperation opcode peer bytes producer
  | .fence peer => .ok (σ.fence peer)
  | .quiet => .ok σ.quietCall
  | .notifyPacketAck id bytes => σ.notifyPacketAck id bytes
  | .notifyOperationComplete id success => σ.notifyOperationComplete id success
  | .notifyFailure id => .ok (σ.notifyFailure id)
  | .stageSourcePayload bytes => σ.stageSourcePayload bytes
  | .releaseSourceStaging bytes => σ.releaseSourceStaging bytes
  | .handedOff => σ.handedOff
  | .copied i => σ.copied i
  | .publish key => σ.publish key
  | .batchTimeout key => .ok (σ.batchTimeout key)
  | .fetchPublished i => σ.fetchPublished i
  | .fetched i => σ.fetched i
  | .execute key => σ.execute key
  | .completionWritten key i => σ.completionWritten key i
  | .tick ticks => .ok { σ with now := σ.now + ticks }

/-- Nothing is heard of a work before it was executed. -/
def Heard (σ : Submission) (id : Nat) : Prop := ∀ w ∈ σ.work id, w.executed = true

/-- The callers report on executed work only, and a responder gives back what it holds.
The ledgers of the bandwidth model finish copies in the order they were started. -/
def enabled (σ : Submission) : Act → Prop
  | .notifyPacketAck id _ => σ.Heard id
  | .notifyOperationComplete id _ => σ.Heard id
  | .notifyFailure id => σ.Heard id
  | .releaseSourceStaging bytes => bytes ≤ σ.lent
  | .copied i => σ.config.pcieModel = .tlp ∨ i = 0
  | .tick ticks => σ.now + ticks ≤ horizon
  | _ => True

instance (σ : Submission) (id : Nat) : Decidable (σ.Heard id) :=
  inferInstanceAs (Decidable (∀ w ∈ σ.work id, w.executed = true))

instance (σ : Submission) : (a : Act) → Decidable (σ.enabled a)
  | .notifyPacketAck id _ => inferInstanceAs (Decidable (σ.Heard id))
  | .notifyOperationComplete id _ => inferInstanceAs (Decidable (σ.Heard id))
  | .notifyFailure id => inferInstanceAs (Decidable (σ.Heard id))
  | .releaseSourceStaging bytes => inferInstanceAs (Decidable (bytes ≤ σ.lent))
  | .copied i => inferInstanceAs (Decidable (σ.config.pcieModel = .tlp ∨ i = 0))
  | .tick ticks => inferInstanceAs (Decidable (σ.now + ticks ≤ horizon))
  | .submit .. | .fence _ | .quiet | .stageSourcePayload _ | .handedOff | .publish _
  | .batchTimeout _ | .fetchPublished _ | .fetched _ | .execute _ | .completionWritten .. =>
      .isTrue trivial

end Submission

/-- Every run of the submission model: any accepted configuration, any calls, and any
order of events. -/
def submissionMachine : Machine Submission Submission.Act Fault where
  init σ := ∃ c : Config, c.validate = .ok () ∧ σ = Submission.idle c
  enabled := Submission.enabled
  exec := Submission.exec

instance (σ : Submission) (a : Submission.Act) : Decidable (submissionMachine.enabled σ a) :=
  inferInstanceAs (Decidable (σ.enabled a))

end ProtoBridge.Rdma
