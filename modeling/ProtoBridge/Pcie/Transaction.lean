import ProtoBridge.Pcie.Wf

/-!
# The transaction layer

What a transfer sees of the fabric: bags of requests and completions that are
somewhere on their way, open reads, and the history. Queues, links, credits and
acknowledgements are invisible here. `Txn.Step` lists the nine things that can
happen to this view, and `Micro.txn` shows that every atomic step of the fabric
is one of them or leaves the view alone.
-/

namespace ProtoBridge.Pcie

open Lib Fabric
open Function (update update_of_ne update_self)
open Multiset (map_add map_singleton)

/-- What a frame carries, wherever it is; `answered` counts the bytes of a read
request that already have a completion. -/
structure Cargo where
  header : Header
  transaction : Nat
  offset : Nat
  destination : Nat
  answered : Nat := 0
  deriving DecidableEq

/-- The cargo of a frame. -/
def Frame.cargo (f : Frame) : Cargo :=
  { header := f.header, transaction := f.transaction, offset := f.offset
    destination := f.destination }

/-- The cargo at a site. -/
def Site.cargo (x : Site) : Cargo :=
  match x.place with
  | .answer _ k => { x.frame.cargo with answered := k }
  | _ => x.frame.cargo

/-- The state the transaction layer works on. -/
structure Txn where
  config : Config
  cargo : Multiset Cargo
  reads : Nat → List ReadState
  readBytes : Nat → Nat
  transfers : Nat → Option Transfer
  nextId : Nat
  trace : List Obs

/-- The view of a fabric in the middle of an action. -/
def Snap.txn (s : Snap) : Txn where
  config := s.fab.config
  cargo := s.total.map Site.cargo
  reads n := (s.fab.nodes n).reads
  readBytes n := (s.fab.nodes n).readBytes
  transfers := s.fab.transfers
  nextId := s.fab.nextId
  trace := s.fab.trace

/-- The request TLP of a transfer. -/
def requestCargo (op : Transfer) (bytes tag : Nat) : Cargo where
  header :=
    { type := if op.read then .read else .write, address := op.address + op.next, bytes
      requester := op.requester, tag, relaxed := op.relaxed }
  transaction := op.id
  offset := op.next
  destination := op.target

/-- The completion of `bytes` more bytes of a read request. -/
def completionCargo (c : Cargo) (bytes : Nat) : Cargo where
  header :=
    { c.header with
      type := .completion
      completer := c.destination
      address := c.header.address + c.answered
      bytes
      byteCount := c.header.bytes - c.answered }
  transaction := c.transaction
  offset := c.offset + c.answered
  destination := c.header.requester

/-- The request with `bytes` more bytes answered, if any are left. -/
def remainder (c : Cargo) (bytes : Nat) : Multiset Cargo :=
  if c.answered + bytes = c.header.bytes then 0 else {{ c with answered := c.answered + bytes }}

/-- The transfer after issuing `bytes` more bytes. -/
def Transfer.issued (op : Transfer) (bytes : Nat) : Transfer :=
  { op with next := op.next + bytes, pending := op.pending + 1 }

/-- The transfer after one of its TLPs is done with. -/
def Transfer.settled (op : Transfer) : Transfer := { op with pending := op.pending - 1 }

/-- What can happen to transfers. -/
inductive Txn.Step : Txn → Txn → Prop
  | note {d o} : (∃ f, o = .received f) → Step d { d with trace := d.trace ++ [o] }
  | submit {d op} : op.id = d.nextId → op.next = 0 → op.pending = 0 → 0 < op.bytes →
      Step d
        { d with
          nextId := d.nextId + 1
          transfers := update d.transfers op.id (some op)
          trace := d.trace ++ [.submitted op] }
  | issueWrite {d op f} : d.transfers op.id = some op → op.read = false → op.next < op.bytes →
      f.cargo = requestCargo op (requestBytes d.config op) 0 →
      Step d
        { d with
          cargo := d.cargo + {requestCargo op (requestBytes d.config op) 0}
          transfers := update d.transfers op.id
            (some (op.issued (requestBytes d.config op)))
          trace := d.trace ++ [.created f] }
  | issueRead {d op f} : d.transfers op.id = some op → op.read = true → op.next < op.bytes →
      (d.reads op.requester).length ≠ d.config.tags →
      requestBytes d.config op ≤ wsub 64 d.config.maxReadBytes (d.readBytes op.requester) →
      requestBytes d.config op ≤ wsub 64 d.config.completionBufferBytes (d.readBytes op.requester) →
      f.cargo = requestCargo op (requestBytes d.config op)
        (freeTag (d.reads op.requester) d.config.tags 0) →
      Step d
        { d with
          cargo := d.cargo + {requestCargo op (requestBytes d.config op)
            (freeTag (d.reads op.requester) d.config.tags 0)}
          reads := update d.reads op.requester (d.reads op.requester ++
            [{ tag := freeTag (d.reads op.requester) d.config.tags 0, transaction := op.id
               offset := op.next, bytes := requestBytes d.config op }])
          readBytes := update d.readBytes op.requester
            (d.readBytes op.requester + requestBytes d.config op)
          transfers := update d.transfers op.id
            (some (op.issued (requestBytes d.config op)))
          trace := d.trace ++ [.created f] }
  | respond {d c bytes m f} : c.header.type = .read → 0 < bytes →
      c.answered + bytes ≤ c.header.bytes → d.cargo = m + {c} →
      (∃ r : Response, r.request.header = c.header ∧ r.next = c.answered ∧
        bytes = completionBytes d.config r) →
      f.cargo = completionCargo c bytes →
      Step d
        { d with
          cargo := m + {completionCargo c bytes} + remainder c bytes
          trace := d.trace ++ [.created f] }
  | land {d f op m} : f.header.type = .write → d.cargo = m + {f.cargo} →
      d.transfers f.transaction = some op →
      Step d
        { d with
          cargo := m
          transfers := update d.transfers f.transaction (some op.settled)
          trace := d.trace ++ [.delivered f] }
  | accept {d f r m} : f.header.type = .completion → d.cargo = m + {f.cargo} →
      (d.reads f.destination).find? (fun r => r.tag == f.header.tag) = some r →
      r.transaction = f.transaction →
      Step d
        { d with
          cargo := m
          reads := update d.reads f.destination ((d.reads f.destination).map fun r' =>
            if r'.tag == r.tag then accepted r f else r')
          trace := d.trace ++ [.delivered f] }
  | retire {d n r op} : (d.reads n).find? (fun r' => r'.tag == r.tag) = some r →
      r.received = r.bytes → d.transfers r.transaction = some op →
      Step d
        { d with
          reads := update d.reads n ((d.reads n).filter fun r' => r'.tag != r.tag)
          readBytes := update d.readBytes n (wsub 64 (d.readBytes n) r.bytes)
          transfers := update d.transfers r.transaction (some op.settled) }
  | finish {d id op} : d.transfers id = some op → op.next = op.bytes → op.pending = 0 →
      Step d
        { d with
          transfers := update d.transfers id none
          trace := if op.complete then d.trace ++ [.scheduled id] else d.trace }

/-! ## The fabric refines the transaction layer -/

section Refinement

variable {env : Env} {s s' : Snap}

theorem Snap.txn_of_core (hc : s'.fab.core = s.fab.core)
    (ht : s'.total.map Site.cargo = s.total.map Site.cargo) : s'.txn = s.txn := by
  have hcfg : s'.fab.config = s.fab.config := show s'.fab.core.config = s.fab.core.config by rw [hc]
  have hnodes : s'.fab.nodes = s.fab.nodes := show s'.fab.core.nodes = s.fab.core.nodes by rw [hc]
  have htr : s'.fab.transfers = s.fab.transfers :=
    show s'.fab.core.transfers = s.fab.core.transfers by rw [hc]
  have hid : s'.fab.nextId = s.fab.nextId := show s'.fab.core.nextId = s.fab.core.nextId by rw [hc]
  have htrace : s'.fab.trace = s.fab.trace := show s'.fab.core.trace = s.fab.core.trace by rw [hc]
  simp only [Snap.txn, hcfg, hnodes, htr, hid, htrace, ht]

theorem cargo_of_move {m m' : Multiset Site} {x y : Site} (h : m' + {x} = m + {y})
    (hxy : x.cargo = y.cargo) : m'.map Site.cargo = m.map Site.cargo := by
  have hmap := congrArg (Multiset.map Site.cargo) h
  rw [map_add, map_add, map_singleton, map_singleton, hxy] at hmap
  exact add_right_cancel hmap

variable {σ : Fabric} {bytes n p tag : Nat} {op : Transfer} {f : Frame}

theorem txn_issueFrame (hreq : op.requester = n) (hp : p < σ.numPorts) :
    Snap.txn ⟨Fabric.issueFrame env σ n op p bytes tag, none⟩ =
      { Snap.txn ⟨σ, none⟩ with
        cargo := (Snap.txn ⟨σ, none⟩).cargo + {requestCargo op bytes tag}
        transfers := update σ.transfers op.id (some (op.issued bytes))
        trace := σ.trace ++ [.created (requestFrame env σ n op bytes tag)] } := by
  subst hreq
  have hcargo : (Snap.total ⟨Fabric.issueFrame env σ op.requester op p bytes tag, none⟩).map
      Site.cargo = (Snap.total ⟨σ, none⟩).map Site.cargo + {requestCargo op bytes tag} := by
    rw [Snap.total_none, Snap.total_none, total_issueFrame hp, map_add,
      map_singleton]
    rfl
  simp only [Snap.txn, hcargo]
  rfl

theorem requestFrame_cargo (hreq : op.requester = n) :
    (requestFrame env σ n op bytes tag).cargo = requestCargo op bytes tag := by
  subst hreq
  rfl

theorem completionFrame_cargo {response : Response} (hdest : n = response.request.destination)
    (htxn : response.request.transaction = op.id) :
    (σ.completionFrame n response op).cargo =
      completionCargo { response.request.cargo with answered := response.next }
        (completionBytes σ.config response) := by
  subst hdest
  simp only [Frame.cargo, completionFrame, makeFrame, completionCargo, completionHeader, htxn]

theorem txn_respond {response : Response} {others : List Response} {m : Multiset Cargo}
    (hn : n < σ.numNodes) (hp : p < σ.numPorts) (hr : (σ.nodes n).responses = response :: others)
    (hdest : n = response.request.destination) (htxn : response.request.transaction = op.id)
    (hm : (Snap.txn ⟨σ, none⟩).cargo =
      m + {{ response.request.cargo with answered := response.next }}) :
    Snap.txn ⟨σ.respond n response others op p (completionBytes σ.config response), none⟩ =
      { Snap.txn ⟨σ, none⟩ with
        cargo := m + {completionCargo { response.request.cargo with answered := response.next }
            (completionBytes σ.config response)} +
          remainder { response.request.cargo with answered := response.next }
            (completionBytes σ.config response)
        trace := σ.trace ++ [.created (σ.completionFrame n response op)] } := by
  have hcargo : (Snap.total ⟨σ.respond n response others op p (completionBytes σ.config response),
      none⟩).map Site.cargo = m + {completionCargo
        { response.request.cargo with answered := response.next }
        (completionBytes σ.config response)} +
      remainder { response.request.cargo with answered := response.next }
        (completionBytes σ.config response) := by
    have hmap := congrArg (Multiset.map Site.cargo) (total_respond op hn hp hr)
    have hrem : (answerSites n (response.next + completionBytes σ.config response)
        response.request).map Site.cargo = remainder
          { response.request.cargo with answered := response.next }
          (completionBytes σ.config response) := by
      unfold answerSites remainder
      by_cases hdone : response.next + completionBytes σ.config response =
          response.request.header.bytes
      · rw [if_pos hdone, if_pos (by exact hdone), Multiset.map_zero]
      · rw [if_neg hdone, if_neg (by exact hdone), map_singleton]
        rfl
    have hnew : Site.cargo ⟨.queue p, σ.completionFrame n response op⟩ =
        completionCargo { response.request.cargo with answered := response.next }
          (completionBytes σ.config response) := completionFrame_cargo hdest htxn
    simp only [map_add, map_singleton, hrem, hnew] at hmap
    have hσ : σ.total.map Site.cargo =
        m + {{ response.request.cargo with answered := response.next }} := by
      rw [← hm]
      simp only [Snap.txn, Snap.total_none]
    rw [Snap.total_none]
    rw [hσ, add_right_comm m, add_right_comm _ _ (remainder _ _)] at hmap
    exact add_right_cancel hmap
  have hreads : ∀ q, ((σ.respond n response others op p
      (completionBytes σ.config response)).nodes q).reads = (σ.nodes q).reads := fun q => by
    rw [respond_eq]
    exact modNode_field Node.reads rfl q
  have hrb : ∀ q, ((σ.respond n response others op p
      (completionBytes σ.config response)).nodes q).readBytes = (σ.nodes q).readBytes := fun q => by
    rw [respond_eq]
    exact modNode_field Node.readBytes rfl q
  simp only [Snap.txn, hcargo, hreads, hrb]
  rfl

theorem fields_returnCredit (σ : Fabric) (f : Frame) :
    (σ.returnCredit f).1.transfers = σ.transfers ∧ (σ.returnCredit f).1.trace = σ.trace ∧
      (σ.returnCredit f).1.nextId = σ.nextId ∧ (σ.returnCredit f).1.config = σ.config := by
  have hcore : (σ.returnCredit f).1.core = σ.core := core_returnCredit ..
  exact ⟨congrArg (fun τ => τ.transfers) hcore, congrArg (fun τ => τ.trace) hcore,
    congrArg (fun τ => τ.nextId) hcore, congrArg (fun τ => τ.config) hcore⟩

theorem txn_landWrite {i t : Nat} (op : Transfer) (hdue : σ.Due i ⟨t, .writeService n f⟩) :
    ∃ m, (Snap.txn ⟨σ, none⟩).cargo = m + {f.cargo} ∧
      Snap.txn ⟨(σ.popEvent i ⟨t, .writeService n f⟩).landWrite f op, none⟩ =
        { Snap.txn ⟨σ, none⟩ with
          cargo := m
          transfers := update σ.transfers f.transaction (some op.settled)
          trace := σ.trace ++ [.delivered f] } := by
  set τ := σ.popEvent i ⟨t, .writeService n f⟩ with hτ
  obtain ⟨htr, htrace, hid, hcfg⟩ := fields_returnCredit τ f
  refine ⟨τ.total.map Site.cargo, ?_, ?_⟩
  · simp only [Snap.txn, Snap.total_none]
    rw [← total_popEvent hdue, map_add]
    rfl
  · have hcargo : (Snap.total ⟨τ.landWrite f op, none⟩).map Site.cargo = τ.total.map Site.cargo := by
      rw [Snap.total_none, total_landWrite]
    simp only [Snap.txn, hcargo]
    show Txn.mk (τ.returnCredit f).1.config _ (fun q => ((τ.returnCredit f).1.nodes q).reads)
      (fun q => ((τ.returnCredit f).1.nodes q).readBytes)
      (update (τ.returnCredit f).1.transfers f.transaction (some op.settled))
      (τ.returnCredit f).1.nextId ((τ.returnCredit f).1.trace ++ [.delivered f]) = _
    rw [returnCredit_nodes, htr, htrace, hid, hcfg]
    rfl

theorem txn_acceptPiece {i t : Nat} {r : ReadState} (hdue : σ.Due i ⟨t, .completionService n f⟩)
    (hn : n = f.destination) :
    ∃ m, (Snap.txn ⟨σ, none⟩).cargo = m + {f.cargo} ∧
      Snap.txn ⟨(σ.popEvent i ⟨t, .completionService n f⟩).acceptPiece n f r, none⟩ =
        { Snap.txn ⟨σ, none⟩ with
          cargo := m
          reads := update (Snap.txn ⟨σ, none⟩).reads f.destination
            (((Snap.txn ⟨σ, none⟩).reads f.destination).map fun r' =>
              if r'.tag == r.tag then r else r')
          trace := σ.trace ++ [.delivered f] } := by
  subst hn
  set τ := σ.popEvent i ⟨t, .completionService f.destination f⟩ with hτ
  set g : Node → Node := fun m =>
    { m with reads := m.reads.map fun r' => if r'.tag == r.tag then r else r' } with hg
  set υ := (τ.modNode f.destination g).observe (.delivered f) with hυ
  obtain ⟨htr, htrace, hid, hcfg⟩ := fields_returnCredit υ f
  refine ⟨τ.total.map Site.cargo, ?_, ?_⟩
  · simp only [Snap.txn, Snap.total_none]
    rw [← total_popEvent hdue, map_add]
    rfl
  · have hcargo : (Snap.total ⟨τ.acceptPiece f.destination f r, none⟩).map Site.cargo =
        τ.total.map Site.cargo := by
      rw [Snap.total_none, total_acceptPiece]
    have hreads : (fun q => (υ.nodes q).reads) = update (fun q => (σ.nodes q).reads)
        f.destination ((σ.nodes f.destination).reads.map fun r' => if r'.tag == r.tag then r else r') :=
      Function.comp_update Node.reads σ.nodes _ _
    have hrb : (fun q => (υ.nodes q).readBytes) = fun q => (σ.nodes q).readBytes :=
      funext (modNode_field (σ := τ) Node.readBytes rfl)
    simp only [Snap.txn, hcargo]
    show Txn.mk (υ.returnCredit f).1.config _ (fun q => ((υ.returnCredit f).1.nodes q).reads)
      (fun q => ((υ.returnCredit f).1.nodes q).readBytes) (υ.returnCredit f).1.transfers
      (υ.returnCredit f).1.nextId (υ.returnCredit f).1.trace = _
    rw [returnCredit_nodes, htr, htrace, hid, hcfg, hreads, hrb]
    rfl

theorem txn_retireRead {r : ReadState} :
    Snap.txn ⟨σ.retireRead n r op, none⟩ =
      { Snap.txn ⟨σ, none⟩ with
        reads := update (Snap.txn ⟨σ, none⟩).reads n
          (((Snap.txn ⟨σ, none⟩).reads n).filter fun r' => r'.tag != r.tag)
        readBytes := update (Snap.txn ⟨σ, none⟩).readBytes n
          (wsub 64 ((Snap.txn ⟨σ, none⟩).readBytes n) r.bytes)
        transfers := update σ.transfers r.transaction (some op.settled) } := by
  have hcargo : (Snap.total ⟨σ.retireRead n r op, none⟩).map Site.cargo =
      (Snap.total ⟨σ, none⟩).map Site.cargo := by
    rw [Snap.total_none, Snap.total_none, total_retireRead]
  have hreads : (fun q => ((σ.retireRead n r op).nodes q).reads) =
      update (fun q => (σ.nodes q).reads) n
        ((σ.nodes n).reads.filter fun r' => r'.tag != r.tag) :=
    Function.comp_update Node.reads σ.nodes _ _
  have hrb : (fun q => ((σ.retireRead n r op).nodes q).readBytes) =
      update (fun q => (σ.nodes q).readBytes) n
        (wsub 64 (σ.nodes n).readBytes r.bytes) :=
    Function.comp_update Node.readBytes σ.nodes _ _
  simp only [Snap.txn, hcargo]
  rw [hreads, hrb]
  rfl

theorem txn_finish {id : Nat} (hop : σ.transfers id = some op) (hnext : op.next = op.bytes)
    (hpend : op.pending = 0) :
    Snap.txn ⟨σ.finish id, none⟩ =
      { Snap.txn ⟨σ, none⟩ with
        transfers := update σ.transfers id none
        trace := if op.complete then σ.trace ++ [.scheduled id] else σ.trace } := by
  have hcargo : (Snap.total ⟨σ.finish id, none⟩).map Site.cargo =
      (Snap.total ⟨σ, none⟩).map Site.cargo := by
    rw [Snap.total_none, Snap.total_none, total_finish]
  simp only [Snap.txn, hcargo]
  unfold Fabric.finish
  simp only [hop, hnext, hpend, ne_eq, not_true_eq_false, or_self, ↓reduceIte]
  cases op.complete <;> rfl

theorem txn_openRead :
    Snap.txn ⟨σ.openRead n op bytes tag, none⟩ =
      { Snap.txn ⟨σ, none⟩ with
        reads := update (Snap.txn ⟨σ, none⟩).reads n
          ((Snap.txn ⟨σ, none⟩).reads n ++
            [{ tag, transaction := op.id, offset := op.next, bytes }])
        readBytes := update (Snap.txn ⟨σ, none⟩).readBytes n
          ((Snap.txn ⟨σ, none⟩).readBytes n + bytes) } := by
  have hcargo : (Snap.total ⟨σ.openRead n op bytes tag, none⟩).map Site.cargo =
      (Snap.total ⟨σ, none⟩).map Site.cargo := by
    rw [Snap.total_none, Snap.total_none, total_openRead]
  have hreads : (fun q => ((σ.openRead n op bytes tag).nodes q).reads) =
      update (fun q => (σ.nodes q).reads) n ((σ.nodes n).reads ++
        [{ tag, transaction := op.id, offset := op.next, bytes }]) :=
    Function.comp_update Node.reads σ.nodes _ _
  have hrb : (fun q => ((σ.openRead n op bytes tag).nodes q).readBytes) =
      update (fun q => (σ.nodes q).readBytes) n ((σ.nodes n).readBytes + bytes) :=
    Function.comp_update Node.readBytes σ.nodes _ _
  simp only [Snap.txn, hcargo]
  rw [hreads, hrb]
  rfl

theorem txn_enter :
    Snap.txn ⟨σ.enter op, none⟩ =
      { Snap.txn ⟨σ, none⟩ with
        nextId := σ.nextId + 1
        transfers := update σ.transfers op.id (some op)
        trace := σ.trace ++ [.submitted op] } := by
  have hcargo : (Snap.total ⟨σ.enter op, none⟩).map Site.cargo =
      (Snap.total ⟨σ, none⟩).map Site.cargo := by
    rw [Snap.total_none, Snap.total_none, total_enter]
  have hreads : (queueTransfer op (σ.nodes op.requester)).reads = (σ.nodes op.requester).reads := by
    unfold queueTransfer
    split <;> rfl
  have hrb : (queueTransfer op (σ.nodes op.requester)).readBytes =
      (σ.nodes op.requester).readBytes := by
    unfold queueTransfer
    split <;> rfl
  simp only [Snap.txn, hcargo]
  rw [enter_eq]
  dsimp only
  rw [funext (modNode_field Node.reads hreads), funext (modNode_field Node.readBytes hrb)]
  rfl

theorem txn_hold {σ' : Fabric}
    (hcore : ∃ calls, σ'.core = { σ.core with trace := σ.trace ++ [.received f], calls })
    (ht : σ'.total.map Site.cargo = (Snap.total ⟨σ, some (p, f)⟩).map Site.cargo) :
    Txn.Step (Snap.txn ⟨σ, some (p, f)⟩) (Snap.txn ⟨σ', none⟩) := by
  obtain ⟨calls, hc⟩ := hcore
  have hcfg : σ'.config = σ.config := show σ'.core.config = σ.config by rw [hc]; rfl
  have hnodes : σ'.nodes = σ.nodes := show σ'.core.nodes = σ.nodes by rw [hc]; rfl
  have htr : σ'.transfers = σ.transfers := show σ'.core.transfers = σ.transfers by rw [hc]; rfl
  have hid : σ'.nextId = σ.nextId := show σ'.core.nextId = σ.nextId by rw [hc]; rfl
  have htrace : σ'.trace = σ.trace ++ [.received f] := show σ'.core.trace = _ by rw [hc]
  have hstep := Txn.Step.note (d := Snap.txn ⟨σ, some (p, f)⟩) ⟨f, rfl⟩
  have heq : Snap.txn ⟨σ', none⟩ = { Snap.txn ⟨σ, some (p, f)⟩ with
      trace := (Snap.txn ⟨σ, some (p, f)⟩).trace ++ [.received f] } := by
    simp only [Snap.txn, Snap.total_none, hcfg, hnodes, htr, hid, htrace, ht]
  rw [heq]
  exact hstep

section Steps

variable {i t : Nat}

theorem txn_addNode {σ' : Fabric} {k : NodeKind} (hwf : Snap.Wf ⟨σ, none⟩)
    (h : σ.addNode k = .ok σ') : Snap.txn ⟨σ', none⟩ = Snap.txn ⟨σ, none⟩ := by
  obtain ⟨hu, heq⟩ := addNode_spec h
  have hreads := (hwf.unused hu).2.2.2
  have htotal : (Snap.total ⟨σ', none⟩) = Snap.total ⟨σ, none⟩ := by
    rw [Snap.total_none, Snap.total_none, total_addNode h]
  have hnode : ∀ n, (σ'.nodes n).reads = (σ.nodes n).reads ∧
      (σ'.nodes n).readBytes = (σ.nodes n).readBytes := by
    intro n
    rw [heq]
    dsimp only
    by_cases hn : n = σ.numNodes
    · subst hn
      rw [update_self, (hreads _).1, (hreads _).2]
      cases k <;> exact ⟨rfl, rfl⟩
    · rw [update_of_ne hn]
      exact ⟨rfl, rfl⟩
  simp only [Snap.txn, htotal, funext fun n => (hnode n).1, funext fun n => (hnode n).2]
  rw [heq]

theorem txn_addLink {σ' : Fabric} {a b : Nat} (h : σ.addLink a b = .ok σ') :
    Snap.txn ⟨σ', none⟩ = Snap.txn ⟨σ, none⟩ := by
  obtain ⟨-, heq⟩ := addLink_spec h
  have htotal : (Snap.total ⟨σ', none⟩) = Snap.total ⟨σ, none⟩ := by
    rw [Snap.total_none, Snap.total_none, total_addLink h]
  have hreads : ∀ n, (σ'.nodes n).reads = (σ.nodes n).reads := fun n => by
    rw [heq, modNode_field Node.reads rfl, modNode_field Node.reads rfl]
  have hrb : ∀ n, (σ'.nodes n).readBytes = (σ.nodes n).readBytes := fun n => by
    rw [heq, modNode_field Node.readBytes rfl, modNode_field Node.readBytes rfl]
  simp only [Snap.txn, htotal, hreads, hrb]
  rw [heq]
  rfl

theorem txn_popRead (hwf : Snap.Wf ⟨σ, none⟩) (hdue : σ.Due i ⟨t, .readService n f⟩) :
    Snap.txn ⟨(σ.popEvent i ⟨t, .readService n f⟩).modNode n fun m =>
      { m with responses := m.responses ++ [⟨f, 0⟩] }, none⟩ = Snap.txn ⟨σ, none⟩ := by
  have hok := hwf.event_ok hdue (Multiset.mem_singleton_self _)
  have hn : n < σ.numNodes := (show n = f.destination from hok.fits.1) ▸ hok.destination_lt
  have hcargo := cargo_of_move (total_popRead hn hdue) rfl
  simp only [Snap.txn, Snap.total_none, hcargo]
  rw [funext (modNode_field Node.reads (by rfl)), funext (modNode_field Node.readBytes (by rfl))]
  rfl

theorem txn_popCompletion {r : ReadState} (hwf : Snap.Wf ⟨σ, none⟩)
    (hdue : σ.Due i ⟨t, .completionService n f⟩)
    (hr : (σ.nodes n).reads.find? (fun r => r.tag == f.header.tag) = some r)
    (hmis : mismatch r f = false) :
    Txn.Step (Snap.txn ⟨σ, none⟩)
      (Snap.txn ⟨(σ.popEvent i ⟨t, .completionService n f⟩).acceptPiece n f (accepted r f),
        none⟩) := by
  have hok := hwf.event_ok hdue (Multiset.mem_singleton_self _)
  have hn : n = f.destination := hok.fits.1
  have hty : f.header.type = .completion := hok.fits.2.1
  obtain ⟨m, hm, heq⟩ := txn_acceptPiece (r := accepted r f) hdue hn
  have htxn : r.transaction = f.transaction := by
    simp only [mismatch, Bool.or_eq_false_iff, bne_eq_false_iff_eq] at hmis
    exact hmis.1.1.1
  rw [heq]
  exact .accept hty hm (hn ▸ hr) htxn

theorem txn_sendFrame {h : Option (Nat × Frame)} (hwf : Snap.Wf ⟨σ, h⟩)
    (hi : (σ.ports p).queue[i]? = some f) :
    Snap.txn ⟨σ.sendFrame env p i f, h⟩ = Snap.txn ⟨σ, h⟩ := by
  have hp : p < σ.numPorts := (hwf.queue_ok (List.mem_of_getElem? hi)).fits.1
  have hcargo := cargo_of_move
    (balance_frame (total_sendFrame env hp hi) (handSites h)) rfl
  have hcore := core_sendFrame σ env p i f
  have hall : ∀ {α : Type} (F : Fabric → α), (∀ τ : Fabric, F τ.core = F τ) →
      F (σ.modPort p fun port => { port with queue := port.queue.eraseIdx i }) = F σ →
      F (σ.sendFrame env p i f) = F σ := fun F hF hsame => by
    rw [← hF, hcore, hF, hsame]
  simp only [Snap.txn, hall Fabric.config (fun _ => rfl) rfl, hall Fabric.nodes (fun _ => rfl) rfl,
    hall Fabric.transfers (fun _ => rfl) rfl, hall Fabric.nextId (fun _ => rfl) rfl,
    hall Fabric.trace (fun _ => rfl) rfl]
  rw [show (Snap.total ⟨σ.sendFrame env p i f, h⟩).map Site.cargo =
    (Snap.total ⟨σ, h⟩).map Site.cargo from hcargo]

theorem txn_forward (hwf : Snap.Wf ⟨σ, some (p, f)⟩) :
    Snap.txn ⟨σ.forward (σ.ports p).dst f, none⟩ = Snap.txn ⟨σ, some (p, f)⟩ := by
  have hlt : (σ.ports p).dst < σ.numNodes := hwf.topo.dst_lt hwf.hand_ok.fits.1
  have hcargo : (Snap.total ⟨σ.forward (σ.ports p).dst f, none⟩).map Site.cargo =
      (Snap.total ⟨σ, some (p, f)⟩).map Site.cargo := by
    rw [Snap.total_none, Snap.total_some, total_forward hlt, map_add, map_add]
    rfl
  simp only [Snap.txn, hcargo]
  rw [Fabric.forward, funext (modNode_field Node.reads (by rfl)),
    funext (modNode_field Node.readBytes (by rfl))]
  rfl

theorem txn_assign (hwf : Snap.Wf ⟨σ, none⟩) (hi : (σ.nodes n).waiting[i]? = some f)
    (hr : σ.topo.route n f.destination = some p) :
    Snap.txn ⟨(σ.enqueue p f).modNode n fun m =>
      { m with waiting := m.waiting.eraseIdx i }, none⟩ = Snap.txn ⟨σ, none⟩ := by
  have hn := (hwf.waiting_ok (List.mem_of_getElem? hi)).fits.1
  have hp := ((hwf.topo.mem_ports n p).mp (Topo.route_mem hr)).1
  have hcargo := cargo_of_move (total_assign hn hp hi) rfl
  simp only [Snap.txn, Snap.total_none, hcargo]
  rw [funext (modNode_field Node.reads (by rfl)), funext (modNode_field Node.readBytes (by rfl))]
  rfl

theorem txn_respond_step {response : Response} {others : List Response}
    (hwf : Snap.Wf ⟨σ, none⟩) (hr : (σ.nodes n).responses = response :: others)
    (hroute : σ.topo.route n response.request.header.requester = some p)
    (hop : σ.transfers response.request.transaction = some op)
    (hpos : completionBytes σ.config response ≠ 0) :
    Txn.Step (Snap.txn ⟨σ, none⟩)
      (Snap.txn ⟨σ.respond n response others op p (completionBytes σ.config response), none⟩) := by
  have hmem : response ∈ (σ.nodes n).responses := by rw [hr]; exact List.mem_cons_self
  have hn := hwf.stores.responses n (List.ne_nil_of_mem hmem)
  have hp := ((hwf.topo.mem_ports n p).mp (Topo.route_mem hroute)).1
  have hok := hwf.response_ok hmem
  have htxn : response.request.transaction = op.id := (hwf.jobs.filed _ _ hop).1.symm
  obtain ⟨rest, hrest⟩ := Multiset.exists_cons_of_mem
    (Snap.mem_total (s := ⟨σ, none⟩) (mem_total_of_response hn hmem))
  have hm : (Snap.txn ⟨σ, none⟩).cargo = rest.map Site.cargo +
      {{ response.request.cargo with answered := response.next }} := by
    simp only [Snap.txn]
    rw [hrest, Multiset.map_cons, ← Multiset.singleton_add, add_comm]
    rfl
  rw [txn_respond hn hp hr hok.fits.1 htxn hm]
  have hle := completionBytes_le σ.config response
  have hlt : response.next < response.request.header.bytes := hok.fits.2.2.2
  refine .respond hok.fits.2.1 (Nat.pos_of_ne_zero hpos) ?_ hm ⟨response, rfl, rfl, rfl⟩
    (completionFrame_cargo hok.fits.1 htxn)
  show response.next + completionBytes σ.config response ≤ response.request.header.bytes
  omega

theorem txn_issueWrite {id : Nat} (hwf : Snap.Wf ⟨σ, none⟩) (hi : σ.Issues n op id p)
    (hrd : op.read = false) :
    Txn.Step (Snap.txn ⟨σ, none⟩)
      (Snap.txn ⟨issueFrame env σ n op p (requestBytes σ.config op) 0, none⟩) := by
  obtain ⟨⟨rd, rest, hq⟩, hop, hmore, -, hroute, -⟩ := hi
  obtain ⟨-, -, hown⟩ := hwf.jobs.queued n rd id (by rw [hq]; exact List.mem_cons_self)
  have hp := ((hwf.topo.mem_ports n p).mp (Topo.route_mem hroute)).1
  obtain ⟨hid, -, hok⟩ := hwf.jobs.filed id op hop
  rw [txn_issueFrame (hown op hop).1 hp]
  exact .issueWrite (hid ▸ hop) hrd (lt_of_le_of_ne hok.next_le hmore)
    (requestFrame_cargo (hown op hop).1)

theorem txn_issueRead {id : Nat} (hwf : Snap.Wf ⟨σ, none⟩) (hi : σ.Issues n op id p)
    (hrd : op.read = true)
    (hwin : windowFull σ.config (σ.nodes n) (requestBytes σ.config op) = false) :
    Txn.Step (Snap.txn ⟨σ, none⟩)
      (Snap.txn ⟨issueFrame env
        (σ.openRead n op (requestBytes σ.config op) (freeTag (σ.nodes n).reads σ.config.tags 0))
        n op p (requestBytes σ.config op) (freeTag (σ.nodes n).reads σ.config.tags 0), none⟩) := by
  obtain ⟨⟨rd, rest, hq⟩, hop, hmore, -, hroute, -⟩ := hi
  obtain ⟨-, -, hown⟩ := hwf.jobs.queued n rd id (by rw [hq]; exact List.mem_cons_self)
  have hp := ((hwf.topo.mem_ports n p).mp (Topo.route_mem hroute)).1
  obtain ⟨hid, -, hok⟩ := hwf.jobs.filed id op hop
  have hreq := (hown op hop).1
  rw [txn_issueFrame hreq (by exact hp), txn_openRead]
  subst hreq
  simp only [windowFull, Bool.or_eq_false_iff, beq_eq_false_iff_ne, decide_eq_false_iff_not,
    not_lt] at hwin
  exact .issueRead (hid ▸ hop) hrd (lt_of_le_of_ne hok.next_le hmore) hwin.1.1 hwin.1.2 hwin.2
    (requestFrame_cargo rfl)

theorem txn_popTransfer (rd : Bool) :
    Snap.txn ⟨σ.popTransfer n rd, none⟩ = Snap.txn ⟨σ, none⟩ := by
  have htotal : Snap.total ⟨σ.popTransfer n rd, none⟩ = Snap.total ⟨σ, none⟩ := by
    rw [Snap.total_none, Snap.total_none, total_popTransfer]
  simp only [Snap.txn, htotal]
  rw [Fabric.popTransfer, funext (modNode_field Node.reads (by cases rd <;> rfl)),
    funext (modNode_field Node.readBytes (by cases rd <;> rfl))]
  rfl

theorem txn_pumping (b : Bool) :
    Snap.txn ⟨σ.modNode n fun m => { m with pumping := b }, none⟩ = Snap.txn ⟨σ, none⟩ := by
  have htotal : Snap.total ⟨σ.modNode n fun m => { m with pumping := b }, none⟩ =
      Snap.total ⟨σ, none⟩ := by
    rw [Snap.total_none, Snap.total_none, total_modNode_same (by rfl) (by rfl)]
  simp only [Snap.txn, htotal]
  rw [funext (modNode_field Node.reads (by rfl)), funext (modNode_field Node.readBytes (by rfl))]
  rfl

end Steps

/-- **The fabric refines the transaction layer.** -/
theorem Micro.txn (h : Micro env s s') (hwf : s.Wf) : s'.txn = s.txn ∨ Txn.Step s.txn s'.txn := by
  cases h with
  | addNode h => exact .inl (txn_addNode hwf h)
  | addLink h => exact .inl (txn_addLink h)
  | enter hr =>
      right
      rw [txn_enter]
      exact .submit rfl rfl rfl hr.bytes_pos
  | advance => exact .inl rfl
  -- DLLPs, timers and the clock carry no cargo.
  | popBusy hdue =>
      refine .inl (Snap.txn_of_core (core_modPort rfl) ?_)
      rw [Snap.total_none, Snap.total_none, total_modPort_same (by rfl), total_popEvent_same hdue rfl]
  | popCredit hdue =>
      refine .inl (Snap.txn_of_core (core_takeCredit ..) ?_)
      rw [Snap.total_none, Snap.total_none, total_takeCredit, total_popEvent_same hdue rfl]
  | popAckDllp hdue =>
      refine .inl (Snap.txn_of_core (core_takeAck ..) ?_)
      rw [Snap.total_none, Snap.total_none, total_takeAck, total_popEvent_same hdue rfl]
  | popFrame hdue =>
      refine .inl (Snap.txn_of_core (core_countTlp ..) ?_)
      rw [Snap.total_none, Snap.total_some, total_countTlp]
      exact congrArg (Multiset.map Site.cargo) (total_popEvent hdue)
  | popFc hdue =>
      refine .inl (Snap.txn_of_core (core_flushReturn ..) ?_)
      rw [Snap.total_none, Snap.total_none, total_flushReturn, total_popEvent_same hdue rfl]
  | popAckTimer hdue | popWake hdue | popCallback hdue =>
      refine .inl (Snap.txn_of_core rfl ?_)
      rw [Snap.total_none, Snap.total_none, total_popEvent_same hdue rfl]
  -- Memory has the TLP: a write lands, a completion is a piece of its read.
  | popRead hdue => exact .inl (txn_popRead hwf hdue)
  | @popWrite σ i t n f op hdue hop =>
      right
      have hty : f.header.type = .write :=
        (hwf.event_ok hdue (Multiset.mem_singleton_self _)).fits.2.1
      obtain ⟨m, hm, heq⟩ := txn_landWrite op hdue
      rw [heq]
      exact .land hty hm hop
  | popCompletion hdue hr hmis => exact .inr (txn_popCompletion hwf hdue hr hmis)
  | retire hr hfull hop =>
      right
      rw [txn_retireRead]
      exact .retire hr hfull hop
  | cancelAck =>
      exact .inl (Snap.txn_of_core rfl
        (by simp only [Snap.total, total_cancel fun _ => sites_of_isAck]))
  | pushAck =>
      exact .inl (Snap.txn_of_core (core_pushAck ..) (by simp only [Snap.total, total_pushAck]))
  | armAck =>
      exact .inl (Snap.txn_of_core rfl
        (by simp only [Snap.total, total_schedule, EventKind.sites, add_zero]))
  | sendControl =>
      exact .inl (Snap.txn_of_core (core_sendControl ..)
        (by simp only [Snap.total, total_sendControl]))
  | sendFrame _ _ hi => exact .inl (txn_sendFrame hwf hi)
  | armWake =>
      exact .inl (Snap.txn_of_core (core_armWake ..) (by simp only [Snap.total, total_armWake]))
  -- A reception is noted when the frame has arrived.
  | forward => exact .inl (txn_forward hwf)
  | @holdRead σ p f calls delay _ ht =>
      right
      refine txn_hold ⟨calls, ?_⟩ ?_
      · show { ((σ.observe (.received f)).returnCredit f).1.core with calls } = _
        rw [core_returnCredit]
        rfl
      · rw [total_schedule, total_calls, total_returnCredit, total_observe, Snap.total_some,
          returnCredit_frame, map_add, map_add]
        rfl
  | @holdWrite σ p f calls delay _ ht | @holdCompletion σ p f calls delay _ ht =>
      right
      refine txn_hold ⟨calls, rfl⟩ ?_
      rw [total_schedule, total_calls, total_observe, Snap.total_some, map_add,
        map_add]
      rfl
  -- The pump: what is issued here is all that is new.
  | assign hi hr => exact .inl (txn_assign hwf hi hr)
  | respond hr hroute _ hop hpos => exact .inr (txn_respond_step hwf hr hroute hop hpos)
  | issueWrite hi hrd => exact .inr (txn_issueWrite hwf hi hrd)
  | issueRead hi hrd hwin => exact .inr (txn_issueRead hwf hi hrd hwin)
  | @popTransfer σ n rd => exact .inl (txn_popTransfer rd)
  | finish hop hnext hpend =>
      right
      rw [txn_finish hop hnext hpend]
      exact .finish hop hnext hpend
  | @pumping σ n b => exact .inl (txn_pumping b)

end Refinement

end ProtoBridge.Pcie
