import ProtoBridge.Rdma.Owed

/-!
# The receiving side of the engine

Posted receives and the requests being received touch a part of the engine only.
`Inbox` is that part: a few fields, the closures that carry receives and
fragments, and the history of what was accepted. Everything else the engine does
leaves it alone, and what changes it is listed by `Inbox.Micro`, one guard and
one effect each. A call or a closure of the engine is a chain of such steps.
-/

namespace ProtoBridge.Rdma

open Lib Relation

/-- The closures of the receiving side. -/
def Cont.receives : Cont → Bool
  | .enqueueReceive _ | .completeReceive _ _ | .allocated _ _ | .destinationWritten _ _ _
  | .destinationCopied _ _ _ => true
  | _ => false

/-- The events of the receiving side. -/
def Obs.receives : Obs → Bool
  | .received _ _ | .accepted _ _ | .taken _ _ | .rejected _ _ => true
  | _ => false

/-- The receive a closure is about to report. -/
def Cont.completing? : Cont → Option PostedReceive
  | .completeReceive r _ => some r
  | _ => none

/-- The part of the engine that receives. -/
structure Inbox where
  config : Config
  regions : List (Nat × Region)
  posted : Nat
  reserved : Nat
  queued : List PostedReceive
  incoming : AList (fun _ : Key => Nat)
  obj : Nat → Incoming
  next : Nat
  rejected : Key → Option Nat
  failed : Key → Bool
  work : Multiset Cont
  log : List Obs

namespace Engine

variable {σ σ' : Engine} {k : Cont}

/-- The fields of the receiving side. -/
def inboxFields (σ : Engine) :=
  (σ.config, σ.regions, σ.postedReceives, σ.receiveReserved, σ.receives, σ.incoming, σ.incomingObj,
    σ.nextIncoming, σ.rejectedAttempts, σ.failedIncoming)

/-- What the receiving side sees of an engine. -/
def inbox (σ : Engine) : Inbox where
  config := σ.config
  regions := σ.regions
  posted := σ.postedReceives
  reserved := σ.receiveReserved
  queued := σ.receives
  incoming := σ.incoming
  obj := σ.incomingObj
  next := σ.nextIncoming
  rejected := σ.rejectedAttempts
  failed := σ.failedIncoming
  work := σ.owed.filter fun k => k.receives = true
  log := σ.log.filter Obs.receives

/-! ## What the rest of the engine leaves alone -/

theorem inbox_of_plain (ks : Multiset Cont) (es : List Obs) (howed : σ'.owed = σ.owed + ks)
    (hks : ∀ k ∈ ks, k.receives = false) (hlog : σ'.log = σ.log ++ es)
    (hes : ∀ e ∈ es, e.receives = false) (hfields : σ'.inboxFields = σ.inboxFields) :
    σ'.inbox = σ.inbox := by
  simp only [inboxFields, Prod.mk.injEq] at hfields
  obtain ⟨h1, h2, h3, h4, h5, h6, h7, h8, h9, h10⟩ := hfields
  have hwork : ks.filter (fun k => k.receives = true) = 0 :=
    Multiset.filter_eq_nil.mpr fun k hk => by simp [hks k hk]
  have hevents : es.filter Obs.receives = [] :=
    List.filter_eq_nil_iff.mpr fun e he => by simp [hes e he]
  simp only [inbox, h1, h2, h3, h4, h5, h6, h7, h8, h9, h10, howed, hlog, Multiset.filter_add, hwork,
    List.filter_append, hevents, add_zero, List.append_nil]

theorem inbox_of_view (howed : σ'.owed = σ.owed) (hlog : σ'.log = σ.log)
    (hfields : σ'.inboxFields = σ.inboxFields) : σ'.inbox = σ.inbox :=
  inbox_of_plain 0 [] (by rw [howed, add_zero]) (by simp) (by rw [hlog, List.append_nil]) (by simp)
    hfields

variable {e : Obs} {next : UInt64} {i qp : Nat} {tag : Tag} {h : Header}

theorem inbox_record (σ : Engine) (he : e.receives = false) : (σ.record e).inbox = σ.inbox :=
  inbox_of_plain 0 [e] (by simp) (by simp) rfl (by simpa using he) rfl

theorem inbox_pend (σ : Engine) (hk : k.receives = false) : (σ.pend k).inbox = σ.inbox :=
  inbox_of_plain {k} [] (owed_pend σ k) (by simpa using hk) (by simp) (by simp) rfl

theorem inbox_append (σ : Engine) {ks : List Cont} (hks : ∀ k ∈ ks, k.receives = false) :
    ({ σ with pending := σ.pending ++ ks } : Engine).inbox = σ.inbox :=
  inbox_of_plain ks [] (owed_append σ ks) (by simpa using hks) (by simp) (by simp) rfl

@[simp] theorem inbox_acknowledge (σ : Engine) (h : Header) (t : Option Tag) :
    (σ.acknowledge h t).inbox = σ.inbox := by
  have howed := owed_acknowledge σ h t
  obtain ⟨attached, found, heq⟩ := acknowledge_eq σ h t
  rw [heq] at howed ⊢
  exact inbox_of_plain 0 _ (by rw [howed, add_zero]) (by simp) rfl (by simp [Obs.receives]) rfl

theorem Rescheduled.inbox {ks : Multiset Cont} (h : Rescheduled σ σ') (howed : σ'.owed = σ.owed + ks)
    (hks : ∀ k ∈ ks, k.receives = false) : σ'.inbox = σ.inbox := by
  obtain ⟨p, s, r, rfl⟩ := h
  exact inbox_of_plain _ [] howed hks (by simp) (by simp) rfl

variable {address bytes : Nat} {r : Responder} {old : UInt64}

theorem inbox_stageSourcePayload (hk : k.receives = false)
    (h : σ.stageSourcePayload bytes k = .ok σ') : σ'.inbox = σ.inbox :=
  (stageSourcePayload_ok h).1.inbox (stageSourcePayload_ok h).2 (by simpa using hk)

theorem inbox_releaseSourceStaging (h : σ.releaseSourceStaging bytes = .ok σ') :
    σ'.inbox = σ.inbox :=
  (releaseSourceStaging_ok h).1.inbox (by rw [(releaseSourceStaging_ok h).2, add_zero]) (by simp)

theorem inbox_acquireReceiveStaging (hk : k.receives = false)
    (h : σ.acquireReceiveStaging bytes k = .ok σ') : σ'.inbox = σ.inbox :=
  (acquireReceiveStaging_ok h).1.inbox (acquireReceiveStaging_ok h).2 (by simpa using hk)

theorem inbox_releaseReceiveStaging (h : σ.releaseReceiveStaging bytes = .ok σ') :
    σ'.inbox = σ.inbox :=
  (releaseReceiveStaging_ok h).1.inbox (by rw [(releaseReceiveStaging_ok h).2, add_zero]) (by simp)

/-! ### Memory -/

theorem receives_of_reportsWait (h : Cont.reportsWait k) : k.receives = false := by
  cases k <;> first | rfl | cases h

theorem inbox_checkWaits (h : σ.checkWaits = .ok σ') : σ'.inbox = σ.inbox := by
  obtain ⟨waits, ks, rfl, hks⟩ := checkWaits_ok h
  exact inbox_of_plain ks [] (owed_append σ ks) (fun k hk => receives_of_reportsWait (hks k hk))
    (by simp) (by simp) rfl

theorem inbox_writeMemory {data : List UInt8} (h : σ.writeMemory address data = .ok σ')
    : σ'.inbox = σ.inbox := by
  obtain ⟨waits, ks, rfl, hks⟩ := writeMemory_ok h
  exact inbox_of_plain ks _ (owed_append σ ks) (fun k hk => receives_of_reportsWait (hks k hk)) rfl
    (by simp [Obs.receives]) rfl

theorem inbox_store {packet : List UInt8} {zero : Bool}
    (h : σ.store address packet bytes zero = .ok σ') : σ'.inbox = σ.inbox := by
  obtain ⟨waits, ks, memory, rfl, hks, -⟩ := store_ok h
  exact inbox_of_plain ks _ (owed_append σ ks) (fun k hk => receives_of_reportsWait (hks k hk)) rfl
    (by simp [Obs.receives]) rfl

theorem inbox_commitWord (h : σ.commitWord r old next = .ok σ') : σ'.inbox = σ.inbox := by
  obtain ⟨waits, ks, rfl, hks, -⟩ := commitWord_ok h
  exact inbox_of_plain ks _ (owed_append σ ks) (fun k hk => receives_of_reportsWait (hks k hk)) rfl
    (by simp [Obs.receives]) rfl

theorem inbox_waitSignal {c : Comparison} {value : UInt64}
    (h : σ.waitSignal address c value = .ok σ') : σ'.inbox = σ.inbox := by
  obtain ⟨_, -, hcheck⟩ := bind_eq_ok.mp h
  exact (inbox_checkWaits hcheck).trans (inbox_of_view rfl rfl rfl)

/-! ### Sending -/

theorem inbox_transmissions (σ : Engine) (ts : List Transmission) :
    ({ σ with pending := σ.pending ++ ts.map .transmit } : Engine).inbox = σ.inbox := by
  apply inbox_append
  intro k hk
  obtain ⟨t, -, rfl⟩ := List.mem_map.mp hk
  rfl

theorem inbox_sendPayload {peer flow vc : Nat}
    (h : σ.sendPayload peer tag qp flow vc address bytes = .ok σ') : σ'.inbox = σ.inbox := by
  obtain ⟨ts, -, rfl⟩ := sendPayload_ok h
  exact inbox_transmissions σ ts

theorem inbox_sendSource {s : Source} (h : σ.sendSource s = .ok σ') : σ'.inbox = σ.inbox := by
  rcases sendSource_ok h with ⟨-, ts, -, rfl⟩ | ⟨-, rfl⟩
  · exact inbox_transmissions σ ts
  · exact inbox_record σ rfl

@[simp] theorem inbox_setSource (σ : Engine) (id : Nat) (s : Source) :
    (σ.setSource id s).inbox = σ.inbox := inbox_of_view rfl rfl rfl

@[simp] theorem inbox_notifyOperationComplete (σ : Engine) (id : Nat) (success : Bool) :
    (σ.notifyOperationComplete id success).inbox = σ.inbox := inbox_record σ rfl

theorem inbox_execute {request : Request} {timing : WorkTiming} {succeeded : Bool}
    (h : σ.execute request timing succeeded = .ok σ') : σ'.inbox = σ.inbox := by
  unfold execute at h
  split at h
  · cases h
    exact inbox_notifyOperationComplete _ _ _
  · exact (inbox_sendSource h).trans (inbox_of_view rfl rfl rfl)

theorem inbox_retry {id : Nat} (h : σ.retry id = .ok σ') : σ'.inbox = σ.inbox := by
  unfold retry at h
  split at h
  · cases h
    rfl
  · split at h
    · cases h
      rfl
    · exact (inbox_sendSource h).trans (inbox_setSource _ _ _)

theorem inbox_sourceAcknowledged (σ : Engine) (tag : Tag) :
    (σ.sourceAcknowledged tag).inbox = σ.inbox := by
  unfold sourceAcknowledged
  split
  · rfl
  · split
    · rfl
    · split
      · rfl
      · split
        · rw [inbox_notifyOperationComplete, inbox_setSource]
        · split
          · split
            · rw [inbox_notifyOperationComplete, inbox_setSource]
            · rw [inbox_pend _ rfl, inbox_record _ rfl, inbox_setSource]
          · rfl

theorem inbox_packetSent (σ : Engine) (h : Header) (tag : Tag) :
    (σ.packetSent h tag).inbox = σ.inbox := by
  unfold packetSent
  split <;> rfl

theorem inbox_permanentLoss (σ : Engine) (h : Header) : (σ.permanentLoss h).inbox = σ.inbox := by
  unfold permanentLoss
  split
  · split
    · exact inbox_record σ rfl
    · rfl
  · rfl

/-! ### Responding -/

theorem inbox_atomicRun (σ : Engine) (r : Responder) : (σ.atomicRun r).inbox = σ.inbox := by
  unfold atomicRun
  split <;> exact inbox_pend σ rfl

theorem inbox_runAtomic (h : σ.runAtomic r = .ok σ') : σ'.inbox = σ.inbox := by
  unfold runAtomic at h
  split at h
  · exact (inbox_stageSourcePayload rfl h).trans (inbox_of_view rfl rfl rfl)
  · cases h
    exact inbox_atomicRun σ r

theorem inbox_enqueueAtomic (σ : Engine) (r : Responder) : (σ.enqueueAtomic r).inbox = σ.inbox :=
  inbox_of_plain 0 [.queued r] (by rw [add_zero]; rfl) (by simp) rfl (by simp [Obs.receives]) rfl

theorem inbox_startResponder (h : σ.startResponder r = .ok σ') : σ'.inbox = σ.inbox := by
  unfold startResponder at h
  split at h
  · split at h
    · exact (inbox_stageSourcePayload rfl h).trans (inbox_of_view rfl rfl rfl)
    · cases h
      exact inbox_pend σ rfl
  · dsimp only at h
    split at h
    · exact (inbox_runAtomic h).trans (inbox_enqueueAtomic σ r)
    · cases h
      exact inbox_enqueueAtomic σ r

theorem inbox_pumpRespondersLoop {fuel : Nat} (h : pumpRespondersLoop fuel σ = .ok σ') :
    σ'.inbox = σ.inbox := by
  induction fuel generalizing σ with
  | zero =>
      cases h
      rfl
  | succ fuel ih =>
      unfold pumpRespondersLoop at h
      split at h
      · cases h
        rfl
      · split at h
        · obtain ⟨σ₁, hstart, hrest⟩ := bind_eq_ok.mp h
          exact (ih hrest).trans ((inbox_startResponder hstart).trans (inbox_of_view rfl rfl rfl))
        · cases h
          rfl

theorem inbox_queueResponder (hq : σ.queueResponder tag qp h = .ok σ') : σ'.inbox = σ.inbox :=
  (inbox_pumpRespondersLoop hq).trans
    (inbox_of_plain 0 [.arrived ⟨σ.nextResponder, tag, qp, h.flowId, h.virtualChannel, h⟩]
      (by rw [add_zero]; rfl) (by simp) rfl (by simp [Obs.receives]) rfl)

theorem inbox_finishResponder {key : Key} (h : σ.finishResponder key = .ok σ') :
    σ'.inbox = σ.inbox := by
  unfold finishResponder at h
  split at h
  · cases h
    rfl
  · obtain ⟨σ₁, hunstage, hpump⟩ := bind_eq_ok.mp h
    have hunstaged : σ₁.inbox = σ.inbox := by
      unfold unstageResponder at hunstage
      split at hunstage
      · exact inbox_releaseSourceStaging hunstage
      · cases hunstage
        rfl
    exact (inbox_pumpRespondersLoop hpump).trans (Eq.trans (inbox_of_view rfl rfl rfl) hunstaged)

theorem inbox_advanceAtomic (h : σ.advanceAtomic address = .ok σ') : σ'.inbox = σ.inbox := by
  unfold advanceAtomic at h
  split at h
  · cases h
  · dsimp only at h
    split at h
    · cases h
      exact inbox_of_view rfl rfl rfl
    · exact (inbox_runAtomic h).trans (inbox_of_view rfl rfl rfl)

theorem inbox_answerAtomic (h : σ.answerAtomic r old = .ok σ') : σ'.inbox = σ.inbox := by
  unfold answerAtomic at h
  split at h
  · exact (inbox_finishResponder h).trans (inbox_acknowledge _ _ _)
  · cases h
    exact inbox_pend σ rfl

theorem inbox_commitAtomic (h : σ.commitAtomic r old next = .ok σ') : σ'.inbox = σ.inbox := by
  obtain ⟨σ₁, hcommit, h⟩ := bind_eq_ok.mp h
  obtain ⟨σ₂, hanswer, hadvance⟩ := bind_eq_ok.mp h
  rw [inbox_advanceAtomic hadvance, inbox_answerAtomic hanswer, inbox_commitWord hcommit]

theorem inbox_executeAtomic (h : σ.executeAtomic r = .ok σ') : σ'.inbox = σ.inbox := by
  obtain ⟨old, -, h⟩ := bind_eq_ok.mp h
  split at h
  · exact inbox_acquireReceiveStaging rfl h
  · exact inbox_commitAtomic h

theorem inbox_responseAcknowledged {s : Sent} (h : σ.responseAcknowledged s = .ok σ') :
    σ'.inbox = σ.inbox := by
  unfold responseAcknowledged at h
  split at h
  · split at h
    · cases h
      rfl
    · dsimp only at h
      split at h
      · exact (inbox_finishResponder h).trans (inbox_of_view rfl rfl rfl)
      · cases h
        exact inbox_of_view rfl rfl rfl
  · cases h
    rfl

theorem inbox_packetAcknowledged {tag : Option Tag} (hack : σ.packetAcknowledged h tag = .ok σ')
    : σ'.inbox = σ.inbox := by
  obtain ⟨σ₁, hsettle, hrest⟩ := bind_eq_ok.mp hack
  have hsettled : σ₁.inbox = σ.inbox := by
    unfold settleSent at hsettle
    split at hsettle
    · cases hsettle
      rfl
    · exact (inbox_responseAcknowledged hsettle).trans (inbox_of_view rfl rfl rfl)
  cases tag with
  | none =>
      cases hrest
      exact hsettled
  | some tag =>
      cases hrest
      exact (inbox_sourceAcknowledged _ _).trans hsettled

theorem inbox_completeSource {n : Incoming} (h : σ.completeSource n = .ok σ') :
    σ'.inbox = σ.inbox := by
  unfold completeSource at h
  split at h
  · cases h
    rfl
  · split at h
    · cases h
      rfl
    · split at h
      · obtain ⟨result, -, hσ⟩ := bind_eq_ok.mp h
        cases hσ
        rw [inbox_notifyOperationComplete, inbox_setSource]
      · cases h
        rw [inbox_notifyOperationComplete, inbox_setSource]

/-! ## What changes it -/

theorem inbox_pend_receives (σ : Engine) (hk : k.receives = true) :
    (σ.pend k).inbox = { σ.inbox with work := σ.inbox.work + {k} } := by
  have hfilter : ({k} : Multiset Cont).filter (fun k => k.receives = true) = {k} :=
    Multiset.filter_eq_self.mpr (by simpa using hk)
  simp only [inbox, owed_pend, Multiset.filter_add, hfilter]
  rfl

theorem inbox_record_receives (σ : Engine) (he : e.receives = true) :
    (σ.record e).inbox = { σ.inbox with log := σ.inbox.log ++ [e] } := by
  simp only [inbox, record_log, List.filter_append, List.filter_singleton, he, cond_true]
  rfl

theorem inbox_acquire_receives (hk : k.receives = true)
    (h : σ.acquireReceiveStaging bytes k = .ok σ') :
    σ'.inbox = { σ.inbox with work := σ.inbox.work + {k} } := by
  obtain ⟨⟨p, s, r, rfl⟩, howed⟩ := acquireReceiveStaging_ok h
  have hfilter : ({k} : Multiset Cont).filter (fun k => k.receives = true) = {k} :=
    Multiset.filter_eq_self.mpr (by simpa using hk)
  simp only [inbox, howed, Multiset.filter_add, hfilter]

theorem inbox_pop (h : σ.pending[i]? = some k) (hk : k.receives = false) :
    ({ σ with pending := σ.pending.eraseIdx i } : Engine).inbox = σ.inbox := by
  have howed := owed_pop h
  have hfilter : ({k} : Multiset Cont).filter (fun k => k.receives = true) = 0 :=
    Multiset.filter_eq_nil.mpr (by simpa using hk)
  simp only [inbox, ← howed, Multiset.filter_add, hfilter, add_zero]

theorem inbox_pop_receives (h : σ.pending[i]? = some k) (hk : k.receives = true) :
    σ.inbox.work =
      ({ σ with pending := σ.pending.eraseIdx i } : Engine).inbox.work + {k} := by
  have howed := owed_pop h
  have hfilter : ({k} : Multiset Cont).filter (fun k => k.receives = true) = {k} :=
    Multiset.filter_eq_self.mpr (by simpa using hk)
  simp only [inbox, ← howed, Multiset.filter_add, hfilter]

end Engine

/-! ## The steps of the receiving side -/

/-- The bytes an event adds to a work request. -/
def Obs.bytesFor (key : Key) : Obs → Nat
  | .accepted k p => if k = key then p.header.effectiveDataSize else 0
  | _ => 0

/-- An accepted fragment of the same work request names the same size. -/
def Obs.agrees (tag : Tag) : Obs → Bool
  | .accepted k p => k ≠ tag.key || p.tag.bytes == tag.bytes
  | _ => true

/-- The bytes accepted for a work request. -/
def acceptedBytes (log : List Obs) (key : Key) : Nat := (log.map (Obs.bytesFor key)).sum

/-- The fragment brings something new: it is not empty, and what was accepted of its work
request leaves room for it. Fragments of one transfer delivered once each are like that. -/
structure IsNew (log : List Obs) (p : Piece) : Prop where
  nonempty : 0 < p.header.effectiveDataSize
  sameWork : ∀ e ∈ log, e.agrees p.tag = true
  fits : acceptedBytes log p.tag.key + p.header.effectiveDataSize ≤ p.tag.bytes

instance (log : List Obs) (p : Piece) : Decidable (IsNew log p) :=
  decidable_of_iff (0 < p.header.effectiveDataSize ∧ (∀ e ∈ log, e.agrees p.tag = true) ∧
      acceptedBytes log p.tag.key + p.header.effectiveDataSize ≤ p.tag.bytes)
    ⟨fun h => ⟨h.1, h.2.1, h.2.2⟩, fun h => ⟨h.nonempty, h.sameWork, h.fits⟩⟩

/-- The closure that reports the receive of a finished request. -/
def Incoming.finishing (n : Incoming) : Multiset Cont :=
  if n.response then 0
  else
    match n.receive with
    | none => 0
    | some r => {.completeReceive r (Engine.receiveCompletion n r)}

namespace Inbox

/-- A request is over: its entry goes, and its receive is reported. -/
@[simps]
def complete (v : Inbox) (key : Key) (i : Nat) : Inbox :=
  { v with incoming := v.incoming.erase key, work := v.work + (v.obj i).finishing }

/-- Replace one request being received. -/
@[simps]
def setObj (v : Inbox) (i : Nat) (n : Incoming) : Inbox :=
  { v with obj := Function.update v.obj i n }

/-- The receive, if any, that a first fragment takes from the queue. -/
inductive Taken (v : Inbox) (key : Key) : Option PostedReceive → Inbox → Prop
  | none : Taken v key none v
  | some {r : PostedReceive} {queued : List PostedReceive} : (queued : Multiset PostedReceive) + {r} = v.queued →
      Taken v key (some r)
        { v with queued := queued, reserved := v.reserved - 1, log := v.log ++ [.taken key r] }

/-- Everything that can happen on the receiving side. -/
inductive Micro (v : Inbox) : Inbox → Prop
  | register {key : Nat} {region : Region} : region.bytes ≤ u64Max →
      Micro v { v with regions := v.regions ++ [(key, region)] }
  | unregister (key : Nat) : Micro v { v with regions := v.regions.filter fun kr => kr.1 ≠ key }
  | post {r : PostedReceive} : r.serial = v.posted →
      Micro v { v with
        posted := v.posted + 1, reserved := v.reserved + 1, work := v.work + {.enqueueReceive r} }
  | postLate {r : PostedReceive} (c : ReceiveCompletion) : r.serial = v.posted →
      Micro v { v with posted := v.posted + 1, log := v.log ++ [.received r c] }
  | enqueue {r : PostedReceive} {rest : Multiset Cont} : v.work = rest + {.enqueueReceive r} →
      Micro v { v with work := rest, queued := v.queued ++ [r] }
  | report {r : PostedReceive} {c : ReceiveCompletion} {rest : Multiset Cont} :
      v.work = rest + {.completeReceive r c} →
      Micro v { v with work := rest, log := v.log ++ [.received r c] }
  | reject (p : Piece) : v.incoming.lookup p.tag.key = none →
      Micro v { v with
        rejected := Function.update v.rejected p.tag.key (some p.tag.attempt)
        log := v.log ++ [.rejected p.tag.key p.tag.attempt] }
  | fail {p : Piece} {receive : Option PostedReceive} {v₁ : Inbox} (c : ReceiveCompletion) :
      Taken v p.tag.key receive v₁ → v.incoming.lookup p.tag.key = none →
      v.failed p.tag.key = false → IsNew v.log p →
      Micro v { v₁ with
        failed := Function.update v₁.failed p.tag.key true
        work := v₁.work + (receive.map fun r => Cont.completeReceive r c).toList }
  | open {p : Piece} {receive : Option PostedReceive} {v₁ : Inbox} {n : Incoming} {first : Cont} :
      Taken v p.tag.key receive v₁ → v.incoming.lookup p.tag.key = none →
      v.failed p.tag.key = false → IsNew v.log p →
      (∃ kr ∈ v.regions, p.tag.bytes ≤ kr.2.bytes) → n.tag = p.tag → n.receive = receive →
      (n.response = true → receive = none) → n.received = 0 →
      (first = .destinationWritten p.tag.key v.next p ∧ n.waiting = [] ∨
        first = .allocated p.tag.key v.next ∧ n.waiting = [p]) →
      Micro v { v₁ with
        incoming := v₁.incoming.insert p.tag.key v.next
        obj := Function.update v₁.obj v.next n
        next := v.next + 1
        work := v₁.work + {first}
        log := v₁.log ++ [.accepted p.tag.key p] }
  | acceptNow {p : Piece} {i : Nat} : v.incoming.lookup p.tag.key = some i → IsNew v.log p →
      Micro v { v with
        work := v.work + {.destinationWritten p.tag.key i p}
        log := v.log ++ [.accepted p.tag.key p] }
  | acceptLater {p : Piece} {i : Nat} : v.incoming.lookup p.tag.key = some i → IsNew v.log p →
      Micro v { (v.setObj i { v.obj i with waiting := (v.obj i).waiting ++ [p] }) with
        log := v.log ++ [.accepted p.tag.key p] }
  | allocate {key : Key} {i : Nat} {rest : Multiset Cont} : v.work = rest + {.allocated key i} →
      Micro v { (v.setObj i { v.obj i with allocated := true, waiting := [] }) with
        work := rest + ((v.obj i).waiting.map (.destinationWritten key i) : List Cont) }
  | landMore {key : Key} {i : Nat} {p : Piece} {rest : Multiset Cont} (staged : List Piece) :
      v.work = rest + {.destinationWritten key i p} →
      ((v.obj i).received + p.header.effectiveDataSize) % 2 ^ 64 < (v.obj i).tag.bytes →
      Micro v { (v.setObj i { v.obj i with
          received := ((v.obj i).received + p.header.effectiveDataSize) % 2 ^ 64
          staged := staged }) with work := rest }
  | landCopy {key : Key} {i : Nat} {p : Piece} {rest : Multiset Cont} (staged : List Piece) :
      v.work = rest + {.destinationWritten key i p} →
      ((v.obj i).received + p.header.effectiveDataSize) % 2 ^ 64 = (v.obj i).tag.bytes →
      Micro v { (v.setObj i { v.obj i with
          received := ((v.obj i).received + p.header.effectiveDataSize) % 2 ^ 64
          staged := staged }) with work := rest + {.destinationCopied key i p} }
  | landDone {key : Key} {i : Nat} {p : Piece} {rest : Multiset Cont} (staged : List Piece) :
      v.work = rest + {.destinationWritten key i p} →
      ((v.obj i).received + p.header.effectiveDataSize) % 2 ^ 64 = (v.obj i).tag.bytes →
      Micro v (complete { (v.setObj i { v.obj i with
          received := ((v.obj i).received + p.header.effectiveDataSize) % 2 ^ 64
          staged := staged }) with work := rest } key i)
  | copied {key : Key} {i : Nat} {p : Piece} {rest : Multiset Cont} :
      v.work = rest + {.destinationCopied key i p} → Micro v (complete { v with work := rest } key i)

end Inbox

variable {v v' : Inbox} {key : Key} {receive : Option PostedReceive}

theorem Inbox.Taken.next_eq (h : v.Taken key receive v') : v'.next = v.next := by
  cases h <;> rfl

theorem Inbox.Taken.regions_eq (h : v.Taken key receive v') : v'.regions = v.regions := by
  cases h <;> rfl

theorem acceptedBytes_filter (log : List Obs) (key : Key) :
    acceptedBytes (log.filter Obs.receives) key = acceptedBytes log key := by
  apply sum_filter_of_zero
  intro e _ he
  cases e <;> first | rfl | cases he

theorem isNew_filter {log : List Obs} {p : Piece} :
    IsNew (log.filter Obs.receives) p ↔ IsNew log p := by
  constructor
  · rintro ⟨hpos, hsame, hfits⟩
    refine ⟨hpos, fun e he => ?_, acceptedBytes_filter log _ ▸ hfits⟩
    by_cases hr : e.receives = true
    · exact hsame e (List.mem_filter.mpr ⟨he, hr⟩)
    · cases e <;> first | rfl | exact absurd rfl hr
  · rintro ⟨hpos, hsame, hfits⟩
    refine ⟨hpos, fun e he => hsame e (List.mem_of_mem_filter he), ?_⟩
    rw [acceptedBytes_filter]
    exact hfits

/-! ## Every action is a chain of them -/

namespace Engine

open Inbox (Micro Taken)

variable {σ σ' : Engine} {k : Cont}

/-- The fragment is answered without being accepted: nobody waits for the response, the work
request has failed, the attempt was rejected, or a later attempt is being received. -/
def turnsAway (σ : Engine) (tag : Tag) : Bool :=
  (tag.isResponse && (σ.sources.lookup tag.workId).isNone) || σ.failedIncoming tag.key ||
    σ.wasRejected tag ||
    (σ.incoming.lookup tag.key).any fun i => tag.attempt < (σ.incomingObj i).tag.attempt

/-- The fragment would take a posted receive only to drop it: it is the first one of a
WRITE_IMM whose target address wraps. -/
def losesReceive (σ : Engine) (p : Piece) (qp : Nat) : Prop :=
  σ.incoming.lookup p.tag.key = none ∧ p.tag.isResponse = false ∧ p.tag.opcode = .writeImm ∧
    (σ.matchReceive p.header.sourceRank qp).isSome = true ∧
    u64Max - p.tag.remoteAddress < p.tag.offset

instance (σ : Engine) (p : Piece) (qp : Nat) : Decidable (σ.losesReceive p qp) :=
  inferInstanceAs (Decidable (_ ∧ _ ∧ _ ∧ _ ∧ _))

/-- Fragments that are not turned away are new parts of their transfers, and none of them
loses a receive. -/
def KeepsReceives (σ : Engine) : Act → Prop
  | .receive p qp => p.tag.phase ≠ .request → σ.turnsAway p.tag = false →
      IsNew σ.log p ∧ ¬ σ.losesReceive p qp
  | _ => True

instance (σ : Engine) : (a : Act) → Decidable (σ.KeepsReceives a)
  | .receive p qp =>
      inferInstanceAs (Decidable (p.tag.phase ≠ .request → σ.turnsAway p.tag = false →
        IsNew σ.log p ∧ ¬ σ.losesReceive p qp))
  | .registerMemory .. | .unregisterMemory _ | .writeMemory .. | .waitSignal ..
  | .cancelSignalWait _ | .postReceive .. | .execute .. | .packetSent ..
  | .packetAcknowledged .. | .permanentLoss _ | .completeRequest _ | .stageSource _
  | .releaseSource _ | .acquireReceive _ | .releaseReceive _ | .fire _ => .isTrue trivial

variable {address bytes i qp : Nat} {key : Key} {p : Piece} {v : Inbox}

theorem registerMemory_micro {key : Nat} (h : σ.registerMemory address bytes key = .ok σ')
    : Micro σ.inbox σ'.inbox := by
  unfold registerMemory at h
  split at h
  · cases h
  · rename_i hok
    cases h
    refine @Micro.register _ key ⟨address, bytes⟩ ?_
    show bytes ≤ u64Max
    have : ¬ bytes > u64Max - address := fun hb => hok (.inr (.inr (.inl hb)))
    omega

theorem unregisterMemory_micro {key : Nat} (h : σ.unregisterMemory key = .ok σ') :
    Micro σ.inbox σ'.inbox := by
  unfold unregisterMemory at h
  split at h
  · cases h
  · cases h
    exact Micro.unregister key

variable {peer : Nat} {ps : List Piece}

theorem postReceive_micro {id key : Nat} {armed : Bool}
    (h : σ.postReceive id address bytes peer qp key armed = .ok σ') : Micro σ.inbox σ'.inbox := by
  unfold postReceive at h
  split at h
  · cases h
  · split at h
    · cases h
    · split at h
      · cases h
      · dsimp only at h
        split at h
        · cases h
          rw [inbox_pend_receives _ rfl]
          exact Micro.post rfl
        · cases h
          rw [inbox_record_receives _ rfl]
          exact Micro.postLate _ rfl

theorem startPiece_ok (h : σ.startPiece key i p = .ok σ') :
    σ' = σ.pend (.destinationWritten key i p) := by
  unfold startPiece at h
  dsimp only at h
  split at h
  · cases h
  · cases h
    rfl

theorem acceptPiece_inbox (h : σ.acceptPiece key i p = .ok σ') :
    σ'.inbox = if (σ.incomingObj i).allocated then
      { σ.inbox with
        work := σ.inbox.work + {.destinationWritten key i p}
        log := σ.inbox.log ++ [.accepted key p] }
    else
      { (σ.inbox.setObj i { σ.inbox.obj i with waiting := (σ.inbox.obj i).waiting ++ [p] }) with
        log := σ.inbox.log ++ [.accepted key p] } := by
  have hheld : ((σ.record (.held p.header)).record (.accepted key p)).inbox =
      { σ.inbox with log := σ.inbox.log ++ [.accepted key p] } := by
    rw [inbox_record_receives _ rfl, inbox_record _ rfl]
  have hlater : ∀ τ : Engine, (τ.modIncoming i fun n => { n with waiting := n.waiting ++ [p] }).inbox =
      τ.inbox.setObj i { τ.inbox.obj i with waiting := (τ.inbox.obj i).waiting ++ [p] } :=
    fun _ => rfl
  unfold acceptPiece at h
  by_cases halloc : (σ.incomingObj i).allocated = true
  · rw [if_pos halloc]
    replace h := (if_pos halloc).symm.trans h
    cases startPiece_ok h
    rw [inbox_pend_receives _ rfl, hheld]
  · rw [if_neg halloc]
    replace h := (if_neg halloc).symm.trans h
    cases h
    rw [hlater, hheld]
    rfl

theorem acceptPiece_micro (hlook : σ.incoming.lookup p.tag.key = some i)
    (hnew : IsNew σ.inbox.log p) (h : σ.acceptPiece p.tag.key i p = .ok σ') :
    Micro σ.inbox σ'.inbox := by
  rw [acceptPiece_inbox h]
  split
  · exact Micro.acceptNow hlook hnew
  · exact Micro.acceptLater hlook hnew

theorem inRegion_bytes {key : Nat} (h : σ.inRegion key address bytes = true) :
    ∃ kr ∈ σ.regions, bytes ≤ kr.2.bytes := by
  unfold inRegion at h
  split at h
  · cases h
  · rename_i r hr
    simp only [Bool.and_eq_true, decide_eq_true_eq] at h
    obtain ⟨l₁, l₂, hregions, -⟩ := List.lookup_eq_some_iff.mp hr
    refine ⟨(key, r), ?_, by show bytes ≤ r.bytes; omega⟩
    rw [hregions]
    simp

theorem inbox_insertIncoming (σ : Engine) (key : Key) (n : Incoming) :
    (σ.insertIncoming key n).inbox =
      { σ.inbox with
        incoming := σ.inbox.incoming.insert key σ.nextIncoming
        obj := Function.update σ.inbox.obj σ.nextIncoming n
        next := σ.nextIncoming + 1 } := rfl

/-- What the first fragment of a request does, `v` being the inbox before it took its
receive. -/
theorem openIncoming_micro {receive : Option PostedReceive}
    (htaken : Taken v p.tag.key receive σ.inbox) (hlook : v.incoming.lookup p.tag.key = none)
    (hfailed : v.failed p.tag.key = false) (hnew : IsNew v.log p)
    (htarget : receive = none ∨ targetAddress p.tag receive ≠ none)
    (hresponse : p.tag.isResponse = true → receive = none)
    (h : σ.openIncoming p qp receive = .ok σ') : ReflTransGen Micro v σ'.inbox := by
  unfold openIncoming at h
  dsimp only at h
  split at h
  · rename_i hnone
    cases h
    rcases htarget with rfl | htarget
    · cases htaken
      rw [inbox_acknowledge]
    · exact absurd hnone htarget
  · rename_i address _
    split at h
    · cases h
      -- the target check failed: the receive, if there is one, is handed back as failed
      cases receive with
      | none =>
          have hfail := Micro.fail (v := v) {} htaken hlook hfailed hnew
          refine .single ?_
          rw [failReceive, inbox_acknowledge]
          simp only [Option.map_none, Option.toList_none, Multiset.coe_nil, add_zero] at hfail
          exact hfail
      | some r =>
          refine .single ?_
          rw [failReceive, inbox_pend_receives _ rfl, inbox_acknowledge]
          exact Micro.fail (v := v) _ htaken hlook hfailed hnew
    · rename_i hvalid
      have hregion : ∃ kr ∈ v.regions, p.tag.bytes ≤ kr.2.bytes := by
        simp only [Bool.not_eq_false, Bool.and_eq_true] at hvalid
        rw [← htaken.regions_eq]
        exact inRegion_bytes hvalid.2
      have hnext : v.next = σ.nextIncoming := htaken.next_eq.symm
      split at h
      -- staged: the fragment waits for the staging space
      · rename_i hstaged
        obtain ⟨σ₁, hacq, hacc⟩ := bind_eq_ok.mp h
        have hopen := Micro.open (v := v) (n :=
          { tag := p.tag, qp, address, response := p.tag.isResponse, receive
            allocated := !(σ.config.dataPath == .staged), waiting := [p] })
          htaken hlook hfailed hnew hregion rfl rfl hresponse rfl (.inr ⟨rfl, rfl⟩)
        have hobj : σ₁.incomingObj = Function.update σ.incomingObj σ.nextIncoming
            { tag := p.tag, qp, address, response := p.tag.isResponse, receive
              allocated := !(σ.config.dataPath == .staged) } := by
          obtain ⟨⟨_, _, _, rfl⟩, -⟩ := acquireReceiveStaging_ok hacq
          rfl
        refine .single ?_
        rw [acceptPiece_inbox hacc, hobj, if_neg (by simp [hstaged]),
          inbox_acquire_receives (by rfl) hacq, inbox_insertIncoming]
        rw [hnext] at hopen
        simpa [Inbox.setObj] using hopen
      · rename_i hstaged
        have hopen := Micro.open (v := v) (n :=
          { tag := p.tag, qp, address, response := p.tag.isResponse, receive
            allocated := !(σ.config.dataPath == .staged) })
          htaken hlook hfailed hnew hregion rfl rfl hresponse rfl (.inl ⟨rfl, rfl⟩)
        refine .single ?_
        rw [acceptPiece_inbox h, if_pos (by simp [hstaged])]
        rw [hnext] at hopen
        exact hopen

theorem matchReceive_ok {r : PostedReceive} (h : σ.matchReceive peer qp = some (r, σ')) :
    ∃ queued : List PostedReceive, (queued : Multiset PostedReceive) + {r} = σ.receives ∧
      σ' = { σ with receives := queued, receiveReserved := σ.receiveReserved - 1 } := by
  unfold matchReceive at h
  split at h
  · cases h
  · rename_i found hfound
    cases h
    obtain ⟨hp, before, after, hsplit, hbefore⟩ := List.find?_eq_some_iff_append.mp hfound
    refine ⟨before ++ after, ?_, ?_⟩
    · rw [hsplit, ← Multiset.coe_singleton, Multiset.coe_add]
      exact Multiset.coe_eq_coe.mpr (by
        rw [List.append_assoc]
        exact (List.perm_append_singleton _ _).append_left _)
    · rw [hsplit, List.eraseP_append_right _ (by simpa using hbefore), List.eraseP_cons_of_pos hp]

theorem acceptData_micro (hC : σ.turnsAway p.tag = false → IsNew σ.log p ∧ ¬ σ.losesReceive p qp)
    (h : σ.acceptData p qp = .ok σ') : ReflTransGen Micro σ.inbox σ'.inbox := by
  unfold acceptData at h
  dsimp only at h
  split at h
  · cases h
    rw [inbox_acknowledge]
  · rename_i hwanted
    split at h
    · cases h
      rw [inbox_acknowledge]
    · rename_i hfailed
      have hfailed : σ.failedIncoming p.tag.key = false := by simpa using hfailed
      split at h
      · cases h
        rw [inbox_acknowledge]
      · rename_i hrejected
        -- from here on the fragment is turned away only if a later attempt is being received
        have hkeeps : (σ.incoming.lookup p.tag.key).any
            (fun i => p.tag.attempt < (σ.incomingObj i).tag.attempt) = false →
            IsNew σ.inbox.log p ∧ ¬ σ.losesReceive p qp := by
          intro hlate
          obtain ⟨hnew, hloses⟩ := hC (by
            rw [turnsAway, hlate, hfailed]
            simp only [Bool.not_eq_true] at hwanted hrejected
            rw [hwanted, hrejected]
            rfl)
          exact ⟨isNew_filter.mpr hnew, hloses⟩
        split at h
        · rename_i i hlook
          split at h
          · cases h
            rw [inbox_acknowledge]
          · rename_i hattempt
            exact .single (acceptPiece_micro hlook (hkeeps (by simpa [hlook] using hattempt)).1 h)
        · rename_i hlook
          obtain ⟨hnew, hloses⟩ := hkeeps (by rw [hlook]; rfl)
          split at h
          · rename_i hneeds
            simp only [Bool.and_eq_true, Bool.not_eq_eq_eq_not, Bool.not_true] at hneeds
            split at h
            · cases h
              rw [rejectAttempt, inbox_acknowledge, inbox_record_receives _ rfl]
              exact .single (Micro.reject p hlook)
            · rename_i r σ₁ hmatch
              obtain ⟨queued, hqueued, rfl⟩ := matchReceive_ok hmatch
              refine openIncoming_micro (v := σ.inbox) ?_ hlook hfailed hnew ?_ ?_ h
              · rw [inbox_record_receives _ rfl]
                exact Taken.some hqueued
              · -- only a WRITE_IMM has an address that can wrap, and this one does not
                refine .inr fun hwraps => hloses ⟨hlook, hneeds.1, ?_⟩
                cases hop : p.tag.opcode <;> rw [hop] at hneeds <;>
                  simp only [Opcode.needsReceive, Bool.false_eq_true, and_false] at hneeds <;>
                  simp [targetAddress, hneeds.1, hop, Opcode.isSend, hmatch] at hwraps ⊢
                exact hwraps
              · intro hresp
                rw [hneeds.1] at hresp
                cases hresp
          · exact openIncoming_micro (v := σ.inbox) .none hlook hfailed hnew (.inl rfl)
              (fun _ => rfl) h

theorem startPieces_ok (h : ps.foldlM (fun σ p => σ.startPiece key i p) σ = .ok σ') :
    σ' = { σ with pending := σ.pending ++ ps.map (.destinationWritten key i) } := by
  induction ps generalizing σ with
  | nil =>
      cases h
      simp
  | cons p ps ih =>
      rw [List.foldlM_cons] at h
      obtain ⟨σ₁, hp, hrest⟩ := bind_eq_ok.mp h
      rw [ih hrest, startPiece_ok hp]
      simp [pend]

theorem inbox_append_receives (σ : Engine) {ks : List Cont} (hks : ∀ k ∈ ks, k.receives = true) :
    ({ σ with pending := σ.pending ++ ks } : Engine).inbox =
      { σ.inbox with work := σ.inbox.work + ks } := by
  have hfilter : (ks : Multiset Cont).filter (fun k => k.receives = true) = ks :=
    Multiset.filter_eq_self.mpr (by simpa using hks)
  simp only [inbox, owed_append, Multiset.filter_add, hfilter]

theorem stagingAllocated_micro (hv : v = { σ.inbox with work := σ.inbox.work + {.allocated key i} })
    (h : σ.stagingAllocated key i = .ok σ') : Micro v σ'.inbox := by
  rw [startPieces_ok h, inbox_append_receives _ (by
    intro k hk
    obtain ⟨p, -, rfl⟩ := List.mem_map.mp hk
    rfl)]
  rw [hv]
  exact Micro.allocate (v := { σ.inbox with work := σ.inbox.work + {.allocated key i} }) rfl

theorem completeIncoming_inbox (h : σ.completeIncoming key i p = .ok σ')
    : σ'.inbox = σ.inbox.complete key i := by
  unfold completeIncoming at h
  dsimp only at h
  split at h
  · rename_i hresponse
    obtain ⟨σ₁, hsrc, hσ⟩ := bind_eq_ok.mp h
    cases hσ
    rw [inbox_acknowledge, inbox_completeSource hsrc]
    simp only [Inbox.complete, inbox, Incoming.finishing, hresponse, ↓reduceIte, add_zero]
    rfl
  · rename_i hresponse
    cases h
    have hnone : (σ.incomingObj i).response = false := by simpa using hresponse
    unfold finishReceive
    cases hrec : (σ.incomingObj i).receive with
    | none =>
        have hfinish : (σ.inbox.obj i).finishing = 0 := by
          simp [inbox, Incoming.finishing, hnone, hrec]
        simp only [inbox_acknowledge, Inbox.complete, hfinish, add_zero]
        rfl
    | some r =>
        have hfinish : (σ.inbox.obj i).finishing =
            {.completeReceive r (receiveCompletion (σ.incomingObj i) r)} := by
          simp [inbox, Incoming.finishing, hnone, hrec]
        dsimp only
        rw [inbox_pend_receives _ (by rfl), inbox_acknowledge, Inbox.complete, hfinish]
        rfl

theorem landPiece_inbox (h : σ.landPiece i p = .ok σ') :
    ∃ staged, σ'.inbox = σ.inbox.setObj i { σ.inbox.obj i with staged := staged } := by
  unfold landPiece at h
  split at h
  · cases h
    exact ⟨_, rfl⟩
  · refine ⟨(σ.inbox.obj i).staged, ?_⟩
    rw [inbox_store h, Inbox.setObj]
    simp

theorem destinationWritten_micro
    (hv : v = { σ.inbox with work := σ.inbox.work + {.destinationWritten key i p} })
    (h : σ.destinationWritten key i p = .ok σ') : Micro v σ'.inbox := by
  obtain ⟨σ₁, hland, h⟩ := bind_eq_ok.mp h
  obtain ⟨staged, hinbox⟩ := landPiece_inbox hland
  -- the engine after the ledger grew
  have hledger : ∀ τ : Engine, (τ.modIncoming i fun n =>
      { n with received := (n.received + p.header.effectiveDataSize) % 2 ^ 64 }).inbox =
      τ.inbox.setObj i { τ.inbox.obj i with
        received := ((τ.inbox.obj i).received + p.header.effectiveDataSize) % 2 ^ 64 } := fun _ => rfl
  have hgrown : (σ₁.modIncoming i fun n =>
      { n with received := (n.received + p.header.effectiveDataSize) % 2 ^ 64 }).inbox =
      { (v.setObj i { v.obj i with
          received := ((v.obj i).received + p.header.effectiveDataSize) % 2 ^ 64
          staged := staged }) with work := σ.inbox.work } := by
    rw [hledger, hinbox, hv]
    simp [Inbox.setObj]
  have hbytes : ((σ₁.modIncoming i fun n =>
      { n with received := (n.received + p.header.effectiveDataSize) % 2 ^ 64 }).incomingObj i) =
      { v.obj i with
        received := ((v.obj i).received + p.header.effectiveDataSize) % 2 ^ 64, staged := staged } := by
    have hobj := congrArg (fun w => w.obj i) hgrown
    simpa [inbox, Inbox.setObj] using hobj
  have hwork : v.work = σ.inbox.work + {.destinationWritten key i p} := by rw [hv]
  dsimp only at h
  split at h
  · cases h
  · rename_i hover
    split at h
    · rename_i hmore
      cases h
      rw [inbox_acknowledge, hgrown]
      rw [hbytes] at hmore
      exact Micro.landMore staged hwork hmore
    · rename_i hfull
      rw [hbytes] at hover hfull
      have heq : ((v.obj i).received + p.header.effectiveDataSize) % 2 ^ 64 = (v.obj i).tag.bytes := by
        dsimp only at hover hfull
        omega
      split at h
      · cases h
        rw [inbox_pend_receives _ rfl, hgrown]
        exact Micro.landCopy staged hwork heq
      · rw [completeIncoming_inbox h, hgrown]
        exact Micro.landDone staged hwork heq

theorem inbox_storePieces (h : ps.foldlM (fun σ q => σ.storePiece address q) σ = .ok σ')
    : σ'.inbox = σ.inbox := by
  induction ps generalizing σ with
  | nil =>
      cases h
      rfl
  | cons p ps ih =>
      rw [List.foldlM_cons] at h
      obtain ⟨σ₁, hp, hrest⟩ := bind_eq_ok.mp h
      exact (ih hrest).trans (inbox_store hp)

theorem destinationCopied_micro
    (hv : v = { σ.inbox with work := σ.inbox.work + {.destinationCopied key i p} })
    (h : σ.destinationCopied key i p = .ok σ') : Micro v σ'.inbox := by
  obtain ⟨σ₁, hstore, h⟩ := bind_eq_ok.mp h
  obtain ⟨σ₂, hrelease, h⟩ := bind_eq_ok.mp h
  rw [completeIncoming_inbox h, inbox_releaseReceiveStaging hrelease, inbox_storePieces hstore]
  rw [hv]
  exact Micro.copied (v := { σ.inbox with work := σ.inbox.work + {.destinationCopied key i p} }) rfl

theorem run_micro (hk : k.receives = true) (hv : v = { σ.inbox with work := σ.inbox.work + {k} })
    (h : σ.run k = .ok σ') : Micro v σ'.inbox := by
  cases k with
  | enqueueReceive r =>
      cases h
      rw [hv]
      exact Micro.enqueue (v := { σ.inbox with work := σ.inbox.work + {.enqueueReceive r} }) rfl
  | completeReceive r c =>
      cases h
      rw [inbox_record_receives _ rfl, hv]
      exact Micro.report (v := { σ.inbox with work := σ.inbox.work + {.completeReceive r c} }) rfl
  | allocated key i => exact stagingAllocated_micro hv h
  | destinationWritten key i p => exact destinationWritten_micro hv h
  | destinationCopied key i p => exact destinationCopied_micro hv h
  | _ => cases hk

theorem inbox_run (hk : k.receives = false) (h : σ.run k = .ok σ') : σ'.inbox = σ.inbox := by
  cases k with
  | enqueueReceive _ | completeReceive _ _ | allocated _ _ | destinationWritten _ _ _
  | destinationCopied _ _ _ => cases hk
  | retry id => exact inbox_retry h
  | transmit t =>
      cases h
      exact inbox_record σ rfl
  | readStaged r | atomicRead r | atomicServed r | atomicAcquired r old next =>
      cases h
      exact inbox_pend σ rfl
  | readServed r => exact inbox_sendPayload h
  | atomicStaged r =>
      cases h
      exact inbox_atomicRun σ r
  | atomicExecute r => exact inbox_executeAtomic h
  | atomicCopied r old next =>
      obtain ⟨σ₁, hrelease, hcommit⟩ := bind_eq_ok.mp h
      exact (inbox_commitAtomic hcommit).trans (inbox_releaseReceiveStaging hrelease)
  | signalled w value =>
      cases h
      exact inbox_record σ rfl
  | foreign =>
      cases h
      rfl

theorem receive_micro (hC : σ.KeepsReceives (.receive p qp)) (h : σ.receive p qp = .ok σ')
    : ReflTransGen Micro σ.inbox σ'.inbox := by
  unfold receive at h
  split at h
  · split at h
    · cases h
      rw [inbox_acknowledge]
    · split at h
      · rw [inbox_queueResponder h, inbox_record _ rfl]
      · rw [inbox_queueResponder h, inbox_acknowledge]
  · rename_i hphase
    exact acceptData_micro (hC hphase) h

theorem exec_micro {a : Act} (hC : σ.KeepsReceives a) (h : σ.exec a = .ok σ') :
    ReflTransGen Micro σ.inbox σ'.inbox := by
  -- most actions leave this side alone
  have hsame : σ'.inbox = σ.inbox → ReflTransGen Micro σ.inbox σ'.inbox := fun heq => by rw [heq]
  cases a with
  | registerMemory address bytes key => exact .single (registerMemory_micro h)
  | unregisterMemory key => exact .single (unregisterMemory_micro h)
  | writeMemory address data => exact hsame (inbox_writeMemory h)
  | waitSignal address c value => exact hsame (inbox_waitSignal h)
  | cancelSignalWait id =>
      cases h
      exact hsame rfl
  | postReceive id address bytes peer qp key armed => exact .single (postReceive_micro h)
  | execute request timing succeeded => exact hsame (inbox_execute h)
  | completeRequest requestId =>
      cases h
      exact hsame rfl
  | packetSent hd tag =>
      cases h
      exact hsame (inbox_packetSent _ _ _)
  | packetAcknowledged hd tag => exact hsame (inbox_packetAcknowledged h)
  | permanentLoss hd =>
      cases h
      exact hsame (inbox_permanentLoss _ _)
  | receive p qp => exact receive_micro hC h
  | stageSource bytes => exact hsame (inbox_stageSourcePayload rfl h)
  | releaseSource bytes => exact hsame (inbox_releaseSourceStaging h)
  | acquireReceive bytes => exact hsame (inbox_acquireReceiveStaging rfl h)
  | releaseReceive bytes => exact hsame (inbox_releaseReceiveStaging h)
  | fire i =>
      unfold exec at h
      dsimp only at h
      split at h
      · rename_i k hk
        cases hr : k.receives with
        | true => exact .single (run_micro hr (by rw [← inbox_pop_receives hk hr]; rfl) h)
        | false => exact hsame ((inbox_run hr h).trans (inbox_pop hk hr))
      · cases h
        exact .refl

end Engine

end ProtoBridge.Rdma
