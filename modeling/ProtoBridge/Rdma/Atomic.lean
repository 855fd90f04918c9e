import ProtoBridge.Lib.History
import ProtoBridge.Rdma.Owed

/-!
# Remote atomics are linearizable

Requests on one word queue in `m_atomics`, and only the front of a queue is being
worked on: exactly one closure carries it through staging, DMA and service, and
the queue is popped by the commit and by nothing else. `Serial` states this for
every word together with what the closures have read. From it follow the order of
execution, the value each request returns and the value of the word.
-/

namespace ProtoBridge.Rdma

open Lib
open List (append_nil)
open Multiset (coe_add coe_nil coe_singleton filterMap_add filter_add filter_singleton mem_add
  mem_singleton)

/-! ## What a word is for -/

/-- The operations on a word, as a sequential object of 64-bit values. -/
inductive WordOp
  | fetchAdd (operand : Nat)
  | compareSwap (compare operand : Nat)
  | signalSet (value : Nat)
  | signalAdd (value : Nat)
  deriving DecidableEq

/-- The value an operation leaves. -/
def WordOp.apply : WordOp → Nat → Nat
  | .fetchAdd operand, v => (v + operand) % 2 ^ 64
  | .compareSwap compare operand, v => if v = compare then operand else v
  | .signalSet value, _ => value
  | .signalAdd value, v => (v + value) % 2 ^ 64

/-- The operation a request asks for. -/
def Tag.wordOp (tag : Tag) : WordOp :=
  match tag.opcode with
  | .fetchAdd => .fetchAdd tag.operand.toNat
  | .compareSwap => .compareSwap tag.compare.toNat tag.operand.toNat
  | _ =>
      match tag.signalOp with
      | .set => .signalSet tag.signalValue.toNat
      | .add => .signalAdd tag.signalValue.toNat

theorem Responder.update_toNat (r : Responder) (old : UInt64) :
    (r.update old).toNat = r.tag.wordOp.apply old.toNat := by
  unfold Responder.update Tag.wordOp
  cases r.tag.opcode with
  | fetchAdd => exact UInt64.toNat_add _ _
  | compareSwap =>
      simp only [WordOp.apply, UInt64.toNat_inj]
      split <;> rfl
  | _ =>
      cases r.tag.signalOp with
      | set => rfl
      | add => exact UInt64.toNat_add _ _

/-! ## Reading the history -/

/-- The responder whose atomic a closure carries on. -/
def Cont.atomic? : Cont → Option Responder
  | .atomicStaged r | .atomicRead r | .atomicServed r | .atomicExecute r => some r
  | .atomicAcquired r _ _ | .atomicCopied r _ _ => some r
  | _ => none

/-- The values a closure has read and will commit. -/
def Cont.captured? : Cont → Option (Responder × UInt64 × UInt64)
  | .atomicAcquired r old next | .atomicCopied r old next => some (r, old, next)
  | _ => none

/-- The packet answers an atomic. -/
def Transmission.answers (t : Transmission) : Bool := t.tag.phase == .atomicResponse

/-- The answer a closure is about to send. -/
def Cont.answer? : Cont → Option Transmission
  | .transmit t => if t.answers then some t else none
  | _ => none

/-- The answer that was sent. -/
def Obs.answer? : Obs → Option Transmission
  | .transmitted t => if t.answers then some t else none
  | _ => none

/-- The answer an executed atomic calls for. -/
def Obs.reply? : Obs → Option Transmission
  | .executed r old _ => if r.tag.opcode = .signal then none else some (r.reply old)
  | _ => none

/-- The answer a request is owed once it is executed. -/
def Responder.answer? (r : Responder) (old : UInt64) : Option Transmission :=
  if r.tag.opcode = .signal then none else some (r.reply old)

/-- A delivered request for a word. -/
def Obs.arrived? : Obs → Option Responder
  | .arrived r => if r.tag.opcode = .read then none else some r
  | _ => none

/-- A request that joined the queue of its word. -/
def Obs.queued? : Obs → Option Responder
  | .queued r => some r
  | _ => none

/-- A request that joined the queue of a given word. -/
def Obs.queuedAt? (address : Nat) : Obs → Option Responder
  | .queued r => if r.tag.word = address then some r else none
  | _ => none

/-- A request executed on a given word, with the value it found. -/
def Obs.executedAt? (address : Nat) : Obs → Option (Responder × UInt64)
  | .executed r old _ => if r.tag.word = address then some (r, old) else none
  | _ => none

/-- The event changes the byte. -/
def Obs.touches (x : Nat) : Obs → Prop
  | .stored address bytes => address ≤ x ∧ x < address + bytes
  | _ => False

/-- A closure that has nothing to do with atomics. -/
def Cont.plain (k : Cont) : Prop := k.atomic? = none ∧ k.answer? = none

/-- An event of the queues of atomics. -/
def Obs.moves : Obs → Prop
  | .arrived _ | .queued _ | .executed _ _ _ => True
  | _ => False

/-- An event that has nothing to do with atomics. -/
def Obs.plain : Obs → Prop
  | .arrived _ | .queued _ | .executed _ _ _ => False
  | .transmitted t => t.answers = false
  | _ => True

variable {e : Obs}

theorem Obs.not_moves (h : e.plain) : ¬ e.moves := by
  cases e <;> simp_all [Obs.plain, Obs.moves]

theorem Obs.answer_eq_none (h : e.plain) : e.answer? = none := by
  cases e <;> simp_all [Obs.plain, Obs.answer?]

namespace Engine

variable {σ σ' σ'' : Engine} {k : Cont} {r : Responder}

/-- The requests for a word in the order they joined its queue. -/
def queuedAt (σ : Engine) (address : Nat) : List Responder := σ.log.filterMap (Obs.queuedAt? address)

/-- The requests executed on a word, in order, each with the value it found. -/
def executedAt (σ : Engine) (address : Nat) : List (Responder × UInt64) :=
  σ.log.filterMap (Obs.executedAt? address)

/-- The requests being worked on. -/
def running (σ : Engine) : Multiset Responder := σ.owed.filterMap Cont.atomic?

/-- The answers sent or about to be sent. -/
def answers (σ : Engine) : Multiset Transmission :=
  σ.owed.filterMap Cont.answer? + (σ.log.filterMap Obs.answer? : List Transmission)

/-- The answers the executed requests call for. -/
def replies (σ : Engine) : List Transmission := σ.log.filterMap Obs.reply?

/-- Nothing but atomics wrote to the word. -/
def OnlyAtomicsWrite (σ : Engine) (address : Nat) : Prop :=
  ∀ e ∈ σ.log, ∀ x, address ≤ x → x < address + 8 → ¬ e.touches x

/-- Sources send data or requests, never responses. -/
def Sourced (σ : Engine) : Prop := ∀ e ∈ σ.sources.entries, e.2.tag.phase = .data

/-! ## What the rest of the engine leaves alone -/

/-- The closures that carry atomics. -/
def carried (σ : Engine) : Multiset Cont := σ.owed.filter fun k => k.atomic?.isSome

/-- The fields the queues of atomics depend on. -/
def atomicFields (σ : Engine) : Config × (Nat → List Responder) × List Responder × Nat × Nat :=
  (σ.config, σ.atomics, σ.responderWaiting, σ.activeResponses, σ.nextResponder)

/-- A step that moves no atomic: it may owe other closures and store to memory. -/
structure KeepsAtomics (σ σ' : Engine) : Prop where
  fields : σ'.atomicFields = σ.atomicFields
  sourced : σ.Sourced → σ'.Sourced
  carried : σ'.carried = σ.carried
  answers : σ'.answers = σ.answers
  log : ∃ es, σ'.log = σ.log ++ es ∧ (∀ e ∈ es, ¬ e.moves) ∧
    ∀ x, (∀ e ∈ es, ¬ e.touches x) → σ'.memory x = σ.memory x

theorem KeepsAtomics.refl (σ : Engine) : KeepsAtomics σ σ :=
  ⟨rfl, id, rfl, rfl, [], by simp, by simp, fun _ _ => rfl⟩

theorem KeepsAtomics.trans (h : KeepsAtomics σ σ') (h' : KeepsAtomics σ' σ'') :
    KeepsAtomics σ σ'' := by
  obtain ⟨es, hlog, hes, hmem⟩ := h.log
  obtain ⟨es', hlog', hes', hmem'⟩ := h'.log
  refine ⟨h'.fields.trans h.fields, h'.sourced ∘ h.sourced,
    h'.carried.trans h.carried, h'.answers.trans h.answers, es ++ es', ?_, ?_, ?_⟩
  · rw [hlog', hlog, List.append_assoc]
  · intro e he
    exact (List.mem_append.mp he).elim (hes e) (hes' e)
  · intro x hx
    rw [hmem' x fun e he => hx e (List.mem_append_right _ he),
      hmem x fun e he => hx e (List.mem_append_left _ he)]

variable {ks : Multiset Cont} {ts : List Transmission} {a flow fuel vc : Nat} {ps : List Piece}
  {es : List Obs} {rest : List Responder} {header : Header} {c : Config}

theorem filterMap_append_plain (h : ∀ k ∈ ks, k.plain) :
    ks.filterMap Cont.answer? = 0 ∧ ks.filter (fun k => k.atomic?.isSome) = 0 := by
  constructor
  · refine Multiset.eq_zero_of_forall_notMem fun t ht => ?_
    rw [Multiset.mem_filterMap] at ht
    obtain ⟨k, hk, hkt⟩ := ht
    rw [(h k hk).2] at hkt
    cases hkt
  · refine Multiset.filter_eq_nil.mpr fun k hk => ?_
    simp [(h k hk).1]

theorem KeepsAtomics.of_plain (ks : Multiset Cont) (es : List Obs)
    (howed : σ'.owed = σ.owed + ks) (hks : ∀ k ∈ ks, k.plain)
    (hlog : σ'.log = σ.log ++ es) (hes : ∀ e ∈ es, e.plain)
    (hmem : ∀ x, (∀ e ∈ es, ¬ e.touches x) → σ'.memory x = σ.memory x)
    (hsrc : σ.Sourced → σ'.Sourced) (hfields : σ'.atomicFields = σ.atomicFields) :
    KeepsAtomics σ σ' := by
  have hanswers : es.filterMap Obs.answer? = [] :=
    List.filterMap_eq_nil_iff.mpr fun e he => Obs.answer_eq_none (hes e he)
  refine ⟨hfields, hsrc, ?_, ?_, es, hlog, fun e he => Obs.not_moves (hes e he), hmem⟩
  · rw [Engine.carried, Engine.carried, howed, filter_add, (filterMap_append_plain hks).2,
      add_zero]
  · rw [Engine.answers, Engine.answers, howed, hlog, filterMap_add,
      (filterMap_append_plain hks).1, List.filterMap_append, hanswers, add_zero, append_nil]

/-- Everything an atomic looks at. -/
def atomicView (σ : Engine) :=
  (σ.owed, σ.log, σ.memory, σ.sources, σ.atomicFields)

theorem KeepsAtomics.of_view (h : σ'.atomicView = σ.atomicView) : KeepsAtomics σ σ' := by
  simp only [atomicView, Prod.mk.injEq] at h
  obtain ⟨howed, hlog, hmem, hsrc, hfields⟩ := h
  refine .of_plain 0 [] ?_ (by simp) ?_ (by simp) (fun x _ => by rw [hmem]) ?_ hfields
  · rw [howed, add_zero]
  · rw [hlog, append_nil]
  · intro h
    rwa [Sourced, hsrc]

theorem keeps_record (σ : Engine) {e : Obs} (he : e.plain) : KeepsAtomics σ (σ.record e) :=
  .of_plain 0 [e] (by simp) (by simp) rfl (by simpa using he) (fun _ _ => rfl) id rfl

theorem keeps_pend (σ : Engine) (hk : k.plain) : KeepsAtomics σ (σ.pend k) :=
  .of_plain {k} [] (owed_pend σ k) (by simpa using hk) (by simp) (by simp)
    (fun _ _ => rfl) id rfl

theorem keeps_acknowledge (σ : Engine) (h : Header) (t : Option Tag) :
    KeepsAtomics σ (σ.acknowledge h t) := by
  have howed := owed_acknowledge σ h t
  obtain ⟨attached, found, heq⟩ := acknowledge_eq σ h t
  rw [heq] at howed ⊢
  exact .of_plain 0 _ (by rw [howed, add_zero]) (by simp) rfl (by simp [Obs.plain])
    (fun _ _ => rfl) id rfl

theorem Rescheduled.keepsAtomics (h : Rescheduled σ σ') (howed : σ'.owed = σ.owed + ks)
    (hks : ∀ k ∈ ks, k.plain) : KeepsAtomics σ σ' := by
  obtain ⟨p, s, r, rfl⟩ := h
  exact .of_plain _ [] howed hks (by simp) (by simp) (fun _ _ => rfl) id rfl

theorem plain_of_reportsWait (h : Cont.reportsWait k) : k.plain := by
  cases k <;> first | exact ⟨rfl, rfl⟩ | cases h

/-! ### Memory -/

theorem keeps_checkWaits (h : σ.checkWaits = .ok σ') : KeepsAtomics σ σ' := by
  obtain ⟨waits, ks, rfl, hks⟩ := checkWaits_ok h
  exact .of_plain ks [] (owed_append σ ks) (fun k hk => plain_of_reportsWait (hks k hk)) (by simp)
    (by simp) (fun _ _ => rfl) id rfl

variable {address bytes i id peer qp : Nat} {key : Key} {s : Source} {tag : Tag} {p : Piece}
  {next old : UInt64}

theorem keeps_store {packet : List UInt8} {zero : Bool}
    (h : σ.store address packet bytes zero = .ok σ') : KeepsAtomics σ σ' := by
  obtain ⟨waits, ks, memory, rfl, hks, hmem⟩ := store_ok h
  refine .of_plain ks _ (owed_append σ ks) (fun k hk => plain_of_reportsWait (hks k hk)) rfl
    (by simp [Obs.plain]) ?_ id rfl
  intro x hx
  exact hmem x (hx _ List.mem_cons_self)

theorem keeps_writeMemory {data : List UInt8} (h : σ.writeMemory address data = .ok σ')
    : KeepsAtomics σ σ' := by
  obtain ⟨waits, ks, rfl, hks⟩ := writeMemory_ok h
  refine .of_plain ks _ (owed_append σ ks) (fun k hk => plain_of_reportsWait (hks k hk)) rfl
    (by simp [Obs.plain]) ?_ id rfl
  intro x hx
  exact if_neg (hx _ List.mem_cons_self)

theorem keeps_waitSignal {c : Comparison} {value : UInt64}
    (h : σ.waitSignal address c value = .ok σ') : KeepsAtomics σ σ' := by
  obtain ⟨_, -, hcheck⟩ := bind_eq_ok.mp h
  exact KeepsAtomics.trans (.of_view (by rfl)) (keeps_checkWaits hcheck)

theorem keeps_registerMemory {key : Nat} (h : σ.registerMemory address bytes key = .ok σ')
    : KeepsAtomics σ σ' := by
  unfold registerMemory at h
  split at h
  · cases h
  · cases h
    exact .of_view rfl

theorem keeps_unregisterMemory {key : Nat} (h : σ.unregisterMemory key = .ok σ') :
    KeepsAtomics σ σ' := by
  unfold unregisterMemory at h
  split at h
  · cases h
  · cases h
    exact .of_view rfl

/-! ### Sending -/

theorem sourced_setSource (hs : s.tag.phase = .data) (h : σ.Sourced) :
    (σ.setSource id s).Sourced := by
  intro e he
  simp only [setSource_sources, AList.entries_insert] at he
  rcases List.mem_cons.mp he with rfl | he
  · exact hs
  · exact h e ((List.kerase_sublist _ _).subset he)

theorem Sourced.lookup (h : σ.Sourced) (hs : σ.sources.lookup id = some s) : s.tag.phase = .data :=
  h _ (AList.mem_lookup_iff.mp hs)

theorem keeps_setSource (id : Nat) (hs : σ.Sourced → s.tag.phase = .data) :
    KeepsAtomics σ (σ.setSource id s) :=
  .of_plain 0 [] (by rw [add_zero]; rfl) (by simp) (by simp) (by simp) (fun _ _ => rfl)
    (fun h => sourced_setSource (hs h) h) rfl

theorem keeps_transmissions (h : ∀ t ∈ ts, t.answers = false) :
    KeepsAtomics σ { σ with pending := σ.pending ++ ts.map .transmit } := by
  refine .of_plain (ts.map Cont.transmit : List Cont) [] (owed_append σ _) ?_ (by simp) (by simp)
    (fun _ _ => rfl) id rfl
  intro k hk
  obtain ⟨t, ht, rfl⟩ := List.mem_map.mp (Multiset.mem_coe.mp hk)
  exact ⟨rfl, by simp [Cont.answer?, h t ht]⟩

theorem answers_of_fragments {pieces : List (Nat × Nat)}
    (h : List.Forall₂ (IsFragment peer tag qp flow vc) pieces ts)
    (htag : tag.phase ≠ .atomicResponse) : ∀ t ∈ ts, t.answers = false := by
  intro t ht
  obtain ⟨piece, -, packet, zero, -, rfl⟩ := exists_of_forall₂ h ht
  simpa [Transmission.answers] using htag

theorem keeps_sendPayload (h : σ.sendPayload peer tag qp flow vc address bytes = .ok σ')
    (htag : tag.phase ≠ .atomicResponse) : KeepsAtomics σ σ' := by
  obtain ⟨ts, hts, rfl⟩ := sendPayload_ok h
  exact keeps_transmissions (answers_of_fragments hts htag)

theorem keeps_sendSource (h : σ.sendSource s = .ok σ') (hs : s.tag.phase = .data)
    : KeepsAtomics σ σ' := by
  rcases sendSource_ok h with ⟨-, ts, hts, rfl⟩ | ⟨-, rfl⟩
  · exact keeps_transmissions (answers_of_fragments hts (by simp [hs]))
  · exact keeps_record σ rfl

theorem keeps_execute {request : Request} {timing : WorkTiming} {succeeded : Bool}
    (h : σ.execute request timing succeeded = .ok σ') : KeepsAtomics σ σ' := by
  unfold execute at h
  split at h
  · cases h
    exact keeps_record σ trivial
  · exact (keeps_setSource timing.id fun _ => rfl).trans (keeps_sendSource h rfl)

theorem keeps_retry (hsrc : σ.Sourced) (h : σ.retry id = .ok σ') : KeepsAtomics σ σ' := by
  unfold retry at h
  split at h
  · cases h
    exact .refl σ
  · rename_i s hs
    have hphase := hsrc.lookup hs
    split at h
    · cases h
      exact .refl σ
    · dsimp only at h
      refine KeepsAtomics.trans (keeps_setSource id ?_) (keeps_sendSource h ?_)
      · exact fun _ => hphase
      · exact hphase

theorem keeps_completeRequest (σ : Engine) (requestId : Nat) :
    KeepsAtomics σ (σ.completeRequest requestId) := by
  refine .of_plain 0 [] (by rw [add_zero]; rfl) (by simp) (by simp [completeRequest]) (by simp)
    (fun _ _ => rfl) ?_ rfl
  intro h e he
  exact h e (List.mem_of_mem_filter he)

theorem keeps_notify (σ : Engine) (id : Nat) (success : Bool) :
    KeepsAtomics σ (σ.notifyOperationComplete id success) :=
  keeps_record σ trivial

theorem keeps_sourceAcknowledged (σ : Engine) (tag : Tag) :
    KeepsAtomics σ (σ.sourceAcknowledged tag) := by
  unfold sourceAcknowledged
  split
  · exact .refl σ
  · split
    · exact .refl σ
    · rename_i s hs
      have hphase : σ.Sourced → s.tag.phase = .data := fun hsrc => hsrc.lookup hs
      split
      · exact .refl σ
      · split
        · refine KeepsAtomics.trans (keeps_setSource _ ?_) (keeps_notify _ _ _)
          exact hphase
        · split
          · split
            · refine KeepsAtomics.trans (keeps_setSource _ ?_) (keeps_notify _ _ _)
              exact hphase
            · refine ((KeepsAtomics.trans (keeps_setSource _ ?_) (keeps_record _ (by trivial)))).trans
                (keeps_pend _ ⟨rfl, rfl⟩)
              exact hphase
          · exact .refl σ

theorem keeps_packetSent (σ : Engine) (h : Header) (tag : Tag) :
    KeepsAtomics σ (σ.packetSent h tag) := by
  unfold packetSent
  split
  · exact .of_view rfl
  · exact .refl σ

theorem keeps_permanentLoss (σ : Engine) (h : Header) : KeepsAtomics σ (σ.permanentLoss h) := by
  unfold permanentLoss
  split
  · split
    · exact keeps_record σ trivial
    · exact .refl σ
  · exact .refl σ

/-! ### Receiving data -/

theorem keeps_postReceive {key : Nat} {armed : Bool}
    (h : σ.postReceive id address bytes peer qp key armed = .ok σ') : KeepsAtomics σ σ' := by
  unfold postReceive at h
  split at h
  · cases h
  · split at h
    · cases h
    · split at h
      · cases h
      · dsimp only at h
        split at h
        · cases h
          exact KeepsAtomics.trans (.of_view (by rfl)) (keeps_pend _ ⟨rfl, rfl⟩)
        · cases h
          exact KeepsAtomics.trans (.of_view (by rfl)) (keeps_record _ (by trivial))

theorem keeps_startPiece (h : σ.startPiece key i p = .ok σ') : KeepsAtomics σ σ' := by
  unfold startPiece at h
  dsimp only at h
  split at h
  · cases h
  · cases h
    exact keeps_pend σ ⟨rfl, rfl⟩

theorem keeps_modIncoming (σ : Engine) (i : Nat) (g : Incoming → Incoming) :
    KeepsAtomics σ (σ.modIncoming i g) := .of_view rfl

theorem keeps_acceptPiece (h : σ.acceptPiece key i p = .ok σ') : KeepsAtomics σ σ' := by
  unfold acceptPiece at h
  have hrecord : KeepsAtomics σ ((σ.record (.held p.header)).record (.accepted key p)) :=
    (keeps_record _ (by trivial)).trans (keeps_record _ (by trivial))
  dsimp only at h
  split at h
  · exact hrecord.trans (keeps_startPiece h)
  · cases h
    exact hrecord.trans (keeps_modIncoming _ _ _)

theorem keeps_failReceive (σ : Engine) (tag : Tag) (h : Header) (receive : Option PostedReceive) :
    KeepsAtomics σ (σ.failReceive tag h receive) := by
  cases receive with
  | none => exact .refl σ
  | some r => exact keeps_pend σ ⟨rfl, rfl⟩

theorem keeps_acquireReceiveStaging (hk : k.plain) (h : σ.acquireReceiveStaging bytes k = .ok σ')
    : KeepsAtomics σ σ' :=
  (acquireReceiveStaging_ok h).1.keepsAtomics (acquireReceiveStaging_ok h).2 (by simpa using hk)

theorem keeps_releaseReceiveStaging (h : σ.releaseReceiveStaging bytes = .ok σ') :
    KeepsAtomics σ σ' :=
  (releaseReceiveStaging_ok h).1.keepsAtomics
    (by rw [(releaseReceiveStaging_ok h).2, add_zero]) (by simp)

theorem keeps_releaseSourceStaging (h : σ.releaseSourceStaging bytes = .ok σ') :
    KeepsAtomics σ σ' :=
  (releaseSourceStaging_ok h).1.keepsAtomics
    (by rw [(releaseSourceStaging_ok h).2, add_zero]) (by simp)

theorem keeps_openIncoming {receive : Option PostedReceive}
    (h : σ.openIncoming p qp receive = .ok σ') : KeepsAtomics σ σ' := by
  unfold openIncoming at h
  dsimp only at h
  split at h
  · cases h
    exact keeps_acknowledge _ _ _
  · split at h
    · cases h
      exact (KeepsAtomics.trans (.of_view (by rfl)) (keeps_acknowledge _ _ _)).trans (keeps_failReceive _ _ _ _)
    · split at h
      · obtain ⟨σ₁, hacq, hacc⟩ := bind_eq_ok.mp h
        exact (KeepsAtomics.trans (.of_view (by rfl)) (keeps_acquireReceiveStaging ⟨rfl, rfl⟩ hacq)).trans
          (keeps_acceptPiece hacc)
      · exact KeepsAtomics.trans (.of_view (by rfl)) (keeps_acceptPiece h)

theorem keeps_rejectAttempt (σ : Engine) (p : Piece) : KeepsAtomics σ (σ.rejectAttempt p) :=
  (KeepsAtomics.trans (.of_view (by rfl)) (keeps_record _ (by trivial))).trans (keeps_acknowledge _ _ _)

theorem keeps_acceptData (h : σ.acceptData p qp = .ok σ') : KeepsAtomics σ σ' := by
  unfold acceptData at h
  dsimp only at h
  split at h
  · cases h
    exact keeps_acknowledge _ _ _
  · split at h
    · cases h
      exact keeps_acknowledge _ _ _
    · split at h
      · cases h
        exact keeps_acknowledge _ _ _
      · split at h
        · split at h
          · cases h
            exact keeps_acknowledge _ _ _
          · exact keeps_acceptPiece h
        · split at h
          · split at h
            · cases h
              exact keeps_rejectAttempt _ _
            · rename_i hm
              unfold matchReceive at hm
              split at hm
              · cases hm
              · cases hm
                exact (KeepsAtomics.trans (.of_view (by rfl)) (keeps_record _ (by trivial))).trans
                  (keeps_openIncoming h)
          · exact keeps_openIncoming h

theorem keeps_startPieces (h : ps.foldlM (fun σ p => σ.startPiece key i p) σ = .ok σ')
    : KeepsAtomics σ σ' := by
  induction ps generalizing σ with
  | nil =>
      cases h
      exact .refl _
  | cons p ps ih =>
      rw [List.foldlM_cons] at h
      obtain ⟨σ₁, hp, hrest⟩ := bind_eq_ok.mp h
      exact (keeps_startPiece hp).trans (ih hrest)

theorem keeps_stagingAllocated (h : σ.stagingAllocated key i = .ok σ') : KeepsAtomics σ σ' := by
  unfold stagingAllocated at h
  exact (keeps_modIncoming σ i _).trans (keeps_startPieces h)

theorem keeps_completeSource {n : Incoming} (h : σ.completeSource n = .ok σ') :
    KeepsAtomics σ σ' := by
  unfold completeSource at h
  split at h
  · cases h
    exact .refl σ
  · rename_i s hs
    have hphase : σ.Sourced → s.tag.phase = .data := fun hsrc => hsrc.lookup hs
    split at h
    · cases h
      exact .refl σ
    · split at h
      · obtain ⟨result, -, hσ⟩ := bind_eq_ok.mp h
        cases hσ
        refine KeepsAtomics.trans (keeps_setSource _ ?_) (keeps_notify _ _ _)
        exact hphase
      · cases h
        refine KeepsAtomics.trans (keeps_setSource _ ?_) (keeps_notify _ _ _)
        exact hphase

theorem keeps_finishReceive (σ : Engine) (n : Incoming) : KeepsAtomics σ (σ.finishReceive n) := by
  unfold finishReceive
  split
  · exact .refl σ
  · exact keeps_pend σ ⟨rfl, rfl⟩

theorem keeps_completeIncoming (h : σ.completeIncoming key i p = .ok σ') : KeepsAtomics σ σ' := by
  unfold completeIncoming at h
  dsimp only at h
  split at h
  · obtain ⟨σ₁, hsrc, hσ⟩ := bind_eq_ok.mp h
    cases hσ
    exact (KeepsAtomics.trans (.of_view (by rfl)) (keeps_completeSource hsrc)).trans (keeps_acknowledge _ _ _)
  · cases h
    exact (KeepsAtomics.trans (.of_view (by rfl)) (keeps_acknowledge _ _ _)).trans (keeps_finishReceive _ _)

theorem keeps_landPiece (h : σ.landPiece i p = .ok σ') : KeepsAtomics σ σ' := by
  unfold landPiece at h
  split at h
  · cases h
    exact keeps_modIncoming _ _ _
  · exact keeps_store h

theorem keeps_destinationWritten (h : σ.destinationWritten key i p = .ok σ')
    : KeepsAtomics σ σ' := by
  obtain ⟨σ₁, hland, h⟩ := bind_eq_ok.mp h
  have hledger := (keeps_landPiece hland).trans (keeps_modIncoming σ₁ i fun n =>
    { n with received := (n.received + p.header.effectiveDataSize) % 2 ^ 64 })
  dsimp only at h
  split at h
  · cases h
  · split at h
    · cases h
      exact hledger.trans (keeps_acknowledge _ _ _)
    · split at h
      · cases h
        exact hledger.trans (keeps_pend _ ⟨rfl, rfl⟩)
      · exact hledger.trans (keeps_completeIncoming h)

theorem keeps_storePieces (h : ps.foldlM (fun σ q => σ.storePiece address q) σ = .ok σ')
    : KeepsAtomics σ σ' := by
  induction ps generalizing σ with
  | nil =>
      cases h
      exact .refl _
  | cons p ps ih =>
      rw [List.foldlM_cons] at h
      obtain ⟨σ₁, hp, hrest⟩ := bind_eq_ok.mp h
      exact (keeps_store hp).trans (ih hrest)

theorem keeps_destinationCopied (h : σ.destinationCopied key i p = .ok σ') : KeepsAtomics σ σ' := by
  obtain ⟨σ₁, hstore, h⟩ := bind_eq_ok.mp h
  obtain ⟨σ₂, hrelease, h⟩ := bind_eq_ok.mp h
  exact ((keeps_storePieces hstore).trans (keeps_releaseReceiveStaging hrelease)).trans
    (keeps_completeIncoming h)

/-! ## The queues -/

/-- The delivered requests for words. -/
def arrivals (σ : Engine) : List Responder := σ.log.filterMap Obs.arrived?

/-- The requests that joined a queue. -/
def queued (σ : Engine) : List Responder := σ.log.filterMap Obs.queued?

/-- Requests for words among waiting responders. -/
def waitingAtomics (σ : Engine) : List Responder :=
  σ.responderWaiting.filter fun r => r.tag.opcode ≠ .read

/-- The word a memory holds at an address. -/
def initialWord (memory : Nat → Option UInt8) (address : Nat) : UInt64 :=
  joinWord fun i => (memory (address + i)).getD 0

/-- The requests executed on a word as a history of the word. -/
def historyAt (σ : Engine) (address : Nat) : List (WordOp × Nat) :=
  (σ.executedAt address).map fun p => (p.1.tag.wordOp, p.2.toNat)

/-- The state of every queue. While a closure runs, `token` is the request it carries;
after the commit and before the queue moves on, `done` is the request that is over but
still in front, and `due` the answer not yet handed out. -/
structure Serial (memory : Nat → Option UInt8) (token done : Option Responder)
    (due : Option Transmission) (σ : Engine) : Prop where
  /-- Exactly the front of each queue is being worked on. -/
  turn : ∀ a, (σ.running + token.toList + done.toList).filter (fun r => r.tag.word = a) =
    ((σ.atomics a).head?.toList : Multiset Responder)
  home : ∀ a, ∀ r ∈ σ.atomics a, r.tag.word = a
  /-- Requests are executed in the order of the queue. -/
  order : ∀ a, ∃ rest, σ.atomics a = done.toList.filter (fun r => r.tag.word = a) ++ rest ∧
    σ.queuedAt a = (σ.executedAt a).map Prod.fst ++ rest
  /-- What a closure has read is still there. -/
  captured : ∀ k ∈ σ.owed, ∀ r old next, k.captured? = some (r, old, next) →
    σ.OnlyAtomicsWrite r.tag.word → old = σ.word r.tag.word ∧ next = r.update old
  aligned : ∀ k ∈ σ.owed, ∀ r old next, k.captured? = some (r, old, next) → r.tag.word % 8 = 0
  legal : ∀ a, a % 8 = 0 → σ.OnlyAtomicsWrite a →
    Legal WordOp.apply (initialWord memory a).toNat (σ.historyAt a) (σ.word a).toNat
  answered : σ.answers + due.toList = σ.replies
  /-- Every delivered request waits for a responder or has joined a queue. -/
  admitted : (σ.queued : Multiset Responder) + σ.waitingAtomics = σ.arrivals
  distinct : σ.arrivals.Nodup
  fresh : ∀ r ∈ σ.arrivals, r.serial < σ.nextResponder
  sourced : σ.Sourced

variable {memory : Nat → Option UInt8} {token done : Option Responder} {due : Option Transmission}

theorem running_eq_carried (σ : Engine) : σ.running = σ.carried.filterMap Cont.atomic? := by
  rw [running, carried, Multiset.filterMap_filter]
  congr 1
  funext k
  cases h : k.atomic? <;> simp

theorem mem_carried_of_captured {p : Responder × UInt64 × UInt64} (hk : k ∈ σ.owed)
    (h : k.captured? = some p) : k ∈ σ.carried := by
  refine Multiset.mem_filter.mpr ⟨hk, ?_⟩
  cases k <;> first | rfl | cases h

theorem filterMap_log_plain {β : Type} {f : Obs → Option β} (hf : ∀ e : Obs, ¬ e.moves → f e = none)
    (hlog : σ'.log = σ.log ++ es) (hes : ∀ e ∈ es, ¬ e.moves) :
    σ'.log.filterMap f = σ.log.filterMap f := by
  have hnone : es.filterMap f = [] := List.filterMap_eq_nil_iff.mpr fun e he => hf e (hes e he)
  rw [hlog, List.filterMap_append, hnone, append_nil]

theorem OnlyAtomicsWrite.of_append (hlog : σ'.log = σ.log ++ es) (h : σ'.OnlyAtomicsWrite a)
    : σ.OnlyAtomicsWrite a := by
  intro e he
  exact h e (hlog ▸ List.mem_append_left _ he)

/-- A step beside the atomics keeps the queues. -/
theorem Serial.keeps (h : Serial memory token done due σ) (hk : KeepsAtomics σ σ') :
    Serial memory token done due σ' := by
  obtain ⟨es, hlog, hes, hmem⟩ := hk.log
  have hfields := hk.fields
  simp only [atomicFields, Prod.mk.injEq] at hfields
  obtain ⟨-, hatomics, hwaiting, -, hnext⟩ := hfields
  have hqueuedAt : ∀ a, σ'.queuedAt a = σ.queuedAt a := fun a =>
    filterMap_log_plain (fun e he => by cases e <;> first | rfl | exact absurd trivial he) hlog hes
  have hexecutedAt : ∀ a, σ'.executedAt a = σ.executedAt a := fun a =>
    filterMap_log_plain (fun e he => by cases e <;> first | rfl | exact absurd trivial he) hlog hes
  have hreplies : σ'.replies = σ.replies :=
    filterMap_log_plain (fun e he => by cases e <;> first | rfl | exact absurd trivial he) hlog hes
  have harrivals : σ'.arrivals = σ.arrivals :=
    filterMap_log_plain (fun e he => by cases e <;> first | rfl | exact absurd trivial he) hlog hes
  have hqueued : σ'.queued = σ.queued :=
    filterMap_log_plain (fun e he => by cases e <;> first | rfl | exact absurd trivial he) hlog hes
  have hword : ∀ a, σ'.OnlyAtomicsWrite a → σ'.word a = σ.word a := by
    intro a honly
    apply word_congr
    intro x hlo hhi
    exact hmem x fun e he => honly e (hlog ▸ List.mem_append_right _ he) x hlo hhi
  have howed : ∀ k ∈ σ'.owed, ∀ p, k.captured? = some p → k ∈ σ.owed := by
    intro k hkm p hcap
    have hcarried := mem_carried_of_captured hkm hcap
    rw [hk.carried] at hcarried
    exact Multiset.mem_of_mem_filter hcarried
  refine ⟨?_, ?_, ?_, ?_, ?_, ?_, ?_, ?_, ?_, ?_, hk.sourced h.sourced⟩
  · intro a
    rw [running_eq_carried, hk.carried, ← running_eq_carried, hatomics]
    exact h.turn a
  · rw [hatomics]
    exact h.home
  · intro a
    rw [hatomics, hqueuedAt, hexecutedAt]
    exact h.order a
  · intro k hkm r old next hcap honly
    rw [hword _ honly]
    exact h.captured k (howed k hkm _ hcap) r old next hcap (honly.of_append hlog)
  · intro k hkm r old next hcap
    exact h.aligned k (howed k hkm _ hcap) r old next hcap
  · intro a halign honly
    rw [hword a honly, historyAt, hexecutedAt]
    exact h.legal a halign (honly.of_append hlog)
  · rw [hk.answers, hreplies]
    exact h.answered
  · rw [waitingAtomics, hwaiting, hqueued, harrivals]
    exact h.admitted
  · rw [harrivals]
    exact h.distinct
  · rw [harrivals, hnext]
    exact h.fresh

/-- Everything an atomic looks at except the closures. -/
def atomicRest (σ : Engine) := (σ.log, σ.memory, σ.sources, σ.atomicFields)

/-- The queues depend on the closures only through what each carries. -/
theorem Serial.of_rest {token' : Option Responder} (h : Serial memory token done due σ)
    (hrest : σ'.atomicRest = σ.atomicRest)
    (hrunning : σ'.running + token'.toList = σ.running + (token.toList : Multiset Responder))
    (hanswers : σ'.owed.filterMap Cont.answer? = σ.owed.filterMap Cont.answer?)
    (hcaptured : ∀ k ∈ σ'.owed, k ∈ σ.owed ∨ ∀ r old next, k.captured? = some (r, old, next) →
      r.tag.word % 8 = 0 ∧
        (σ.OnlyAtomicsWrite r.tag.word → old = σ.word r.tag.word ∧ next = r.update old)) :
    Serial memory token' done due σ' := by
  simp only [atomicRest, atomicFields, Prod.mk.injEq] at hrest
  obtain ⟨hlog, hmem, hsrc, -, hatomics, hwaiting, -, hnext⟩ := hrest
  have hword : ∀ a, σ'.word a = σ.word a := fun a => word_congr fun x _ _ => by rw [hmem]
  have honly : ∀ a, σ'.OnlyAtomicsWrite a → σ.OnlyAtomicsWrite a := fun a ha => by
    rwa [OnlyAtomicsWrite, hlog] at ha
  refine ⟨?_, ?_, ?_, ?_, ?_, ?_, ?_, ?_, ?_, ?_, ?_⟩
  · intro a
    rw [hrunning, hatomics]
    exact h.turn a
  · rw [hatomics]
    exact h.home
  · intro a
    rw [hatomics, queuedAt, executedAt, hlog]
    exact h.order a
  · intro k hk r old next hcap hw
    rw [hword]
    rcases hcaptured k hk with hk | hk
    · exact h.captured k hk r old next hcap (honly _ hw)
    · exact (hk r old next hcap).2 (honly _ hw)
  · intro k hk r old next hcap
    rcases hcaptured k hk with hk | hk
    · exact h.aligned k hk r old next hcap
    · exact (hk r old next hcap).1
  · intro a halign hw
    rw [hword, historyAt, executedAt, hlog]
    exact h.legal a halign (honly _ hw)
  · rw [answers, replies, hanswers, hlog]
    exact h.answered
  · rw [waitingAtomics, queued, arrivals, hwaiting, hlog]
    exact h.admitted
  · rw [arrivals, hlog]
    exact h.distinct
  · rw [arrivals, hlog, hnext]
    exact h.fresh
  · rw [Sourced, hsrc]
    exact h.sourced

theorem Serial.carry (h : Serial memory (some r) done due σ) (hk : k.atomic? = some r)
    (hrest : σ'.atomicRest = σ.atomicRest) (howed : σ'.owed = σ.owed + {k})
    (hcap : ∀ r old next, k.captured? = some (r, old, next) → r.tag.word % 8 = 0 ∧
      (σ.OnlyAtomicsWrite r.tag.word → old = σ.word r.tag.word ∧ next = r.update old)) :
    Serial memory none done due σ' := by
  have hans : k.answer? = none := by cases k <;> first | rfl | cases hk
  refine h.of_rest hrest ?_ ?_ ?_
  · simp [running, howed, hk, filterMap_add]
  · simp [howed, hans, filterMap_add]
  · intro k' hk'
    rw [howed, mem_add, mem_singleton] at hk'
    rcases hk' with hk' | rfl
    · exact .inl hk'
    · exact .inr hcap

theorem Serial.take (h : Serial memory none done due σ) (hk : k.atomic? = some r)
    (hrest : σ'.atomicRest = σ.atomicRest) (howed : σ'.owed + {k} = σ.owed) :
    Serial memory (some r) done due σ' := by
  have hans : k.answer? = none := by cases k <;> first | rfl | cases hk
  refine h.of_rest hrest ?_ ?_ ?_
  · simp [running, ← howed, hk, filterMap_add]
  · simp [← howed, hans, filterMap_add]
  · intro k' hk'
    rw [← howed]
    exact .inl (Multiset.mem_add.mpr (.inl hk'))

theorem Serial.runAtomic (h : Serial memory (some r) done due σ) (hrun : σ.runAtomic r = .ok σ') :
    Serial memory none done due σ' := by
  unfold Engine.runAtomic at hrun
  split at hrun
  · obtain ⟨⟨p, s, q, heq⟩, howed⟩ := stageSourcePayload_ok hrun
    refine h.carry rfl ?_ howed (fun _ _ _ hcap => by cases hcap)
    rw [heq]
    rfl
  · cases hrun
    unfold atomicRun
    split
    · exact h.carry rfl rfl (owed_pend _ _) (fun _ _ _ hcap => by cases hcap)
    · exact h.carry rfl rfl (owed_pend _ _) (fun _ _ _ hcap => by cases hcap)

/-- A request joins the queue of its word. In an empty queue it is at once in hand. -/
theorem Serial.enqueue {rest : List Responder} (h : Serial memory none done due σ)
    (hw : σ.responderWaiting = r :: rest) (hop : r.tag.opcode ≠ .read) :
    Serial memory (if σ.atomics r.tag.word = [] then some r else none) done due
      ((σ.activate r rest).enqueueAtomic r) := by
  have hatomics : ∀ a, ((σ.activate r rest).enqueueAtomic r).atomics a =
      if a = r.tag.word then σ.atomics r.tag.word ++ [r] else σ.atomics a := fun a => by
    simp only [enqueueAtomic_atomics, activate_atomics, Function.update_apply]
  have hquiet : ∀ a, ((σ.activate r rest).enqueueAtomic r).OnlyAtomicsWrite a →
      σ.OnlyAtomicsWrite a := fun a ha => ha.of_append rfl
  have hexecuted : ∀ a, ((σ.activate r rest).enqueueAtomic r).executedAt a = σ.executedAt a := fun a => by
    simp [executedAt, Obs.executedAt?]
  have harrivals : ((σ.activate r rest).enqueueAtomic r).arrivals = σ.arrivals := by
    simp [arrivals, Obs.arrived?]
  refine ⟨?_, ?_, ?_, ?_, ?_, ?_, ?_, ?_, ?_, ?_, h.sourced⟩
  -- turn: the request is in hand if its queue was empty
  · intro a
    rw [hatomics]
    have hturn := h.turn a
    simp only [Option.toList_none, coe_nil, add_zero, filter_add] at hturn
    show (σ.running + _ + _).filter _ = _
    simp only [filter_add]
    by_cases ha : a = r.tag.word
    · subst ha
      by_cases hempty : σ.atomics r.tag.word = []
      · rw [hempty] at hturn
        simp only [hempty, ↓reduceIte, List.nil_append, List.head?_cons, Option.toList_some,
          coe_singleton, filter_singleton]
        rw [add_right_comm, hturn]
        rfl
      · simp only [hempty, ↓reduceIte, Option.toList_none, coe_nil, Multiset.filter_zero,
          add_zero]
        rw [hturn, List.head?_append_of_ne_nil _ hempty]
    · have hne : ¬ r.tag.word = a := fun e => ha e.symm
      rw [if_neg ha]
      by_cases hempty : σ.atomics r.tag.word = []
      · simp only [hempty, ↓reduceIte, Option.toList_some, coe_singleton,
          filter_singleton, if_neg hne]
        simpa using hturn
      · simp only [hempty, ↓reduceIte, Option.toList_none, coe_nil, Multiset.filter_zero,
          add_zero]
        exact hturn
  · intro a r' hr'
    rw [hatomics] at hr'
    split at hr'
    · rename_i ha
      rcases List.mem_append.mp hr' with hr' | hr'
      · exact (h.home _ r' hr').trans ha.symm
      · rw [List.mem_singleton.mp hr', ha]
    · exact h.home a r' hr'
  -- order: its queue grows at the end
  · intro a
    obtain ⟨rest', hqueue, hqueued⟩ := h.order a
    rw [hatomics, hexecuted]
    by_cases ha : a = r.tag.word
    · subst ha
      refine ⟨rest' ++ [r], ?_, ?_⟩
      · rw [if_pos rfl, hqueue, List.append_assoc]
      · rw [← List.append_assoc, ← hqueued]
        simp [queuedAt, Obs.queuedAt?]
    · refine ⟨rest', by rw [if_neg ha, hqueue], ?_⟩
      rw [← hqueued]
      have hne : ¬ r.tag.word = a := fun e => ha e.symm
      simp [queuedAt, Obs.queuedAt?, hne]
  · intro k hk r' old next hcap hw'
    exact h.captured k hk r' old next hcap (hquiet _ hw')
  · exact h.aligned
  · intro a halign hw'
    rw [historyAt, hexecuted]
    exact h.legal a halign (hquiet _ hw')
  · have hanswers : ((σ.activate r rest).enqueueAtomic r).answers = σ.answers := by
      have howed : ((σ.activate r rest).enqueueAtomic r).owed = σ.owed := rfl
      simp only [answers, howed, enqueueAtomic_log, activate_log, filterMap_snoc, Obs.answer?,
        Option.toList_none, append_nil]
    have hreplies : ((σ.activate r rest).enqueueAtomic r).replies = σ.replies := by
      simp [replies, Obs.reply?]
    rw [hanswers, hreplies]
    exact h.answered
  · have hadmitted := h.admitted
    have hqueued : ((σ.activate r rest).enqueueAtomic r).queued = σ.queued ++ [r] := by
      simp [queued, Obs.queued?]
    rw [harrivals, hqueued, ← hadmitted]
    simp only [waitingAtomics, enqueueAtomic_responderWaiting, activate_responderWaiting, hw]
    rw [List.filter_cons_of_pos (by simpa using hop), ← coe_add, ← Multiset.cons_coe,
      ← Multiset.singleton_add, add_assoc]
    rfl
  · rw [harrivals]
    exact h.distinct
  · rw [harrivals]
    exact h.fresh

theorem Serial.activateRead (h : Serial memory token done due σ)
    (hw : σ.responderWaiting = r :: rest) (hop : r.tag.opcode = .read) :
    Serial memory token done due (σ.activate r rest) := by
  refine ⟨h.turn, h.home, h.order, h.captured, h.aligned, h.legal, h.answered, ?_, h.distinct,
    h.fresh, h.sourced⟩
  have hadmitted := h.admitted
  rw [waitingAtomics, hw, List.filter_cons_of_neg (by simp [hop])] at hadmitted
  exact hadmitted

theorem keeps_markStaged (σ : Engine) (r : Responder) : KeepsAtomics σ (σ.markStaged r) := .of_view rfl

theorem Serial.startResponder (h : Serial memory none done due σ)
    (hw : σ.responderWaiting = r :: rest) (hrun : (σ.activate r rest).startResponder r = .ok σ') :
    Serial memory none done due σ' := by
  unfold Engine.startResponder at hrun
  split at hrun
  · rename_i hop
    have hact := h.activateRead hw hop
    split at hrun
    · have hspec := stageSourcePayload_ok hrun
      exact (hact.keeps (keeps_markStaged _ r)).keeps
        (hspec.1.keepsAtomics hspec.2 (by simp [Cont.plain, Cont.atomic?, Cont.answer?]))
    · cases hrun
      exact hact.keeps (keeps_pend _ ⟨rfl, rfl⟩)
  · rename_i hop
    have henq := h.enqueue hw hop
    dsimp only at hrun
    -- alone in its queue the request runs now, otherwise the front will start it
    have hlen : (((σ.activate r rest).enqueueAtomic r).atomics r.tag.word).length =
        (σ.atomics r.tag.word).length + 1 := by simp
    split at hrun
    · rename_i hone
      have hempty : σ.atomics r.tag.word = [] := List.length_eq_zero_iff.mp (by omega)
      rw [if_pos hempty] at henq
      exact henq.runAtomic hrun
    · rename_i hmany
      have hne : σ.atomics r.tag.word ≠ [] := fun he => hmany (by rw [hlen, he]; rfl)
      cases hrun
      rwa [if_neg hne] at henq

theorem Serial.pumpRespondersLoop (h : Serial memory none done due σ)
    (hrun : pumpRespondersLoop fuel σ = .ok σ') : Serial memory none done due σ' := by
  induction fuel generalizing σ with
  | zero =>
      cases hrun
      exact h
  | succ fuel ih =>
      simp only [Engine.pumpRespondersLoop] at hrun
      split at hrun
      · cases hrun
        exact h
      · rename_i r rest hw
        split at hrun
        · obtain ⟨σ₁, hstart, hrest⟩ := bind_eq_ok.mp hrun
          exact ih (h.startResponder hw hstart) hrest
        · cases hrun
          exact h

theorem Serial.finishResponder (h : Serial memory none done due σ)
    (hrun : σ.finishResponder key = .ok σ') : Serial memory none done due σ' := by
  unfold Engine.finishResponder at hrun
  split at hrun
  · cases hrun
    exact h
  · obtain ⟨σ₁, hrelease, hpump⟩ := bind_eq_ok.mp hrun
    have hσ₁ : Serial memory none done due σ₁ := by
      unfold unstageResponder at hrelease
      split at hrelease
      · exact h.keeps (keeps_releaseSourceStaging hrelease)
      · cases hrelease
        exact h
    have hdeact : Serial memory none done due (σ₁.deactivate key) :=
      ⟨hσ₁.turn, hσ₁.home, hσ₁.order, hσ₁.captured, hσ₁.aligned, hσ₁.legal, hσ₁.answered,
        hσ₁.admitted, hσ₁.distinct, hσ₁.fresh, hσ₁.sourced⟩
    exact hdeact.pumpRespondersLoop hpump

/-- A delivered request takes a fresh responder. -/
theorem Serial.enqueueResponder (h : Serial memory token done due σ)
    (hserial : r.serial = σ.nextResponder) :
    Serial memory token done due (σ.enqueueResponder r) := by
  have hquiet : ∀ a, (σ.enqueueResponder r).OnlyAtomicsWrite a → σ.OnlyAtomicsWrite a :=
    fun a ha => ha.of_append rfl
  have hqueuedAt : ∀ a, (σ.enqueueResponder r).queuedAt a = σ.queuedAt a := fun a => by
    simp [queuedAt, Obs.queuedAt?]
  have hexecutedAt : ∀ a, (σ.enqueueResponder r).executedAt a = σ.executedAt a := fun a => by
    simp [executedAt, Obs.executedAt?]
  have harrivals : (σ.enqueueResponder r).arrivals =
      σ.arrivals ++ if r.tag.opcode = .read then [] else [r] := by
    simp only [arrivals, enqueueResponder_log, filterMap_snoc, Obs.arrived?]
    split <;> rfl
  refine ⟨h.turn, h.home, ?_, ?_, h.aligned, ?_, ?_, ?_, ?_, ?_, h.sourced⟩
  · intro a
    rw [hqueuedAt, hexecutedAt]
    exact h.order a
  · intro k hk r' old next hcap hw
    exact h.captured k hk r' old next hcap (hquiet _ hw)
  · intro a halign hw
    rw [historyAt, hexecutedAt]
    exact h.legal a halign (hquiet a hw)
  · have hanswers : (σ.enqueueResponder r).answers = σ.answers := by
      have howed : (σ.enqueueResponder r).owed = σ.owed := rfl
      simp only [answers, howed, enqueueResponder_log, filterMap_snoc, Obs.answer?,
        Option.toList_none, append_nil]
    have hreplies : (σ.enqueueResponder r).replies = σ.replies := by
      simp [replies, Obs.reply?]
    rw [hanswers, hreplies]
    exact h.answered
  -- admitted: reads wait with the atomics, but are not counted
  · have hqueued : (σ.enqueueResponder r).queued = σ.queued := by
      simp [queued, Obs.queued?]
    have hwaiting : (σ.enqueueResponder r).waitingAtomics =
        σ.waitingAtomics ++ if r.tag.opcode = .read then [] else [r] := by
      simp only [waitingAtomics, enqueueResponder_responderWaiting, List.filter_append]
      split <;> simp_all
    rw [hqueued, hwaiting, harrivals, ← coe_add, ← coe_add, ← h.admitted, add_assoc]
  -- distinct: the responder is a new one
  · have hnew : r ∉ σ.arrivals := fun hr => absurd (h.fresh r hr) (by omega)
    rw [harrivals]
    split
    · rw [append_nil]
      exact h.distinct
    · refine List.nodup_append.mpr ⟨h.distinct, List.nodup_singleton r, ?_⟩
      intro a ha b hb
      rw [List.mem_singleton.mp hb]
      exact fun he => hnew (he ▸ ha)
  -- fresh
  · intro r' hr'
    rw [harrivals] at hr'
    show r'.serial < σ.nextResponder + 1
    rcases List.mem_append.mp hr' with hr' | hr'
    · exact Nat.lt_succ_of_lt (h.fresh r' hr')
    · split at hr'
      · cases hr'
      · rw [List.mem_singleton.mp hr', hserial]
        exact Nat.lt_succ_self _

theorem Serial.queueResponder (h : Serial memory none done due σ)
    (hrun : σ.queueResponder tag qp header = .ok σ') : Serial memory none done due σ' :=
  (h.enqueueResponder rfl).pumpRespondersLoop hrun

/-! ## The commit -/

theorem Serial.front (h : Serial memory (some r) none due σ) :
    ∃ rest, σ.atomics r.tag.word = r :: rest := by
  have hturn := h.turn r.tag.word
  have hmem : r ∈ ((σ.atomics r.tag.word).head?.toList : Multiset Responder) := by
    rw [← hturn]
    simp
  cases hq : σ.atomics r.tag.word with
  | nil => simp [hq] at hmem
  | cons r' rest =>
      simp only [hq, List.head?_cons, Option.toList_some, Multiset.mem_coe, List.mem_singleton] at hmem
      exact ⟨rest, by rw [hmem]⟩

theorem Serial.alone (h : Serial memory (some r) none due σ) {r' : Responder}
    (hr' : r' ∈ σ.running) : r'.tag.word ≠ r.tag.word := by
  intro hword
  have hcard := congrArg Multiset.card (h.turn r.tag.word)
  have hone : ((σ.atomics r.tag.word).head?.toList).length ≤ 1 := by
    cases σ.atomics r.tag.word <;> simp
  have hsplit : 1 ≤ (σ.running.filter fun s => s.tag.word = r.tag.word).card :=
    Multiset.card_pos_iff_exists_mem.mpr ⟨r', Multiset.mem_filter.mpr ⟨hr', hword⟩⟩
  simp only [Option.toList_some, Option.toList_none, coe_nil, add_zero,
    filter_add, coe_singleton, filter_singleton, if_true,
    Multiset.card_add, Multiset.card_singleton, Multiset.coe_card] at hcard
  omega

theorem mem_running_of_captured {p : Responder × UInt64 × UInt64} (hk : k ∈ σ.owed)
    (h : k.captured? = some p) : p.1 ∈ σ.running := by
  refine (Multiset.mem_filterMap _ _).mpr ⟨k, hk, ?_⟩
  cases k <;> first | (cases h; rfl) | cases h

/-- The memory write of a commit. The request has read the current value, so the history
of its word goes on with it. -/
theorem Serial.write (h : Serial memory (some r) none none σ) (halign : r.tag.word % 8 = 0)
    (hread : σ.OnlyAtomicsWrite r.tag.word → old = σ.word r.tag.word ∧ next = r.update old) :
    Serial memory none (some r) (r.answer? old)
      (record { σ with memory := poke σ.memory r.tag.word (wordBytes next) } (.executed r old next)) := by
  set σ₁ : Engine := record { σ with memory := poke σ.memory r.tag.word (wordBytes next) }
    (.executed r old next) with hσ₁
  have hlog : σ₁.log = σ.log ++ [.executed r old next] := rfl
  have hquiet : ∀ a, σ₁.OnlyAtomicsWrite a → σ.OnlyAtomicsWrite a := fun a ha => ha.of_append hlog
  have hqueuedAt : ∀ a, σ₁.queuedAt a = σ.queuedAt a := fun a => by
    simp [queuedAt, hlog, Obs.queuedAt?]
  have hexecutedAt : ∀ a, σ₁.executedAt a =
      σ.executedAt a ++ if r.tag.word = a then [(r, old)] else [] := fun a => by
    simp only [executedAt, hlog, filterMap_snoc, Obs.executedAt?]
    split <;> rfl
  have harrivals : σ₁.arrivals = σ.arrivals := by simp [arrivals, hlog, Obs.arrived?]
  have hword : σ₁.word r.tag.word = next := word_poke σ r.tag.word next
  have hword_ne : ∀ a, a % 8 = 0 → a ≠ r.tag.word → σ₁.word a = σ.word a :=
    fun a ha hne => word_poke_ne next hne ha halign
  refine ⟨?_, h.home, ?_, ?_, h.aligned, ?_, ?_, ?_, ?_, ?_, h.sourced⟩
  · intro a
    refine Eq.trans ?_ (h.turn a)
    rw [add_right_comm]
    rfl
  -- order
  · intro a
    obtain ⟨rest, hqueue, hqueued⟩ := h.order a
    simp only [Option.toList_none, List.filter_nil, List.nil_append] at hqueue
    rw [hqueuedAt, hexecutedAt]
    by_cases ha : r.tag.word = a
    -- the executed request is the front of this queue
    · subst ha
      obtain ⟨rest', hfront⟩ := h.front
      refine ⟨rest', ?_, ?_⟩
      · show σ.atomics r.tag.word = _
        simpa using hfront
      · rw [hqueued, ← hqueue, hfront]
        simp
    · refine ⟨rest, ?_, ?_⟩
      · show σ.atomics a = _
        simpa [ha] using hqueue
      · simpa [ha] using hqueued
  · intro k hk r' old' next' hcap hw
    have hne := h.alone (mem_running_of_captured hk hcap)
    rw [hword_ne _ (h.aligned k hk r' old' next' hcap) hne]
    exact h.captured k hk r' old' next' hcap (hquiet _ hw)
  -- legal: the request read the value that its word has
  · intro a haligned hw
    have hlegal := h.legal a haligned (hquiet a hw)
    rw [historyAt, hexecutedAt, List.map_append]
    by_cases ha : r.tag.word = a
    · subst ha
      obtain ⟨rfl, rfl⟩ := hread (hquiet _ hw)
      rw [hword, if_pos rfl, Responder.update_toNat]
      exact hlegal.snoc _
    · rw [hword_ne a haligned fun e => ha e.symm, if_neg ha, List.map_nil, append_nil]
      exact hlegal
  -- answered: the answer is due from here on
  · have hans := h.answered
    have howed : σ₁.owed = σ.owed := rfl
    have hreplies : σ₁.replies = σ.replies ++ (r.answer? old).toList := by
      simp only [replies, hlog, filterMap_snoc, Obs.reply?, Responder.answer?]
    have hanswers : σ₁.answers = σ.answers := by
      simp only [answers, howed, hlog, filterMap_snoc, Obs.answer?, Option.toList_none,
        append_nil]
    rw [hreplies, hanswers, ← coe_add, ← hans]
    simp
  · have hqueued : σ₁.queued = σ.queued := by simp [queued, hlog, Obs.queued?]
    rw [hqueued, harrivals]
    exact h.admitted
  · rw [harrivals]
    exact h.distinct
  · rw [harrivals]
    exact h.fresh

theorem Serial.answer (h : Serial memory none done (r.answer? old) σ)
    (hrun : σ.answerAtomic r old = .ok σ') : Serial memory none done none σ' := by
  unfold Engine.answerAtomic at hrun
  unfold Responder.answer? at h
  split at hrun
  · rename_i hop
    rw [if_pos hop] at h
    exact (h.keeps (keeps_acknowledge _ _ _)).finishResponder hrun
  · rename_i hop
    rw [if_neg hop] at h
    cases hrun
    have hpend : (σ.pend (.transmit (r.reply old))).running = σ.running := by
      simp [running, filterMap_add, Cont.atomic?]
    refine ⟨?_, h.home, h.order, ?_, ?_, h.legal, ?_, h.admitted, h.distinct, h.fresh, h.sourced⟩
    · rw [hpend]
      exact h.turn
    · intro k hk r' old' next' hcap
      rw [owed_pend, mem_add, mem_singleton] at hk
      rcases hk with hk | rfl
      · exact h.captured k hk r' old' next' hcap
      · cases hcap
    · intro k hk r' old' next' hcap
      rw [owed_pend, mem_add, mem_singleton] at hk
      rcases hk with hk | rfl
      · exact h.aligned k hk r' old' next' hcap
      · cases hcap
    · have hans := h.answered
      have hreply : (r.reply old).answers = true := rfl
      simp only [answers, owed_pend, filterMap_add, filterMap_singleton, Cont.answer?, hreply,
        if_true, pend_log, Option.toList_none, coe_nil, add_zero] at hans ⊢
      rw [add_right_comm]
      exact hans

/-- The queue moves on: the next request is taken up. -/
theorem Serial.advance (h : Serial memory none (some r) none σ)
    (hrun : σ.advanceAtomic r.tag.word = .ok σ') : Serial memory none none none σ' := by
  obtain ⟨rest, hqueue, hqueued⟩ := h.order r.tag.word
  simp only [Option.toList_some, List.filter_cons, decide_true, if_true, List.filter_nil,
    List.singleton_append] at hqueue
  have hturn := h.turn
  set σ₁ : Engine := { σ with atomics := Function.update σ.atomics r.tag.word rest } with hσ₁
  have hatomics : ∀ a, σ₁.atomics a = if a = r.tag.word then rest else σ.atomics a := fun a => by
    simp only [hσ₁, Function.update_apply]
  -- nothing else runs for this word, so the next request comes in hand
  have hnext : Serial memory rest.head? none none σ₁ := by
    refine ⟨?_, ?_, ?_, h.captured, h.aligned, h.legal, h.answered, h.admitted, h.distinct, h.fresh,
      h.sourced⟩
    · intro a
      have ha := hturn a
      rw [hatomics]
      show (σ.running + _ + _).filter _ = _
      simp only [Option.toList_none, Option.toList_some, coe_nil, add_zero, filter_add,
        coe_singleton, filter_singleton] at ha ⊢
      by_cases hw : a = r.tag.word
      · subst hw
        rw [hqueue] at ha
        simp only [if_true, List.head?_cons, Option.toList_some, coe_singleton] at ha
        have hnone : σ.running.filter (fun s => s.tag.word = r.tag.word) = 0 := by
          simpa using ha
        rw [hnone, if_pos rfl, zero_add]
        refine Multiset.filter_eq_self.mpr fun s hs => ?_
        refine h.home r.tag.word s ?_
        rw [hqueue]
        exact List.mem_cons_of_mem _ (List.mem_of_head? (by simpa using hs))
      · have hne : ¬ r.tag.word = a := fun e => hw e.symm
        rw [if_neg hne, Multiset.empty_eq_zero, add_zero] at ha
        rw [if_neg hw, ← ha]
        have hnone : (rest.head?.toList : Multiset Responder).filter (fun s => s.tag.word = a) = 0 := by
          refine Multiset.filter_eq_nil.mpr fun s hs hsa => hw ?_
          rw [← hsa]
          refine h.home r.tag.word s ?_
          rw [hqueue]
          exact List.mem_cons_of_mem _ (List.mem_of_head? (by simpa using hs))
        rw [hnone, add_zero]
    · intro a s hs
      rw [hatomics] at hs
      split at hs
      · rename_i hw
        rw [hw]
        exact h.home _ s (by rw [hqueue]; exact List.mem_cons_of_mem _ hs)
      · exact h.home a s hs
    · intro a
      rw [hatomics]
      by_cases hw : a = r.tag.word
      · subst hw
        exact ⟨rest, by simp, hqueued⟩
      · obtain ⟨rest', hq, hqd⟩ := h.order a
        have hne : ¬ r.tag.word = a := fun e => hw e.symm
        exact ⟨rest', by simpa [hw, hne] using hq, hqd⟩
  unfold Engine.advanceAtomic at hrun
  rw [hqueue] at hrun
  dsimp only at hrun
  cases rest with
  | nil =>
      cases hrun
      exact hnext
  | cons r' rest => exact hnext.runAtomic hrun

theorem Serial.commit (h : Serial memory (some r) none none σ)
    (hread : σ.OnlyAtomicsWrite r.tag.word → old = σ.word r.tag.word ∧ next = r.update old)
    (hrun : σ.commitAtomic r old next = .ok σ') : Serial memory none none none σ' := by
  obtain ⟨σ₁, hwrite, hrun⟩ := bind_eq_ok.mp hrun
  obtain ⟨σ₂, hanswer, hadvance⟩ := bind_eq_ok.mp hrun
  unfold commitWord at hwrite
  split at hwrite
  · cases hwrite
  · rename_i halign
    split at hwrite
    · have hσ₁ := (h.write (by omega) hread).keeps (keeps_checkWaits hwrite)
      exact (hσ₁.answer hanswer).advance hadvance
    · cases hwrite

theorem Serial.execute (h : Serial memory (some r) none none σ)
    (hrun : σ.executeAtomic r = .ok σ') : Serial memory none none none σ' := by
  obtain ⟨old, hold, hrun⟩ := bind_eq_ok.mp hrun
  obtain ⟨rfl, halign⟩ := readWord_ok hold
  split at hrun
  · obtain ⟨⟨p, s, q, heq⟩, howed⟩ := acquireReceiveStaging_ok hrun
    refine h.carry rfl (by rw [heq]; rfl) howed ?_
    intro r' old next hcap
    cases hcap
    exact ⟨halign, fun _ => ⟨rfl, rfl⟩⟩
  · exact h.commit (fun _ => ⟨rfl, rfl⟩) hrun

/-! ## One action -/

theorem keeps_pop (hi : σ.pending[i]? = some k) (hk : k.plain) :
    KeepsAtomics σ { σ with pending := σ.pending.eraseIdx i } := by
  have howed := owed_pop hi
  have hcarried : ({k} : Multiset Cont).filter (fun k => k.atomic?.isSome) = 0 :=
    Multiset.filter_eq_nil.mpr (by simp [hk.1])
  refine .mk rfl id ?_ ?_ ⟨[], by simp, by simp, fun _ _ => rfl⟩
  · rw [Engine.carried, Engine.carried, ← howed, filter_add, hcarried, add_zero]
  · rw [Engine.answers, Engine.answers, ← howed, filterMap_add, filterMap_singleton, hk.2]
    simp

theorem keeps_send {t : Transmission} (hi : σ.pending[i]? = some (.transmit t)) :
    KeepsAtomics σ (transmit { σ with pending := σ.pending.eraseIdx i } t) := by
  have howed := owed_pop hi
  set σ₁ : Engine := { σ with pending := σ.pending.eraseIdx i } with hσ₁
  refine .mk rfl id ?_ ?_ ⟨[.transmitted t], rfl, by simp [Obs.moves], fun _ _ => rfl⟩
  · show σ₁.carried = σ.carried
    have hnone : ({Cont.transmit t} : Multiset Cont).filter (fun k => k.atomic?.isSome) = 0 :=
      Multiset.filter_eq_nil.mpr (by simp [Cont.atomic?])
    rw [Engine.carried, Engine.carried, ← howed, filter_add, hnone, add_zero]
  · show σ₁.owed.filterMap Cont.answer? +
      ((σ.log ++ [Obs.transmitted t]).filterMap Obs.answer? : List Transmission) = _
    rw [answers, ← howed, filterMap_add, filterMap_singleton, filterMap_snoc,
      ← coe_add]
    simp only [Cont.answer?, Obs.answer?]
    ac_rfl

/-- The four things an action can be for the queues: nothing, a delivered request, a
responder that is freed, or a closure that carries an atomic. -/
inductive Effect (σ σ' : Engine) : Prop
  | beside : KeepsAtomics σ σ' → Effect σ σ'
  | request {σ₁ : Engine} {tag : Tag} {qp : Nat} {header : Header} : KeepsAtomics σ σ₁ →
      σ₁.queueResponder tag qp header = .ok σ' → Effect σ σ'
  | finish {σ₁ σ₂ : Engine} {key : Key} : KeepsAtomics σ σ₁ → σ₁.finishResponder key = .ok σ₂ →
      KeepsAtomics σ₂ σ' → Effect σ σ'
  | carry {i : Nat} {k : Cont} {r : Responder} : σ.pending[i]? = some k → k.atomic? = some r →
      run { σ with pending := σ.pending.eraseIdx i } k = .ok σ' → Effect σ σ'

theorem effect_settleSent (hrun : σ.settleSent header = .ok σ') (hrest : KeepsAtomics σ' σ'')
    : Effect σ σ'' := by
  unfold settleSent at hrun
  split at hrun
  · cases hrun
    exact .beside hrest
  · unfold responseAcknowledged at hrun
    split at hrun
    · split at hrun
      · cases hrun
        exact .beside (KeepsAtomics.trans (.of_view (by rfl)) hrest)
      · dsimp only at hrun
        split at hrun
        · exact .finish (.of_view (by rfl)) hrun hrest
        · cases hrun
          exact .beside (KeepsAtomics.trans (.of_view (by rfl)) hrest)
    · cases hrun
      exact .beside (KeepsAtomics.trans (.of_view (by rfl)) hrest)

theorem effect_fire (hsrc : σ.Sourced) (hi : σ.pending[i]? = some k)
    (hrun : run { σ with pending := σ.pending.eraseIdx i } k = .ok σ') : Effect σ σ' := by
  cases k with
  | enqueueReceive r =>
      cases hrun
      exact .beside ((keeps_pop hi ⟨rfl, rfl⟩).trans (.of_view rfl))
  | completeReceive | signalled =>
      cases hrun
      exact .beside ((keeps_pop hi ⟨rfl, rfl⟩).trans (keeps_record _ trivial))
  | allocated key i => exact .beside ((keeps_pop hi ⟨rfl, rfl⟩).trans (keeps_stagingAllocated hrun))
  | destinationWritten key i p =>
      exact .beside ((keeps_pop hi ⟨rfl, rfl⟩).trans (keeps_destinationWritten hrun))
  | destinationCopied key i p =>
      exact .beside ((keeps_pop hi ⟨rfl, rfl⟩).trans (keeps_destinationCopied hrun))
  | retry id =>
      have hpop := keeps_pop hi ⟨rfl, rfl⟩
      exact .beside (hpop.trans (keeps_retry (hpop.sourced hsrc) hrun))
  | transmit t =>
      cases hrun
      exact .beside (keeps_send hi)
  | readStaged r =>
      cases hrun
      exact .beside ((keeps_pop hi ⟨rfl, rfl⟩).trans (keeps_pend _ ⟨rfl, rfl⟩))
  | readServed r =>
      exact .beside ((keeps_pop hi ⟨rfl, rfl⟩).trans (keeps_sendPayload hrun (by simp)))
  | foreign =>
      cases hrun
      exact .beside (keeps_pop hi ⟨rfl, rfl⟩)
  | _ => exact .carry hi rfl hrun

theorem effect_exec {a : Act} (hsrc : σ.Sourced) (hrun : σ.exec a = .ok σ') : Effect σ σ' := by
  cases a with
  | registerMemory address bytes key => exact .beside (keeps_registerMemory hrun)
  | unregisterMemory key => exact .beside (keeps_unregisterMemory hrun)
  | writeMemory address data => exact .beside (keeps_writeMemory hrun)
  | waitSignal address comparison value => exact .beside (keeps_waitSignal hrun)
  | cancelSignalWait id =>
      cases hrun
      exact .beside (.of_view rfl)
  | postReceive id address bytes peer qp key armed => exact .beside (keeps_postReceive hrun)
  | execute request timing succeeded => exact .beside (keeps_execute hrun)
  | completeRequest requestId =>
      cases hrun
      exact .beside (keeps_completeRequest _ _)
  | packetSent header tag =>
      cases hrun
      exact .beside (keeps_packetSent _ _ _)
  | packetAcknowledged header tag =>
      obtain ⟨σ₁, hsettle, hrun⟩ := bind_eq_ok.mp hrun
      cases tag with
      | none =>
          cases hrun
          exact effect_settleSent hsettle (.refl _)
      | some tag =>
          cases hrun
          exact effect_settleSent hsettle (keeps_sourceAcknowledged _ _)
  | permanentLoss header =>
      cases hrun
      exact .beside (keeps_permanentLoss _ _)
  | receive p qp =>
      simp only [Engine.exec, Engine.receive] at hrun
      split at hrun
      · split at hrun
        · cases hrun
          exact .beside (keeps_acknowledge _ _ _)
        · split at hrun
          · exact .request (keeps_record _ (by trivial)) hrun
          · exact .request (keeps_acknowledge _ _ _) hrun
      · exact .beside (keeps_acceptData hrun)
  | stageSource bytes =>
      have hspec := stageSourcePayload_ok hrun
      exact .beside
        (hspec.1.keepsAtomics hspec.2 (by simp [Cont.plain, Cont.atomic?, Cont.answer?]))
  | releaseSource bytes => exact .beside (keeps_releaseSourceStaging hrun)
  | acquireReceive bytes => exact .beside (keeps_acquireReceiveStaging ⟨rfl, rfl⟩ hrun)
  | releaseReceive bytes => exact .beside (keeps_releaseReceiveStaging hrun)
  | fire i =>
      simp only [Engine.exec] at hrun
      split at hrun
      · rename_i k hi
        exact effect_fire hsrc hi hrun
      · cases hrun
        exact .beside (.refl σ)

/-! ## Runs -/

theorem Serial.fire (h : Serial memory none none none σ) (hi : σ.pending[i]? = some k)
    (hk : k.atomic? = some r) (hrun : run { σ with pending := σ.pending.eraseIdx i } k = .ok σ') :
    Serial memory none none none σ' := by
  have howed := owed_pop hi
  have hpop : Serial memory (some r) none none { σ with pending := σ.pending.eraseIdx i } :=
    h.take hk rfl howed
  have hmem : k ∈ σ.owed := by
    rw [← howed]
    exact Multiset.mem_add.mpr (.inr (Multiset.mem_singleton_self k))
  cases k with
  | atomicStaged r =>
      cases hrun
      cases hk
      unfold atomicRun
      split
      · exact hpop.carry rfl rfl (owed_pend _ _) (fun _ _ _ hcap => by cases hcap)
      · exact hpop.carry rfl rfl (owed_pend _ _) (fun _ _ _ hcap => by cases hcap)
  | atomicRead | atomicServed =>
      cases hrun
      cases hk
      exact hpop.carry rfl rfl (owed_pend _ _) (fun _ _ _ hcap => by cases hcap)
  | atomicExecute r =>
      cases hk
      exact hpop.execute hrun
  | atomicAcquired r old next =>
      cases hrun
      cases hk
      refine hpop.carry rfl rfl (owed_pend _ _) ?_
      intro r' old' next' hcap
      cases hcap
      exact ⟨h.aligned _ hmem r old next rfl, h.captured _ hmem r old next rfl⟩
  | atomicCopied r old next =>
      cases hk
      obtain ⟨σ₁, hrelease, hcommit⟩ := bind_eq_ok.mp hrun
      obtain ⟨⟨p, s, q, heq⟩, -⟩ := releaseReceiveStaging_ok hrelease
      refine (hpop.keeps (keeps_releaseReceiveStaging hrelease)).commit ?_ hcommit
      rw [heq]
      exact h.captured _ hmem r old next rfl
  | _ => cases hk

theorem Serial.step {a : Act} (h : Serial memory none none none σ) (hrun : σ.exec a = .ok σ') :
    Serial memory none none none σ' := by
  cases effect_exec h.sourced hrun with
  | beside hkeeps => exact h.keeps hkeeps
  | request hkeeps hqueue => exact (h.keeps hkeeps).queueResponder hqueue
  | finish hkeeps hfinish hrest => exact ((h.keeps hkeeps).finishResponder hfinish).keeps hrest
  | carry hi hk hrun => exact h.fire hi hk hrun

theorem Serial.initial {rank : Nat} {limit : Option (Nat → Nat)} :
    Serial memory none none none { Engine.idle c rank with memory, payloadLimit := limit } := by
  refine ⟨?_, ?_, ?_, ?_, ?_, ?_, ?_, ?_, ?_, ?_, ?_⟩
  · intro a
    rfl
  · intro a r hr
    cases hr
  · intro a
    exact ⟨[], rfl, rfl⟩
  · intro k hk
    exact absurd hk (Multiset.notMem_zero k)
  · intro k hk
    exact absurd hk (Multiset.notMem_zero k)
  · intro a _ _
    rfl
  · rfl
  · rfl
  · exact List.nodup_nil
  · intro r hr
    cases hr
  · intro e he
    cases he

theorem serial_invariant (memory : Nat → Option UInt8) :
    (engineMachine memory).Invariant (Serial memory none none none) := by
  apply Machine.Inductive.invariant
  constructor
  · rintro σ ⟨c, rank, limit, -, rfl⟩
    exact Serial.initial
  · intro σ a σ' h _ hrun
    exact h.step hrun

/-! ## No request is left behind -/

/-- Requests wait only while every responder is taken. -/
def Saturated (σ : Engine) : Prop :=
  0 < σ.config.responderDepth ∧
    (σ.responderWaiting = [] ∨ σ.config.responderDepth ≤ σ.activeResponses)

/-- The fields that decide whether a request waits. -/
def poolFields (σ : Engine) : Config × List Responder × Nat :=
  (σ.config, σ.responderWaiting, σ.activeResponses)

theorem Saturated.of_fields (h : σ.Saturated) (hf : σ'.poolFields = σ.poolFields) : σ'.Saturated := by
  simp only [poolFields, Prod.mk.injEq] at hf
  obtain ⟨hc, hw, ha⟩ := hf
  rw [Saturated, hc, hw, ha]
  exact h

theorem KeepsAtomics.poolFields (h : KeepsAtomics σ σ') : σ'.poolFields = σ.poolFields := by
  have hf := h.fields
  simp only [atomicFields, Prod.mk.injEq] at hf
  simp only [Engine.poolFields, hf]

theorem Rescheduled.poolFields (h : Rescheduled σ σ') : σ'.poolFields = σ.poolFields := by
  obtain ⟨p, s, r, rfl⟩ := h
  rfl

theorem poolFields_runAtomic (h : σ.runAtomic r = .ok σ') : σ'.poolFields = σ.poolFields := by
  unfold runAtomic at h
  split at h
  · exact (stageSourcePayload_ok h).1.poolFields
  · cases h
    unfold atomicRun
    split <;> rfl

theorem poolFields_startResponder (h : σ.startResponder r = .ok σ') : σ'.poolFields = σ.poolFields := by
  unfold startResponder at h
  split at h
  · split at h
    · exact (stageSourcePayload_ok h).1.poolFields
    · cases h
      rfl
  · dsimp only at h
    split at h
    · have hrun := poolFields_runAtomic h
      exact hrun
    · cases h
      rfl

theorem poolFields_advanceAtomic (h : σ.advanceAtomic address = .ok σ') :
    σ'.poolFields = σ.poolFields := by
  unfold advanceAtomic at h
  split at h
  · cases h
  · dsimp only at h
    split at h
    · cases h
      rfl
    · have hrun := poolFields_runAtomic h
      exact hrun

theorem saturated_pumpRespondersLoop (hpos : 0 < σ.config.responderDepth)
    (hfuel : σ.responderWaiting.length ≤ fuel) (hrun : pumpRespondersLoop fuel σ = .ok σ') :
    σ'.Saturated := by
  induction fuel generalizing σ with
  | zero =>
      cases hrun
      exact ⟨hpos, .inl (List.length_eq_zero_iff.mp (Nat.le_zero.mp hfuel))⟩
  | succ fuel ih =>
      simp only [pumpRespondersLoop] at hrun
      split at hrun
      · rename_i hw
        cases hrun
        exact ⟨hpos, .inl hw⟩
      · rename_i r rest hw
        split at hrun
        · obtain ⟨σ₁, hstart, hrest⟩ := bind_eq_ok.mp hrun
          have hf := poolFields_startResponder hstart
          simp only [poolFields, Prod.mk.injEq, activate_config, activate_responderWaiting] at hf
          refine ih (by rw [hf.1]; exact hpos) ?_ hrest
          rw [hw, List.length_cons] at hfuel
          rw [hf.2.1]
          omega
        · rename_i hfull
          cases hrun
          exact ⟨hpos, .inr (by omega)⟩

theorem Saturated.finishResponder (h : σ.Saturated) (hrun : σ.finishResponder key = .ok σ')
    : σ'.Saturated := by
  unfold Engine.finishResponder at hrun
  split at hrun
  · cases hrun
    exact h
  · obtain ⟨σ₁, hrelease, hpump⟩ := bind_eq_ok.mp hrun
    have hf : σ₁.poolFields = σ.poolFields := by
      unfold unstageResponder at hrelease
      split at hrelease
      · exact (releaseSourceStaging_ok hrelease).1.poolFields
      · cases hrelease
        rfl
    refine saturated_pumpRespondersLoop ?_ le_rfl hpump
    exact (h.of_fields hf).1

theorem Saturated.commit (h : σ.Saturated) (hrun : σ.commitAtomic r old next = .ok σ')
    : σ'.Saturated := by
  obtain ⟨σ₁, hwrite, hrun⟩ := bind_eq_ok.mp hrun
  obtain ⟨σ₂, hanswer, hadvance⟩ := bind_eq_ok.mp hrun
  obtain ⟨waits, ks, rfl, -, -⟩ := commitWord_ok hwrite
  have hσ₁ : Saturated { σ with
      waits := waits
      pending := σ.pending ++ ks
      memory := poke σ.memory r.tag.word (wordBytes next)
      log := σ.log ++ [.executed r old next] } := h.of_fields rfl
  have hσ₂ : σ₂.Saturated := by
    unfold answerAtomic at hanswer
    split at hanswer
    · exact (hσ₁.of_fields (keeps_acknowledge _ _ _).poolFields).finishResponder hanswer
    · cases hanswer
      exact hσ₁.of_fields rfl
  exact hσ₂.of_fields (poolFields_advanceAtomic hadvance)

theorem Saturated.step {a : Act} (hsrc : σ.Sourced) (h : σ.Saturated)
    (hrun : σ.exec a = .ok σ') : σ'.Saturated := by
  cases effect_exec hsrc hrun with
  | beside hkeeps => exact h.of_fields hkeeps.poolFields
  | request hkeeps hqueue =>
      refine saturated_pumpRespondersLoop ?_ le_rfl hqueue
      exact (h.of_fields hkeeps.poolFields).1
  | finish hkeeps hfinish hrest =>
      exact ((h.of_fields hkeeps.poolFields).finishResponder hfinish).of_fields hrest.poolFields
  | @carry i k r hi hk hrun =>
      cases k with
      | atomicStaged r =>
          cases hrun
          unfold atomicRun
          split
          · exact h.of_fields rfl
          · exact h.of_fields rfl
      | atomicExecute r =>
          obtain ⟨old, -, hrun⟩ := bind_eq_ok.mp hrun
          split at hrun
          · exact h.of_fields (acquireReceiveStaging_ok hrun).1.poolFields
          · refine Saturated.commit ?_ hrun
            exact h.of_fields rfl
      | atomicCopied r old next =>
          obtain ⟨σ₁, hrelease, hcommit⟩ := bind_eq_ok.mp hrun
          exact (h.of_fields (releaseReceiveStaging_ok hrelease).1.poolFields).commit hcommit
      | atomicRead r | atomicServed r | atomicAcquired r old next =>
          cases hrun
          exact h.of_fields rfl
      | _ => cases hk

theorem Config.responderDepth_pos (h : c.validate = .ok ()) : 0 < c.responderDepth := by
  unfold Config.validate at h
  split at h
  · cases h
  · rename_i hlimits
    simp only [Bool.or_eq_true, beq_iff_eq, decide_eq_true_eq, not_or] at hlimits
    omega

theorem saturated_invariant (memory : Nat → Option UInt8) :
    (engineMachine memory).Invariant Saturated := by
  refine Machine.Invariant.strengthen (serial_invariant memory) ?_ ?_
  · rintro σ ⟨c, rank, limit, hc, rfl⟩
    exact ⟨Config.responderDepth_pos hc, .inl rfl⟩
  · intro σ a σ' hserial h _ hrun
    exact h.step hserial.sourced hrun

theorem Serial.atomics_nil (h : Serial memory none none none σ) (howed : σ.owed = 0) (a : Nat) :
    σ.atomics a = [] := by
  have hturn := h.turn a
  rw [running, howed] at hturn
  cases hq : σ.atomics a with
  | nil => rfl
  | cons r rest => simp [hq] at hturn

theorem Serial.executed_of_idle (h : Serial memory none none none σ) (hsat : σ.Saturated)
    (howed : σ.owed = 0) (hactive : σ.activeResponses = 0) (hr : r ∈ σ.arrivals) :
    r ∈ (σ.executedAt r.tag.word).map Prod.fst := by
  have hwaiting : σ.responderWaiting = [] := hsat.2.resolve_right (by have := hsat.1; omega)
  have hadmitted := h.admitted
  rw [waitingAtomics, hwaiting, List.filter_nil, coe_nil, add_zero, Multiset.coe_eq_coe]
    at hadmitted
  have hqueued : r ∈ σ.queuedAt r.tag.word := by
    obtain ⟨e, he, heq⟩ := List.mem_filterMap.mp (hadmitted.mem_iff.mpr hr)
    refine List.mem_filterMap.mpr ⟨e, he, ?_⟩
    cases e <;> simp_all [Obs.queued?, Obs.queuedAt?]
  obtain ⟨rest, hqueue, horder⟩ := h.order r.tag.word
  rw [h.atomics_nil howed] at hqueue
  have hrest : rest = [] := by simpa using hqueue.symm
  rwa [horder, hrest, append_nil] at hqueued

theorem Serial.queuedAt_nodup (h : Serial memory none none none σ) (a : Nat) :
    (σ.queuedAt a).Nodup := by
  have hsub : σ.queuedAt a = σ.queued.filter fun r => r.tag.word = a := by
    rw [queuedAt, queued, List.filter_filterMap]
    congr 1
    funext e
    cases e <;> simp [Obs.queuedAt?, Obs.queued?, Option.filter]
  have hle : (σ.queued : Multiset Responder) ≤ σ.arrivals := by
    rw [← h.admitted]
    exact Multiset.le_add_right _ _
  have hqueued : σ.queued.Nodup := Multiset.coe_nodup.mp (Multiset.nodup_of_le hle h.distinct)
  rw [hsub]
  exact hqueued.filter _

/-- **Atomics are linearizable per word.** On a word that only atomics write, requests are
executed in the order of their queue, each at most once; every one found the value the
earlier ones left, starting from the initial memory, and the word holds the result of all of
them; every atomic is answered exactly once, with the value it found; and once no closure is
owed and no responder is active, every delivered request was executed. -/
theorem atomics_linearizable (hreach : (engineMachine memory).Reachable σ) {a : Nat}
    (ha : a % 8 = 0) (honly : σ.OnlyAtomicsWrite a) :
    σ.queuedAt a = (σ.executedAt a).map Prod.fst ++ σ.atomics a ∧
    ((σ.executedAt a).map Prod.fst).Nodup ∧
    Legal WordOp.apply (initialWord memory a).toNat (σ.historyAt a) (σ.word a).toNat ∧
    σ.answers = σ.replies ∧
    (σ.owed = 0 → σ.activeResponses = 0 → ∀ r ∈ σ.arrivals, r.tag.word = a →
      r ∈ (σ.executedAt a).map Prod.fst) := by
  have h := serial_invariant memory σ hreach
  obtain ⟨rest, hqueue, horder⟩ := h.order a
  have hrest : σ.atomics a = rest := by simpa using hqueue
  refine ⟨?_, ?_, h.legal a ha honly, ?_, ?_⟩
  · rw [horder, hrest]
  · have hnodup := h.queuedAt_nodup a
    rw [horder] at hnodup
    exact (List.nodup_append.mp hnodup).1
  · simpa using h.answered
  · rintro howed hactive r hr rfl
    exact h.executed_of_idle (saturated_invariant memory σ hreach) howed hactive hr

/-- The event stores nothing to the word. -/
def spares (address : Nat) : Obs → Bool
  | .stored base bytes => base + bytes ≤ address || address + 8 ≤ base
  | _ => true

theorem onlyAtomicsWrite_of_spares (h : σ.log.all (spares a) = true) : σ.OnlyAtomicsWrite a := by
  intro e he x hlo hhi htouch
  have hspare := List.all_eq_true.mp h e he
  cases e with
  | stored base bytes =>
      simp only [spares, Bool.or_eq_true, decide_eq_true_eq] at hspare
      obtain ⟨hle, hlt⟩ := htouch
      omega
  | _ => exact htouch

/-- A fetch-add of one peer and a signal of another meet on a word of a staged target. -/
def sharedWordRun : List Act :=
  let add : Tag := { opcode := .fetchAdd, phase := .request, owner := 1, workId := 1, bytes := 8, operand := 5 }
  let signal : Tag :=
    { opcode := .signal, phase := .request, owner := 2, workId := 1, bytes := 8, signalOp := .add
      signalValue := 7 }
  [.registerMemory 0 64 1, .receive ⟨[], { sourceRank := 1 }, add⟩ 0,
    .receive ⟨[], { sourceRank := 2 }, signal⟩ 0] ++ List.replicate 14 (.fire 0) ++
  [.packetSent { destRank := 1, sequenceNumber := 9, effectiveDataSize := 8 }
      { add with phase := .atomicResponse },
    .packetAcknowledged { sourceRank := 1, sequenceNumber := 9 } none]

/-- Both take effect on a zero word: the signal finds what the fetch-add left. -/
theorem atomics_linearizable_sharedWord :
    ∃ σ, (engineMachine fun _ => none).Reachable σ ∧ σ.OnlyAtomicsWrite 0 ∧
      σ.historyAt 0 = [(.fetchAdd 5, 0), (.signalAdd 7, 5)] ∧
      Legal WordOp.apply 0 (σ.historyAt 0) 12 := by
  have hrun : ((engineMachine fun _ => none).runs
      (Engine.idle { dataPath := .staged, pcieModel := .tlp } 0) sharedWordRun).map
        (fun σ => (σ.log.all (spares 0), σ.historyAt 0, σ.word 0)) =
      some (true, [(.fetchAdd 5, 0), (.signalAdd 7, 5)], 12) := by decide +kernel
  have hinit : (engineMachine fun _ => none).init
      (Engine.idle { dataPath := .staged, pcieModel := .tlp } 0) := ⟨_, 0, none, by decide, rfl⟩
  obtain ⟨σ, hreach, hσ⟩ := Machine.Reachable.exists_of_runs hinit hrun
  simp only [Prod.mk.injEq] at hσ
  have honly := onlyAtomicsWrite_of_spares hσ.1
  have hlegal := (atomics_linearizable hreach rfl honly).2.2.1
  rw [hσ.2.2] at hlegal
  exact ⟨σ, hreach, honly, hσ.2.1, hlegal⟩

end Engine

end ProtoBridge.Rdma
