import ProtoBridge.Endpoint.LlrFate

/-!
# What a retry manager is given and gives back

The history of a manager only grows, and what is stored in it is what it was called with. A
packet that it gives back for a retransmission is one that was stored.
-/

namespace ProtoBridge.Endpoint

open Lib

namespace LlrManager

variable {cfg : LlrConfig} {σ σ' : LlrManager} {key : RetryKey} {Q : RetryKey → Packet → Prop}
  {onLoss : LossCallback}

/-- The history goes on, and whatever is stored in what is new is `Q`. -/
def Grows (Q : RetryKey → Packet → Prop) (σ σ' : LlrManager) : Prop :=
  ∃ tail, σ'.log = σ.log ++ tail ∧ ∀ key packet, .stored key packet ∈ tail → Q key packet

theorem Grows.frame (hlog : σ'.log = σ.log) : Grows Q σ σ' := by
  refine ⟨[], ?_, ?_⟩
  · rw [hlog, List.append_nil]
  · intro key packet mem
    cases mem

theorem Grows.one {e : LlrObs} (hlog : σ'.log = σ.log ++ [e])
    (he : ∀ key packet, e = .stored key packet → Q key packet) : Grows Q σ σ' := by
  refine ⟨[e], hlog, ?_⟩
  intro key packet mem
  exact he key packet (List.mem_singleton.mp mem).symm

theorem Grows.trans {σ'' : LlrManager} (h : Grows Q σ σ') (h' : Grows Q σ' σ'') :
    Grows Q σ σ'' := by
  obtain ⟨tail, hlog, hall⟩ := h
  obtain ⟨tail', hlog', hall'⟩ := h'
  refine ⟨tail ++ tail', ?_, ?_⟩
  · rw [hlog', hlog, List.append_assoc]
  · intro key packet mem
    rcases List.mem_append.mp mem with mem | mem
    · exact hall key packet mem
    · exact hall' key packet mem

theorem Grows.mem {e : LlrObs} (h : Grows Q σ σ') (mem : e ∈ σ.log) : e ∈ σ'.log := by
  obtain ⟨tail, hlog, -⟩ := h
  rw [hlog]
  exact List.mem_append_left tail mem

theorem Grows.foldl {α : Type} {f : LlrManager → α → LlrManager} {as : List α}
    (h : ∀ σ, ∀ a ∈ as, Grows Q σ (f σ a)) (σ : LlrManager) : Grows Q σ (as.foldl f σ) := by
  induction as generalizing σ with
  | nil => exact .frame rfl
  | cons a as ih =>
      apply (h σ a List.mem_cons_self).trans
      exact ih (fun σ b mem => h σ b (List.mem_cons_of_mem a mem)) (f σ a)

theorem grows_enforceBufferLimit (σ : LlrManager) (fuel : Nat) :
    Grows Q σ (enforceBufferLimit cfg fuel σ) := by
  induction fuel generalizing σ with
  | zero => exact .frame rfl
  | succ fuel ih =>
      rw [enforceBufferLimit]
      split
      · exact .frame rfl
      · split
        · split
          · split
            · exact .frame rfl
            · exact Grows.trans (.one rfl fun _ _ none => by cases none) (ih _)
          · exact .frame rfl
        · exact .frame rfl

theorem grows_storePacket {c : StoreCall} (hQ : Q c.key c.packet) :
    Grows Q σ (σ.storePacket cfg c).1 := by
  let σ₁ := (storeSource { σ with log := σ.log ++ [.stored c.key c.packet] } c).rearm cfg c.key
  have h₁ : Grows Q σ σ₁ := by
    apply Grows.one log_storeSource
    rintro key packet ⟨⟩
    exact hQ
  apply h₁.trans
  show Grows Q σ₁ (σ₁.storeCopy cfg c).1
  rw [storeCopy]
  dsimp only
  split
  · split
    · exact .one rfl fun _ _ none => by cases none
    · exact grows_enforceBufferLimit { σ₁ with retryBuffer := σ₁.retryBuffer.erase c.key } _
  · exact .frame rfl

theorem grows_arm : Grows Q σ (σ.armRetryTimeoutAtTransmission cfg key) := by
  rw [armRetryTimeoutAtTransmission]
  split
  · exact .frame rfl
  · split
    · exact .frame rfl
    · exact .frame rfl

theorem grows_removePacket : Grows Q σ (σ.removePacket key).1 := by
  rw [removePacket]
  dsimp only
  split
  · exact .one rfl fun _ _ none => by cases none
  · exact .frame rfl

theorem grows_removePacketsUpTo : Grows Q σ (σ.removePacketsUpTo key) := by
  apply Grows.foldl
  intro σ k _
  exact .one rfl fun _ _ none => by cases none

theorem grows_removeSackedPackets {ackedSeqNums : List UInt32} {destRank flowId : UInt16}
    {vcId : UInt8} : Grows Q σ (σ.removeSackedPackets ackedSeqNums destRank flowId vcId) := by
  apply Grows.foldl
  intro σ k _
  exact grows_removePacket

/-- Whatever the one who is told of a loss stores is `Q`. -/
def StoresOnly (Q : RetryKey → Packet → Prop) (onLoss : LossCallback) : Prop :=
  ∀ key lostHdr c, .storePacket c ∈ onLoss key lostHdr → Q c.key c.packet

theorem grows_callBack {call : LossCall} (hQ : ∀ c, call = .storePacket c → Q c.key c.packet) :
    Grows Q σ (callBack cfg σ call) := by
  cases call with
  | storePacket c => exact grows_storePacket (hQ c rfl)
  | armRetryTimeoutAtTransmission key => exact grows_arm
  | removePacket key => exact grows_removePacket
  | removePacketsUpTo upTo => exact grows_removePacketsUpTo
  | removeSackedPackets ackedSeqNums destRank flowId vcId => exact grows_removeSackedPackets

theorem grows_giveUp {lostHdr : FabricHeader} (stores : StoresOnly Q onLoss) :
    Grows Q σ (σ.giveUp cfg onLoss key lostHdr) := by
  let σ₁ : LlrManager := { σ.removeOutstandingPacket key with
    log := σ.log ++ [.lost key lostHdr]
    stats := { σ.stats with permanentLossCount := σ.stats.permanentLossCount + 1 } }
  have noted : Grows Q σ σ₁ := .one rfl fun _ _ none => by cases none
  apply noted.trans
  show Grows Q σ₁ ((onLoss key lostHdr).foldl (callBack cfg) σ₁)
  apply Grows.foldl
  intro σ call mem
  apply grows_callBack
  rintro c rfl
  exact stores key lostHdr c mem

theorem grows_answerRequest (cfg : LlrConfig) (σ : LlrManager) (key : RetryKey)
    (source : SourceEntry) (delay : Nat) (stores : StoresOnly Q onLoss) :
    Grows Q σ (σ.answerRequest cfg onLoss key source delay).1 ∧
      ∀ r ∈ (σ.answerRequest cfg onLoss key source delay).2,
        .retransmitted key r ∈ (σ.answerRequest cfg onLoss key source delay).1.log := by
  rw [answerRequest]
  dsimp only
  split
  · refine ⟨Grows.trans (.frame rfl) (grows_giveUp stores), ?_⟩
    intro r none
    cases none
  · let σ₁ : LlrManager := { σ with
      sourceStore := σ.sourceStore.update key fun _ =>
        { source with retryCount := source.retryCount + 1 } }
    let counted : SourceEntry := { source with retryCount := source.retryCount + 1 }
    obtain ⟨-, -, hlog⟩ := frame_fetchCopy cfg σ₁ key counted delay
    refine ⟨.one (e := .retransmitted key (fetchCopy cfg σ₁ key counted delay).2) ?_ ?_, ?_⟩
    · show (fetchCopy cfg σ₁ key counted delay).1.log ++ _ = _
      rw [hlog]
    · intro _ _ none
      cases none
    · intro r same
      obtain rfl := Option.mem_some.mp same
      exact List.mem_append_right _ List.mem_cons_self

theorem grows_retryLoop (cfg : LlrConfig) (keys : List RetryKey) (stores : StoresOnly Q onLoss)
    (delay : Nat) (σ : LlrManager) : Grows Q σ (retryLoop cfg onLoss keys delay σ).1 ∧
      ∀ r ∈ (retryLoop cfg onLoss keys delay σ).2,
        ∃ key, .retransmitted key r ∈ (retryLoop cfg onLoss keys delay σ).1.log := by
  induction keys generalizing delay σ with
  | nil =>
      refine ⟨.frame rfl, ?_⟩
      intro r none
      cases none
  | cons key keys ih =>
      rw [retryLoop]
      cases σ.sourceStore.find? key with
      | none => exact ih delay σ
      | some source =>
          dsimp only
          obtain ⟨first, given⟩ := grows_answerRequest cfg σ key source delay stores
          generalize σ.answerRequest cfg onLoss key source delay = answer at first given
          obtain ⟨later, back⟩ := ih ((answer.2.map (·.readyDelay)).getD delay) answer.1
          refine ⟨first.trans later, ?_⟩
          intro r mem
          rcases List.mem_append.mp mem with mem | mem
          · exact ⟨key, later.mem (given r (Option.mem_toList.mp mem))⟩
          · exact back r mem

theorem grows_sackLoop (cfg : LlrConfig) {keys : List RetryKey} (stores : StoresOnly Q onLoss) (σ : LlrManager) :
    Grows Q σ (sackLoop cfg onLoss keys σ).1 ∧ ∀ r ∈ (sackLoop cfg onLoss keys σ).2,
      ∃ key, .retransmitted key r ∈ (sackLoop cfg onLoss keys σ).1.log := by
  induction keys generalizing σ with
  | nil =>
      refine ⟨.frame rfl, ?_⟩
      intro r none
      cases none
  | cons key keys ih =>
      rw [sackLoop]
      cases σ.sourceStore.find? key with
      | none =>
          obtain ⟨later, back⟩ := ih { σ with
            log := σ.log ++ [.missed key]
            stats := { σ.stats with retryMissCount := σ.stats.retryMissCount + 1 } }
          refine ⟨Grows.trans (.one rfl fun _ _ none => ?_) later, back⟩
          cases none
      | some source =>
          dsimp only
          obtain ⟨first, given⟩ := grows_answerRequest cfg σ key source 0 stores
          generalize σ.answerRequest cfg onLoss key source 0 = answer at first given
          obtain ⟨later, back⟩ := ih answer.1
          refine ⟨first.trans later, ?_⟩
          intro r mem
          rcases List.mem_append.mp mem with mem | mem
          · exact ⟨key, later.mem (given r (Option.mem_toList.mp mem))⟩
          · exact back r mem

theorem grows_handleRetryRequest (cfg : LlrConfig) (stores : StoresOnly Q onLoss) (first : RetryKey) :
    Grows Q σ (σ.handleRetryRequest cfg onLoss first).1 ∧
      ∀ r ∈ (σ.handleRetryRequest cfg onLoss first).2,
        ∃ key, .retransmitted key r ∈ (σ.handleRetryRequest cfg onLoss first).1.log := by
  have loop := grows_retryLoop cfg (σ.namedFrom first) stores 0 σ
  rw [handleRetryRequest]
  dsimp only
  split
  · exact ⟨loop.1.trans (.frame rfl), loop.2⟩
  · exact loop

theorem grows_onRetryTimeout : Grows Q σ (σ.onRetryTimeout key) := by
  rw [onRetryTimeout]
  split
  · exact .frame rfl
  · exact .one rfl fun _ _ none => by cases none

theorem stored_of_outstanding {log : List LlrObs} {o : Outstanding}
    (h : outstanding log key = some o) : .stored key o.packet ∈ log := by
  induction log using List.reverseRecOn generalizing o with
  | nil => cases h
  | append_singleton log e ih =>
      rw [outstanding_snoc] at h
      rw [List.mem_append]
      cases e with
      | stored k packet =>
          rw [live] at h
          split at h
          · rename_i same
            obtain rfl := Option.some.inj h
            right
            rw [same]
            exact List.mem_cons_self
          · exact .inl (ih h)
      | acked k =>
          rw [live] at h
          split at h
          · cases h
          · exact .inl (ih h)
      | lost k header =>
          rw [live] at h
          split at h
          · cases h
          · exact .inl (ih h)
      | retransmitted k r =>
          rw [live] at h
          split at h
          · obtain ⟨o', before, rfl⟩ := Option.map_eq_some_iff.mp h
            have stored := ih before
            exact .inl stored
          · exact .inl (ih h)
      | overflow seqNum size => exact .inl (ih h)
      | missed k => exact .inl (ih h)
      | timedOut k => exact .inl (ih h)

theorem Sound.stored_of_retransmitted {r : Retransmission} (h : σ.Sound cfg)
    (mem : .retransmitted key r ∈ σ.log) : .stored key r.packet ∈ σ.log := by
  obtain ⟨before, after, split⟩ := List.append_of_mem mem
  obtain ⟨o, owed, same, -⟩ := h.tracked.answered before (.retransmitted key r) after split
  rw [same, split]
  exact List.mem_append_left _ (stored_of_outstanding owed)

end LlrManager

end ProtoBridge.Endpoint
