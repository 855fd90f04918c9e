import ProtoBridge.Endpoint.LlrFate
import ProtoBridge.Lib.Visit

/-!
# What a request is answered with

`HandleRetryRequest` and `HandleSackRequest` come to the keys they name one after the
other; in between the permanent-loss callback may have stored or removed some.
`llrManager_requests` reads the list they return off the states in which they come to the
keys: which keys are answered, with what packet, and after what delay.
-/

namespace ProtoBridge.Endpoint

open Lib Lib.Visit

/-- The transfer time of a reload. -/
def LlrConfig.transferTime (cfg : LlrConfig) (bytes : UInt32) : Nat :=
  if cfg.sourceReloadBandwidth > 0 ∧ bytes > 0 then cfg.fromRate bytes cfg.sourceReloadBandwidth
  else 0

/-- The service time of a reload. -/
def LlrConfig.serviceTime (cfg : LlrConfig) (bytes : UInt32) : Nat :=
  saturatingAdd cfg.sourceReloadLatency (cfg.transferTime bytes)

theorem le_saturatingAdd {a b : Nat} (h : a ≤ timeMax) : a ≤ saturatingAdd a b := by
  rw [saturatingAdd]
  split <;> omega

theorem saturatingAdd_le {a b : Nat} (h : a ≤ timeMax) : saturatingAdd a b ≤ timeMax := by
  rw [saturatingAdd]
  split <;> omega

namespace LlrManager

variable {cfg : LlrConfig} {σ σ' : LlrManager} {key k : RetryKey} {onLoss : LossCallback}

/-! ## The clock and the reload server -/

/-- The times a manager keeps are times. -/
structure Timely (σ : LlrManager) : Prop where
  now : σ.now ≤ timeMax
  available : σ.sourceReloadAvailable ≤ timeMax

/-- An operation that takes no time leaves the clock, and the server is not ready earlier. -/
structure Later (σ σ' : LlrManager) : Prop where
  now : σ'.now = σ.now
  available : σ.sourceReloadAvailable ≤ σ'.sourceReloadAvailable
  timely : σ.Timely → σ'.Timely

theorem Later.refl (σ : LlrManager) : Later σ σ := ⟨rfl, Nat.le_refl _, id⟩

variable {σ'' : LlrManager} {α : Type}

theorem Later.trans (h : Later σ σ') (h' : Later σ' σ'') : Later σ σ'' :=
  ⟨h'.now.trans h.now, Nat.le_trans h.available h'.available, fun timely => h'.timely (h.timely timely)⟩

theorem Later.of_eq (now : σ'.now = σ.now)
    (available : σ'.sourceReloadAvailable = σ.sourceReloadAvailable) : Later σ σ' := by
  refine ⟨now, Nat.le_of_eq available.symm, fun timely => ⟨?_, ?_⟩⟩
  · rw [now]
    exact timely.now
  · rw [available]
    exact timely.available

theorem later_enforceBufferLimit (σ : LlrManager) (fuel : Nat) :
    Later σ (enforceBufferLimit cfg fuel σ) := by
  induction fuel generalizing σ with
  | zero => exact .refl σ
  | succ fuel ih =>
      rw [enforceBufferLimit]
      split
      · exact .refl σ
      · split
        · split
          · split
            · exact .refl σ
            · refine Later.trans ?_ (ih _)
              exact .of_eq rfl rfl
          · exact .refl σ
        · exact .refl σ

theorem later_storePacket (σ : LlrManager) (c : StoreCall) : Later σ (σ.storePacket cfg c).1 := by
  let σ₁ := (LlrManager.storeSource
    { σ with log := σ.log ++ [.stored c.key c.packet] } c).rearm cfg c.key
  have first : Later σ σ₁ := by
    show Later σ ((LlrManager.storeSource _ c).rearm cfg c.key)
    rw [storeSource]
    split
    · exact .of_eq rfl rfl
    · exact .of_eq rfl rfl
  refine first.trans ?_
  show Later σ₁ (σ₁.storeCopy cfg c).1
  rw [LlrManager.storeCopy]
  dsimp only
  split
  · split
    · exact .of_eq rfl rfl
    · have room := @later_enforceBufferLimit cfg
        { σ₁ with retryBuffer := σ₁.retryBuffer.erase c.key } (σ₁.retryBuffer.erase c.key).size
      refine Later.trans ?_ (room.trans ?_)
      · exact .of_eq rfl rfl
      · exact .of_eq rfl rfl
  · exact .of_eq rfl rfl

theorem later_removePacket (σ : LlrManager) (key : RetryKey) : Later σ (σ.removePacket key).1 := by
  rw [removePacket]
  dsimp only
  split
  · exact .of_eq rfl rfl
  · exact .of_eq rfl rfl

theorem later_foldl {f : LlrManager → α → LlrManager} (h : ∀ σ a, Later σ (f σ a)) (σ : LlrManager)
    (as : List α) : Later σ (as.foldl f σ) := by
  induction as generalizing σ with
  | nil => exact .refl σ
  | cons a as ih => exact (h σ a).trans (ih (f σ a))

theorem later_arm (σ : LlrManager) (key : RetryKey) :
    Later σ (σ.armRetryTimeoutAtTransmission cfg key) := by
  rw [armRetryTimeoutAtTransmission]
  split
  · exact .refl σ
  · split
    · exact .refl σ
    · exact .of_eq rfl rfl

theorem later_callBack (σ : LlrManager) (c : LossCall) : Later σ (callBack cfg σ c) := by
  cases c with
  | storePacket c => exact later_storePacket σ c
  | armRetryTimeoutAtTransmission key => exact later_arm σ key
  | removePacket key => exact later_removePacket σ key
  | removePacketsUpTo upTo =>
      show Later σ (σ.removePacketsUpTo upTo)
      rw [removePacketsUpTo]
      refine later_foldl (fun σ key => ?_) σ _
      exact .of_eq rfl rfl
  | removeSackedPackets ackedSeqNums destRank flowId vcId =>
      exact later_foldl (fun σ seqNum => later_removePacket σ _) σ _

theorem reserveSourceReload_spec (timely : σ.Timely) (bytes : UInt32) :
    Later σ (σ.reserveSourceReload cfg bytes).1 ∧
      (σ.reserveSourceReload cfg bytes).1.sourceReloadAvailable =
        saturatingAdd (max σ.now σ.sourceReloadAvailable) (cfg.serviceTime bytes) ∧
      σ.now + (σ.reserveSourceReload cfg bytes).2 =
        saturatingAdd (max σ.now σ.sourceReloadAvailable) (cfg.serviceTime bytes) := by
  have start : max σ.now σ.sourceReloadAvailable ≤ timeMax :=
    Nat.max_le.mpr ⟨timely.now, timely.available⟩
  have low := @le_saturatingAdd _ (cfg.serviceTime bytes) start
  have high := @saturatingAdd_le _ (cfg.serviceTime bytes) start
  refine ⟨⟨rfl, ?_, fun _ => ⟨timely.now, high⟩⟩, rfl, ?_⟩
  · exact Nat.le_trans (Nat.le_max_right _ _) low
  · show σ.now + (saturatingAdd (max σ.now σ.sourceReloadAvailable) (cfg.serviceTime bytes) -
      σ.now) = _
    omega

/-! ## What is left alone -/

/-- What the manager has of `k` is as it was; if `still`, so is its copy. -/
structure Spared (still : Prop) (k : RetryKey) (σ σ' : LlrManager) : Prop where
  source : σ'.sourceStore.find? k = σ.sourceStore.find? k
  history : outstanding σ'.log k = outstanding σ.log k
  buffer : still → σ'.retryBuffer.find? k = σ.retryBuffer.find? k

variable {still : Prop}

theorem Spared.refl (σ : LlrManager) : Spared still k σ σ := ⟨rfl, rfl, fun _ => rfl⟩

theorem Spared.trans (h : Spared still k σ σ') (h' : Spared still k σ' σ'') :
    Spared still k σ σ'' :=
  ⟨h'.source.trans h.source, h'.history.trans h.history,
    fun hs => (h'.buffer hs).trans (h.buffer hs)⟩

theorem Spared.update {f : SourceEntry → SourceEntry} (hk : k ≠ key)
    (hsource : σ'.sourceStore = σ.sourceStore.update key f)
    (hbuffer : σ'.retryBuffer = σ.retryBuffer) (hlog : σ'.log = σ.log) : Spared still k σ σ' := by
  refine ⟨?_, by rw [hlog], fun _ => by rw [hbuffer]⟩
  rw [hsource, UnorderedMap.find?_update, if_neg hk]

theorem Spared.remove {e : LlrObs} (hk : k ≠ key) (he : ∀ o, live k o e = o) :
    Spared still k σ (removeOutstandingPacket { σ with log := σ.log ++ [e] } key) := by
  refine ⟨?_, ?_, fun _ => ?_⟩
  · show (σ.sourceStore.erase key).find? k = _
    rw [UnorderedMap.find?_erase, if_neg hk]
  · show outstanding (σ.log ++ [e]) k = _
    rw [outstanding_snoc, he]
  · show (σ.retryBuffer.erase key).find? k = _
    rw [UnorderedMap.find?_erase, if_neg hk]

theorem spared_enforceBufferLimit (σ : LlrManager) (fuel : Nat) (moved : ¬ still) :
    Spared still k σ (enforceBufferLimit cfg fuel σ) := by
  induction fuel generalizing σ with
  | zero => exact .refl σ
  | succ fuel ih =>
      rw [enforceBufferLimit]
      split
      · exact .refl σ
      · split
        · split
          · split
            · exact .refl σ
            · refine Spared.trans ?_ (ih _)
              refine ⟨rfl, ?_, fun h => absurd h moved⟩
              exact outstanding_snoc σ.log _ k
          · exact .refl σ
        · exact .refl σ

theorem spared_storePacket (σ : LlrManager) (c : StoreCall) (hk : k ≠ c.key) (moved : ¬ still) :
    Spared still k σ (σ.storePacket cfg c).1 := by
  let σ₀ := LlrManager.storeSource { σ with log := σ.log ++ [.stored c.key c.packet] } c
  let σ₁ := σ₀.rearm cfg c.key
  have first : Spared still k σ σ₁ := by
    refine ⟨?_, ?_, fun h => absurd h moved⟩
    · rw [find?_rearm_of_ne hk]
      exact (sourceStore_storeSource k).trans (if_neg hk)
    · show outstanding σ₀.log k = _
      rw [log_storeSource, outstanding_snoc, live, if_neg (Ne.symm hk)]
  refine first.trans ?_
  show Spared still k σ₁ (σ₁.storeCopy cfg c).1
  rw [LlrManager.storeCopy]
  dsimp only
  split
  · split
    · exact ⟨rfl, outstanding_snoc σ₁.log _ k, fun h => absurd h moved⟩
    · have room := @spared_enforceBufferLimit cfg k still
        { σ₁ with retryBuffer := σ₁.retryBuffer.erase c.key } (σ₁.retryBuffer.erase c.key).size moved
      exact ⟨room.source, room.history, fun h => absurd h moved⟩
  · exact ⟨rfl, rfl, fun h => absurd h moved⟩

theorem spared_removePacket (σ : LlrManager) (hk : k ≠ key) :
    Spared still k σ (σ.removePacket key).1 := by
  rw [removePacket]
  dsimp only
  split
  · refine .remove hk fun o => ?_
    rw [live, if_neg (Ne.symm hk)]
  · refine ⟨?_, rfl, fun _ => ?_⟩
    · show (σ.sourceStore.erase key).find? k = _
      rw [UnorderedMap.find?_erase, if_neg hk]
    · show (σ.retryBuffer.erase key).find? k = _
      rw [UnorderedMap.find?_erase, if_neg hk]

theorem spared_arm (σ : LlrManager) (hk : k ≠ key) :
    Spared still k σ (σ.armRetryTimeoutAtTransmission cfg key) := by
  rw [armRetryTimeoutAtTransmission]
  split
  · exact .refl σ
  · split
    · exact .refl σ
    · let armed : SourceEntry → SourceEntry := fun source =>
        { source with
          wireArmed := true
          timeoutEvent := some (max (source.timeoutEvent.getD 0) (σ.now + cfg.retryTimeout)) }
      exact Spared.update (f := armed) hk rfl rfl rfl

theorem spared_foldl {f : LlrManager → α → LlrManager} {as : List α} (σ : LlrManager)
    (h : ∀ σ, ∀ a ∈ as, Spared still k σ (f σ a)) : Spared still k σ (as.foldl f σ) := by
  induction as generalizing σ with
  | nil => exact .refl σ
  | cons a as ih =>
      refine (h σ a List.mem_cons_self).trans (ih (f σ a) ?_)
      exact fun σ b hb => h σ b (List.mem_cons_of_mem _ hb)

theorem spared_removePacketsUpTo (σ : LlrManager) {upTo : RetryKey} (hk : ¬ CoveredBy upTo k) :
    Spared still k σ (σ.removePacketsUpTo upTo) := by
  rw [removePacketsUpTo]
  refine spared_foldl σ fun σ key hkey => ?_
  have covered : CoveredBy upTo key := by
    rw [List.mem_filter, decide_eq_true_eq] at hkey
    exact hkey.2
  have hne : k ≠ key := by
    rintro rfl
    exact hk covered
  refine .remove hne fun o => ?_
  rw [live, if_neg (Ne.symm hne)]

end LlrManager

namespace LossCall

/-- The call is about `k`. -/
def Names (k : RetryKey) : LossCall → Prop
  | .storePacket c => k = c.key
  | .armRetryTimeoutAtTransmission key | .removePacket key => k = key
  | .removePacketsUpTo upTo => LlrManager.CoveredBy upTo k
  | .removeSackedPackets ackedSeqNums destRank flowId vcId =>
      ∃ seqNum ∈ ackedSeqNums, k = ⟨seqNum, destRank, flowId, vcId⟩

/-- The call stores a packet, and may evict copies of others. -/
def Stores : LossCall → Prop
  | .storePacket _ => True
  | _ => False

end LossCall

namespace LlrManager

/-- Whoever is told that one of `keys` is lost does nothing about `k`. -/
def Minds (onLoss : LossCallback) (keys : List RetryKey) (k : RetryKey) : Prop :=
  ∀ key ∈ keys, ∀ lostHdr, ∀ c ∈ onLoss key lostHdr, ¬ c.Names k

/-- Whoever is told that one of `keys` is lost stores nothing. -/
def StoresNothing (onLoss : LossCallback) (keys : List RetryKey) : Prop :=
  ∀ key ∈ keys, ∀ lostHdr, ∀ c ∈ onLoss key lostHdr, ¬ c.Stores

theorem spared_callBack (σ : LlrManager) {c : LossCall} (hk : ¬ c.Names k)
    (stores : still → ¬ c.Stores) : Spared still k σ (callBack cfg σ c) := by
  cases c with
  | storePacket c => exact spared_storePacket σ c hk fun h => stores h trivial
  | armRetryTimeoutAtTransmission key => exact spared_arm σ hk
  | removePacket key => exact spared_removePacket σ hk
  | removePacketsUpTo upTo => exact spared_removePacketsUpTo σ hk
  | removeSackedPackets ackedSeqNums destRank flowId vcId =>
      refine spared_foldl σ fun σ seqNum hseq => spared_removePacket σ ?_
      rintro rfl
      exact hk ⟨seqNum, hseq, rfl⟩

/-! ## One key -/

variable {lostHdr : FabricHeader} {τ : LlrManager × Nat}

theorem spared_giveUp (hk : k ≠ key) (minds : ∀ c ∈ onLoss key lostHdr, ¬ c.Names k)
    (stores : still → ∀ c ∈ onLoss key lostHdr, ¬ c.Stores) :
    Spared still k σ (giveUp cfg onLoss σ key lostHdr) := by
  have first : Spared still k σ
      (removeOutstandingPacket { σ with log := σ.log ++ [.lost key lostHdr] } key) :=
    .remove hk fun o => by rw [live, if_neg (Ne.symm hk)]
  rw [giveUp]
  refine Spared.trans ?_ (spared_foldl _ fun σ c hc =>
    spared_callBack σ (minds c hc) fun h => stores h c hc)
  exact ⟨first.source, first.history, first.buffer⟩

theorem spared_noteRetry {r : Retransmission} (hk : k ≠ key) :
    Spared still k σ (σ.noteRetry key r) := by
  refine ⟨?_, ?_, fun _ => rfl⟩
  · show (σ.sourceStore.update key _).find? k = _
    rw [UnorderedMap.find?_update, if_neg hk]
  · show outstanding (σ.log ++ [.retransmitted key r]) k = _
    rw [outstanding_snoc, live, if_neg (Ne.symm hk)]

variable {source : SourceEntry} {key : RetryKey}

theorem spared_answerRequest {delay : Nat} (hk : k ≠ key)
    (minds : ∀ lostHdr, ∀ c ∈ onLoss key lostHdr, ¬ c.Names k)
    (stores : still → ∀ lostHdr, ∀ c ∈ onLoss key lostHdr, ¬ c.Stores) :
    Spared still k σ (σ.answerRequest cfg onLoss key source delay).1 := by
  let counted : SourceEntry := { source with retryCount := source.retryCount + 1 }
  let σ₁ : LlrManager := { σ with sourceStore := σ.sourceStore.update key fun _ => counted }
  have first : Spared still k σ σ₁ := Spared.update (f := fun _ => counted) hk rfl rfl rfl
  rw [answerRequest]
  dsimp only
  split
  · exact first.trans (spared_giveUp hk (minds _) fun h => stores h _)
  · obtain ⟨hsource, hbuffer, hlog⟩ := frame_fetchCopy cfg σ₁ key counted delay
    have fetched : Spared still k σ₁ (σ₁.fetchCopy cfg key counted delay).1 :=
      ⟨by rw [hsource], by rw [hlog], fun _ => by rw [hbuffer]⟩
    exact first.trans (fetched.trans (spared_noteRetry hk))

theorem later_giveUp : Later σ (giveUp cfg onLoss σ key lostHdr) := by
  rw [giveUp]
  refine Later.trans ?_ (later_foldl later_callBack _ _)
  exact .of_eq rfl rfl

/-- The budget of `key` is not used up. -/
def Due (cfg : LlrConfig) (σ : LlrManager) (key : RetryKey) : Prop :=
  ∃ o, outstanding σ.log key = some o ∧
    (o.requests < cfg.retryLimit.toNat ∨ cfg.retryLimit = unlimited)

/-- `r` is the packet stored last: its copy, or the packet itself, which waits for its reload and
for all reloads before it. -/
structure Serves (cfg : LlrConfig) (σ : LlrManager) (key : RetryKey) (r : Retransmission)
    (σ' : LlrManager) : Prop where
  packet : ∃ o, outstanding σ.log key = some o ∧ r.packet = o.packet
  sourceReload : r.sourceReload = (σ.retryBuffer.find? key).isNone
  ready : r.sourceReload = true →
    σ.now + r.readyDelay = saturatingAdd (max σ.now σ.sourceReloadAvailable)
      (cfg.serviceTime r.packet.header.payloadSize)
  served : r.sourceReload = true → σ'.sourceReloadAvailable = σ.now + r.readyDelay

/-- The delay of the number before is over when the reload server is ready. -/
def Ordered (σ : LlrManager) (delay : Nat) : Prop := σ.now + delay ≤ max σ.now σ.sourceReloadAvailable

/-- A copy that is fetched. -/
structure Fetched (cfg : LlrConfig) (σ : LlrManager) (key : RetryKey) (delay : Nat)
    (source : SourceEntry) (r : Retransmission) (σ' : LlrManager) : Prop where
  later : Later σ σ'
  sourceReload : r.sourceReload = (σ.retryBuffer.find? key).isNone
  hit : r.sourceReload = false → r.readyDelay = delay
  ready : r.sourceReload = true →
    σ.now + r.readyDelay = saturatingAdd (max σ.now σ.sourceReloadAvailable)
      (cfg.serviceTime source.packet.header.payloadSize)
  served : r.sourceReload = true → σ'.sourceReloadAvailable = σ.now + r.readyDelay
  after : delay ≤ r.readyDelay
  ordered : Ordered σ' r.readyDelay

theorem fetchCopy_spec {delay : Nat} (timely : σ.Timely) (ordered : Ordered σ delay) :
    Fetched cfg σ key delay source (σ.fetchCopy cfg key source delay).2
      (σ.fetchCopy cfg key source delay).1 := by
  rw [fetchCopy]
  split
  · rename_i entry hentry
    refine ⟨.refl σ, ?_, fun _ => rfl, ?_, ?_, Nat.le_refl _, ordered⟩
    · rw [hentry]
      rfl
    · rintro ⟨⟩
    · rintro ⟨⟩
  · rename_i hnone
    have start : max σ.now σ.sourceReloadAvailable ≤ timeMax :=
      Nat.max_le.mpr ⟨timely.now, timely.available⟩
    have low := @le_saturatingAdd _ (cfg.serviceTime source.packet.header.payloadSize) start
    obtain ⟨later, available, ready⟩ :=
      @reserveSourceReload_spec cfg σ timely source.packet.header.payloadSize
    rcases hreserve : σ.reserveSourceReload cfg source.packet.header.payloadSize with ⟨σ₁, reload⟩
    rw [hreserve] at later available ready
    have waits : delay ≤ reload := by
      have := ordered
      rw [Ordered] at this
      dsimp only at ready
      omega
    have hmax : max delay reload = reload := Nat.max_eq_right waits
    dsimp only
    refine ⟨later.trans (.of_eq rfl rfl), ?_, ?_, fun _ => ?_, fun _ => ?_, ?_, ?_⟩
    · rw [hnone]
      rfl
    · rintro ⟨⟩
    · show σ.now + max delay reload = _
      rw [hmax]
      exact ready
    · show σ₁.sourceReloadAvailable = σ.now + max delay reload
      rw [hmax]
      exact available.trans ready.symm
    · show delay ≤ max delay reload
      exact Nat.le_max_left _ _
    · show σ₁.now + max delay reload ≤ max σ₁.now σ₁.sourceReloadAvailable
      rw [hmax, available, later.now, ← ready]
      exact Nat.le_max_right _ _

theorem Sound.due_iff (h : σ.Sound cfg) (hs : σ.sourceStore.find? key = some source) :
    Due cfg σ key ↔ ¬ cfg.retryLimit < source.retryCount + 1 := by
  have hkey := h.tracked.source key
  rw [hs] at hkey
  obtain ⟨o, ho, -, -, hr, hl⟩ := hkey.of_some
  rw [lt_count_iff hr hl]
  constructor
  · rintro ⟨o', ho', budget⟩ ⟨used, limited⟩
    rw [ho] at ho'
    cases ho'
    have := budget.resolve_right limited
    omega
  · intro left
    refine ⟨o, ho, ?_⟩
    by_cases limited : cfg.retryLimit = unlimited
    · exact .inr limited
    · have := hl limited
      have : o.requests ≠ cfg.retryLimit.toNat := fun used => left ⟨used, limited⟩
      exact .inl (by omega)

/-- The answer to a request that names `key`, if there is one, and what it is ordered behind. -/
structure Reply (cfg : LlrConfig) (σ : LlrManager) (key : RetryKey) (delay : Nat)
    (r : Option Retransmission) (σ' : LlrManager) : Prop where
  later : Later σ σ'
  silent : r = none → ¬ Due cfg σ key
  gave : ∀ r' ∈ r, Due cfg σ key ∧ Serves cfg σ key r' σ'
  hit : ∀ r' ∈ r, r'.sourceReload = false → r'.readyDelay = delay
  after : ∀ r' ∈ r, delay ≤ r'.readyDelay
  ordered : Ordered σ' ((r.map (·.readyDelay)).getD delay)

theorem Ordered.later {delay : Nat} (h : Ordered σ delay) (hl : Later σ σ') : Ordered σ' delay := by
  have := hl.available
  rw [Ordered] at h ⊢
  rw [hl.now]
  omega

theorem Sound.reply {delay : Nat} (h : σ.Sound cfg) (timely : σ.Timely) (ordered : Ordered σ delay)
    (hs : σ.sourceStore.find? key = some source) :
    Reply cfg σ key delay (σ.answerRequest cfg onLoss key source delay).2
      (σ.answerRequest cfg onLoss key source delay).1 := by
  have due := h.due_iff hs
  rw [LlrManager.answerRequest]
  dsimp only
  split
  · rename_i used
    have later : Later σ (LlrManager.giveUp cfg onLoss { σ with
        sourceStore := σ.sourceStore.update key fun _ =>
          { source with retryCount := source.retryCount + 1 } } key source.packet.header) := by
      refine Later.trans ?_ later_giveUp
      exact .of_eq rfl rfl
    refine ⟨later, fun _ => due.not.mpr (not_not_intro used), ?_, ?_, ?_, ordered.later later⟩
    all_goals rintro _ ⟨⟩
  · rename_i left
    let counted : SourceEntry := { source with retryCount := source.retryCount + 1 }
    let σ₁ : LlrManager := { σ with sourceStore := σ.sourceStore.update key fun _ => counted }
    have hkey := h.tracked.source key
    rw [hs] at hkey
    obtain ⟨o, ho, hp, -⟩ := hkey.of_some
    have hcopy : ∀ entry, σ₁.retryBuffer.find? key = some entry →
        entry.packet = counted.packet := by
      intro entry hentry
      obtain ⟨source', hs', hp'⟩ := h.copies key entry hentry
      rw [hs] at hs'
      cases hs'
      exact hp'
    have packet := packet_fetchCopy cfg delay hcopy
    have timely₁ : σ₁.Timely := ⟨timely.now, timely.available⟩
    have fetched : Fetched cfg σ₁ key delay counted (σ₁.fetchCopy cfg key counted delay).2
        (σ₁.fetchCopy cfg key counted delay).1 := fetchCopy_spec timely₁ ordered
    show Reply cfg σ key delay (some (σ₁.fetchCopy cfg key counted delay).2)
      ((σ₁.fetchCopy cfg key counted delay).1.noteRetry key (σ₁.fetchCopy cfg key counted delay).2)
    rcases hf : σ₁.fetchCopy cfg key counted delay with ⟨σ₂, r⟩
    rw [hf] at packet fetched
    have first : Later σ σ₁ := .of_eq rfl rfl
    refine ⟨(first.trans fetched.later).trans (.of_eq rfl rfl), ?_, ?_, ?_, ?_, fetched.ordered⟩
    · rintro ⟨⟩
    · intro r' hr'
      cases hr'
      refine ⟨due.mpr left, ⟨o, ho, packet.trans hp⟩, fetched.sourceReload, ?_, fetched.served⟩
      intro reload
      rw [show r.packet = source.packet from packet]
      exact fetched.ready reload
    · intro r' hr'
      cases hr'
      exact fetched.hit
    · intro r' hr'
      cases hr'
      exact fetched.after

/-! ## The loops -/

/-- The body of the loop of `HandleRetryRequest`. -/
def retryStep (cfg : LlrConfig) (onLoss : LossCallback) (key : RetryKey) (τ : LlrManager × Nat) :
    (LlrManager × Nat) × Option Retransmission :=
  match τ.1.sourceStore.find? key with
  | none => (τ, none)
  | some source =>
      let (σ, r) := τ.1.answerRequest cfg onLoss key source τ.2
      ((σ, (r.map (·.readyDelay)).getD τ.2), r)

/-- The body of the loop of `HandleSackRequest`. -/
def sackStep (cfg : LlrConfig) (onLoss : LossCallback) (key : RetryKey) (σ : LlrManager) :
    LlrManager × Option Retransmission :=
  match σ.sourceStore.find? key with
  | none =>
      ({ σ with
        log := σ.log ++ [.missed key]
        stats := { σ.stats with retryMissCount := σ.stats.retryMissCount + 1 } }, none)
  | some source => σ.answerRequest cfg onLoss key source 0

variable {keys : List RetryKey} {delay : Nat}

theorem retryLoop_eq : retryLoop cfg onLoss keys delay σ =
    ((visit (retryStep cfg onLoss) keys (σ, delay)).1.1,
      (visit (retryStep cfg onLoss) keys (σ, delay)).2) := by
  induction keys generalizing σ delay with
  | nil => rfl
  | cons key keys ih =>
      rw [retryLoop, visit, retryStep]
      dsimp only
      cases hs : σ.sourceStore.find? key with
      | none =>
          show retryLoop cfg onLoss keys delay σ = _
          rw [ih]
          rfl
      | some source =>
          dsimp only
          rw [ih]

theorem sackLoop_eq : sackLoop cfg onLoss keys σ = visit (sackStep cfg onLoss) keys σ := by
  induction keys generalizing σ with
  | nil => rfl
  | cons key keys ih =>
      rw [sackLoop, visit, sackStep]
      cases hs : σ.sourceStore.find? key with
      | none =>
          dsimp only
          rw [ih]
          rfl
      | some source =>
          dsimp only
          rw [ih]

/-- The manager when `HandleRetryRequest` comes to the `i`-th of `keys`. -/
def retryTurn (cfg : LlrConfig) (onLoss : LossCallback) (keys : List RetryKey) (σ : LlrManager)
    (i : Nat) : LlrManager := (retryLoop cfg onLoss (keys.take i) 0 σ).1

/-- The manager when `HandleSackRequest` comes to the `i`-th of `keys`. -/
def sackTurn (cfg : LlrConfig) (onLoss : LossCallback) (keys : List RetryKey) (σ : LlrManager)
    (i : Nat) : LlrManager := (sackLoop cfg onLoss (keys.take i) σ).1

theorem retryTurn_eq : retryTurn cfg onLoss keys σ =
    fun i => (turn (retryStep cfg onLoss) keys (σ, 0) i).1 := by
  funext i
  rw [retryTurn, retryLoop_eq]
  rfl

theorem sackTurn_eq : sackTurn cfg onLoss keys σ = turn (sackStep cfg onLoss) keys σ := by
  funext i
  rw [sackTurn, sackLoop_eq]
  rfl

/-- What both loops keep. -/
structure Kept (cfg : LlrConfig) (σ : LlrManager) (delay : Nat) : Prop where
  sound : σ.Sound cfg
  timely : σ.Timely
  ordered : Ordered σ delay

theorem Kept.inTime (h : Kept cfg σ delay) : σ.now + delay ≤ timeMax :=
  Nat.le_trans h.ordered (Nat.max_le.mpr ⟨h.timely.now, h.timely.available⟩)

theorem Kept.reply (h : Kept cfg σ delay) (hs : σ.sourceStore.find? key = some source) :
    Reply cfg σ key delay (σ.answerRequest cfg onLoss key source delay).2
      (σ.answerRequest cfg onLoss key source delay).1 :=
  h.sound.reply h.timely h.ordered hs

theorem Kept.answerRequest (h : Kept cfg σ delay) (hs : σ.sourceStore.find? key = some source) :
    Kept cfg (σ.answerRequest cfg onLoss key source delay).1
      (((σ.answerRequest cfg onLoss key source delay).2.map (·.readyDelay)).getD delay) :=
  ⟨(h.sound.answerRequest onLoss delay hs).sound, (h.reply hs).later.timely h.timely,
    (h.reply hs).ordered⟩

theorem ordered_zero (σ : LlrManager) : Ordered σ 0 := Nat.le_max_left _ _

theorem not_due (h : σ.Sound cfg) (hnone : σ.sourceStore.find? key = none) : ¬ Due cfg σ key := by
  rintro ⟨o, ho, -⟩
  have hkey := h.tracked.source key
  rw [hnone] at hkey
  rw [hkey.of_none] at ho
  cases ho

theorem Kept.retryStep (h : Kept cfg τ.1 τ.2) :
    Kept cfg (retryStep cfg onLoss key τ).1.1 (LlrManager.retryStep cfg onLoss key τ).1.2 := by
  rw [LlrManager.retryStep]
  split
  · exact h
  · rename_i source hs
    exact h.answerRequest hs

theorem Kept.sackStep (h : Kept cfg σ 0) : Kept cfg (LlrManager.sackStep cfg onLoss key σ).1 0 := by
  rw [LlrManager.sackStep]
  split
  · rename_i hnone
    exact ⟨h.sound.missed hnone, ⟨h.timely.now, h.timely.available⟩, ordered_zero _⟩
  · rename_i source hs
    exact ⟨(h.answerRequest hs).sound, (h.answerRequest hs).timely, ordered_zero _⟩

theorem later_retryStep (h : Kept cfg τ.1 τ.2) : Later τ.1 (retryStep cfg onLoss key τ).1.1 := by
  rw [retryStep]
  split
  · exact .refl _
  · rename_i source hs
    exact (h.reply hs).later

theorem later_sackStep (h : Kept cfg σ 0) : Later σ (sackStep cfg onLoss key σ).1 := by
  rw [sackStep]
  split
  · exact .of_eq rfl rfl
  · rename_i source hs
    exact (h.reply hs).later

theorem Kept.retryTurn (h : Kept cfg σ 0) (i : Nat) :
    Kept cfg (turn (LlrManager.retryStep cfg onLoss) keys (σ, 0) i).1
      (turn (LlrManager.retryStep cfg onLoss) keys (σ, 0) i).2 :=
  turn_invariant (I := fun τ : LlrManager × Nat => Kept cfg τ.1 τ.2) (fun _ _ _ hτ => hτ.retryStep) h i

theorem Kept.sackTurn (h : Kept cfg σ 0) (i : Nat) :
    Kept cfg (turn (LlrManager.sackStep cfg onLoss) keys σ i) 0 :=
  turn_invariant (I := fun σ => Kept cfg σ 0) (fun _ _ _ hσ => hσ.sackStep) h i

theorem later_retryTurn (h : Kept cfg σ 0) (i : Nat) :
    Later (retryTurn cfg onLoss keys σ i) (retryTurn cfg onLoss keys σ (i + 1)) := by
  rw [retryTurn_eq]
  dsimp only
  rcases Nat.lt_or_ge i keys.length with hlt | hge
  · rw [turn_next hlt]
    exact later_retryStep (h.retryTurn i)
  · rw [turn_past hge, turn_past (Nat.le_succ_of_le hge)]
    exact .refl _

theorem later_sackTurn (h : Kept cfg σ 0) (i : Nat) :
    Later (sackTurn cfg onLoss keys σ i) (sackTurn cfg onLoss keys σ (i + 1)) := by
  rw [sackTurn_eq]
  rcases Nat.lt_or_ge i keys.length with hlt | hge
  · rw [turn_next hlt]
    exact later_sackStep (h.sackTurn i)
  · rw [turn_past hge, turn_past (Nat.le_succ_of_le hge)]
    exact .refl _

theorem answered_retryLoop (h : Kept cfg σ 0) :
    Visit.Answered (Due cfg) (Serves cfg) (retryTurn cfg onLoss keys σ) keys
      (retryLoop cfg onLoss keys 0 σ).2 := by
  rw [retryTurn_eq, retryLoop_eq]
  show Visit.Answered (fun τ : LlrManager × Nat => Due cfg τ.1)
    (fun τ key r τ' => Serves cfg τ.1 key r τ'.1) (turn (retryStep cfg onLoss) keys (σ, 0)) keys _
  refine answered (I := fun τ : LlrManager × Nat => Kept cfg τ.1 τ.2)
    (fun _ _ _ hτ => hτ.retryStep) ?_ ?_ h
  · intro key _ τ hτ r hr
    rw [retryStep] at hr ⊢
    split at hr
    · cases hr
    · rename_i source hs
      exact (hτ.reply hs).gave r hr
  · intro key _ τ hτ hr
    rw [retryStep] at hr
    split at hr
    · rename_i hnone
      exact not_due hτ.sound hnone
    · rename_i source hs
      exact (hτ.reply hs).silent hr

theorem answered_sackLoop (h : Kept cfg σ 0) :
    Visit.Answered (Due cfg) (Serves cfg) (sackTurn cfg onLoss keys σ) keys
      (sackLoop cfg onLoss keys σ).2 := by
  rw [sackTurn_eq, sackLoop_eq]
  refine answered (I := fun σ => Kept cfg σ 0) (fun _ _ _ hσ => hσ.sackStep) ?_ ?_ h
  · intro key _ σ hσ r hr
    rw [sackStep] at hr ⊢
    split at hr
    · cases hr
    · rename_i source hs
      exact (hσ.reply hs).gave r hr
  · intro key _ σ hσ hr
    rw [sackStep] at hr
    split at hr
    · rename_i hnone
      exact not_due hσ.sound hnone
    · rename_i source hs
      exact (hσ.reply hs).silent hr

theorem delays_retryLoop (h : Kept cfg σ delay) :
    (∀ r ∈ (retryLoop cfg onLoss keys delay σ).2,
      delay ≤ r.readyDelay ∧ σ.now + r.readyDelay ≤ timeMax) ∧
    (retryLoop cfg onLoss keys delay σ).2.Pairwise (fun r r' => r.readyDelay ≤ r'.readyDelay) := by
  induction keys generalizing σ delay with
  | nil => exact ⟨nofun, .nil⟩
  | cons key keys ih =>
      rw [retryLoop]
      cases hs : σ.sourceStore.find? key with
      | none => exact ih h
      | some source =>
          have reply : Reply cfg σ key delay (σ.answerRequest cfg onLoss key source delay).2
              (σ.answerRequest cfg onLoss key source delay).1 := h.reply hs
          have kept : Kept cfg (σ.answerRequest cfg onLoss key source delay).1
              (((σ.answerRequest cfg onLoss key source delay).2.map (·.readyDelay)).getD delay) :=
            h.answerRequest hs
          dsimp only
          rcases ha : σ.answerRequest cfg onLoss key source delay with ⟨σ₁, r⟩
          rw [ha] at reply kept
          obtain ⟨bound, sorted⟩ := ih kept
          rw [reply.later.now] at bound
          cases r with
          | none => exact ⟨bound, sorted⟩
          | some r =>
              have first : delay ≤ r.readyDelay := reply.after r rfl
              have room := kept.inTime
              rw [reply.later.now] at room
              refine ⟨?_, List.pairwise_cons.mpr ⟨fun r' hr' => (bound r' hr').1, sorted⟩⟩
              intro r' hr'
              rcases List.mem_cons.mp hr' with rfl | hr'
              · exact ⟨first, room⟩
              · exact ⟨Nat.le_trans first (bound r' hr').1, (bound r' hr').2⟩

/-- In a selective request the copies do not wait for the reloads. -/
theorem delays_sackLoop (h : Kept cfg σ 0) :
    (∀ r ∈ (sackLoop cfg onLoss keys σ).2, σ.now + r.readyDelay ≤ timeMax ∧
      (r.sourceReload = false → r.readyDelay = 0) ∧
      (r.sourceReload = true → σ.sourceReloadAvailable ≤ σ.now + r.readyDelay)) ∧
    ((sackLoop cfg onLoss keys σ).2.filter (·.sourceReload)).Pairwise
      (fun r r' => r.readyDelay ≤ r'.readyDelay) := by
  induction keys generalizing σ with
  | nil => exact ⟨nofun, .nil⟩
  | cons key keys ih =>
      rw [sackLoop]
      cases hs : σ.sourceStore.find? key with
      | none =>
          exact ih ⟨h.sound.missed hs, ⟨h.timely.now, h.timely.available⟩, ordered_zero _⟩
      | some source =>
          have reply : Reply cfg σ key 0 (σ.answerRequest cfg onLoss key source 0).2
              (σ.answerRequest cfg onLoss key source 0).1 := h.reply hs
          have kept : Kept cfg (σ.answerRequest cfg onLoss key source 0).1
              (((σ.answerRequest cfg onLoss key source 0).2.map (·.readyDelay)).getD 0) :=
            h.answerRequest hs
          dsimp only
          rcases ha : σ.answerRequest cfg onLoss key source 0 with ⟨σ₁, r⟩
          rw [ha] at reply kept
          obtain ⟨bound, sorted⟩ := ih ⟨kept.sound, kept.timely, ordered_zero _⟩
          have later := reply.later
          have rest : ∀ r' ∈ (sackLoop cfg onLoss keys σ₁).2, σ.now + r'.readyDelay ≤ timeMax ∧
              (r'.sourceReload = false → r'.readyDelay = 0) ∧
              (r'.sourceReload = true → σ.sourceReloadAvailable ≤ σ.now + r'.readyDelay) := by
            intro r' hr'
            obtain ⟨room, hit, reload⟩ := bound r' hr'
            rw [later.now] at room reload
            exact ⟨room, hit, fun hreload => Nat.le_trans later.available (reload hreload)⟩
          cases r with
          | none => exact ⟨rest, sorted⟩
          | some r =>
              obtain ⟨-, serves⟩ := reply.gave r rfl
              have room := kept.inTime
              rw [later.now] at room
              constructor
              · intro r' hr'
                rcases List.mem_cons.mp hr' with rfl | hr'
                · refine ⟨room, reply.hit r' rfl, fun hreload => ?_⟩
                  rw [← serves.served hreload]
                  exact later.available
                · exact rest r' hr'
              · show ((r :: (sackLoop cfg onLoss keys σ₁).2).filter _).Pairwise _
                rw [List.filter_cons]
                split
                · rename_i hreload
                  refine List.pairwise_cons.mpr ⟨fun r' hr' => ?_, sorted⟩
                  obtain ⟨hmem, hreload'⟩ := List.mem_filter.mp hr'
                  have behind := (bound r' hmem).2.2 hreload'
                  rw [serves.served hreload, later.now] at behind
                  omega
                · exact sorted

theorem StoresNothing.head (h : StoresNothing onLoss (key :: keys)) (lostHdr) :
    ∀ c ∈ onLoss key lostHdr, ¬ c.Stores := h key List.mem_cons_self lostHdr

theorem StoresNothing.tail (h : StoresNothing onLoss (key :: keys)) :
    StoresNothing onLoss keys := fun k hk => h k (List.mem_cons_of_mem _ hk)

theorem Minds.tail {k : RetryKey} (h : Minds onLoss (key :: keys) k) : Minds onLoss keys k :=
  fun k hk => h k (List.mem_cons_of_mem _ hk)

theorem spared_retryLoop (hk : k ∉ keys) (minds : Minds onLoss keys k)
    (stores : still → StoresNothing onLoss keys) :
    Spared still k σ (retryLoop cfg onLoss keys delay σ).1 := by
  induction keys generalizing σ delay with
  | nil => exact .refl σ
  | cons key keys ih =>
      obtain ⟨hne, hk⟩ := not_or.mp (List.mem_cons.not.mp hk)
      have rest : ∀ σ delay, Spared still k σ (retryLoop cfg onLoss keys delay σ).1 :=
        fun σ delay => ih hk minds.tail fun h => (stores h).tail
      rw [retryLoop]
      split
      · exact rest σ delay
      · refine Spared.trans ?_ (rest _ _)
        exact spared_answerRequest hne (minds key List.mem_cons_self) fun h => (stores h).head

theorem spared_sackLoop (hk : k ∉ keys) (minds : Minds onLoss keys k)
    (stores : still → StoresNothing onLoss keys) :
    Spared still k σ (sackLoop cfg onLoss keys σ).1 := by
  induction keys generalizing σ with
  | nil => exact .refl σ
  | cons key keys ih =>
      obtain ⟨hne, hk⟩ := not_or.mp (List.mem_cons.not.mp hk)
      have rest : ∀ σ, Spared still k σ (sackLoop cfg onLoss keys σ).1 :=
        fun σ => ih hk minds.tail fun h => (stores h).tail
      rw [sackLoop]
      split
      · refine Spared.trans ?_ (rest _)
        exact ⟨rfl, outstanding_snoc σ.log _ k, fun _ => rfl⟩
      · refine Spared.trans ?_ (rest _)
        exact spared_answerRequest hne (minds key List.mem_cons_self) fun h => (stores h).head

/-! ## Runs -/

theorem later_handleRetryRequest {first : RetryKey} :
    Later (retryTurn cfg onLoss (σ.namedFrom first) σ (σ.namedFrom first).length)
      (σ.handleRetryRequest cfg onLoss first).1 := by
  rw [retryTurn, List.take_of_length_le (Nat.le_refl _), handleRetryRequest]
  dsimp only
  split
  · exact .of_eq rfl rfl
  · exact .refl _

theorem later_handleRequest {turn : Nat → LlrManager} (start : turn 0 = σ)
    (later : ∀ i, Later (turn i) (turn (i + 1))) (n : Nat) : Later σ (turn n) := by
  induction n with
  | zero =>
      rw [start]
      exact .refl σ
  | succ n ih => exact ih.trans (later n)

theorem later_exec {a : LlrAct} (h : Kept cfg σ 0) (still : ∀ t, a ≠ .elapse t) :
    Later σ (σ.exec cfg a) := by
  cases a with
  | storePacket c => exact later_storePacket σ c
  | armRetryTimeoutAtTransmission key => exact later_arm σ key
  | removePacket key => exact later_removePacket σ key
  | removePacketsUpTo upTo => exact @later_callBack cfg σ (.removePacketsUpTo upTo)
  | removeSackedPackets ackedSeqNums destRank flowId vcId =>
      exact @later_callBack cfg σ (.removeSackedPackets ackedSeqNums destRank flowId vcId)
  | handleRetryRequest onLoss first =>
      refine Later.trans ?_ later_handleRetryRequest
      exact later_handleRequest rfl (later_retryTurn h) _
  | handleSackRequest onLoss nackSeqNums sourceRank flowId vcId =>
      let keys := (nackSeqNums.sort (· ≤ ·)).map fun seqNum =>
        RetryKey.mk seqNum sourceRank flowId vcId
      have all : Later σ (sackTurn cfg onLoss keys σ keys.length) :=
        later_handleRequest rfl (later_sackTurn h) _
      rw [sackTurn, List.take_of_length_le (Nat.le_refl keys.length)] at all
      exact all
  | retryTimeout key =>
      show Later σ (σ.onRetryTimeout key)
      rw [onRetryTimeout]
      split
      · exact .refl σ
      · exact .of_eq rfl rfl
  | elapse t => exact absurd rfl (still t)

theorem kept_invariant (cfg : LlrConfig) : (llrMachine cfg).Invariant fun σ => Kept cfg σ 0 := by
  intro σ hreach
  have timely : σ.Timely := by
    induction hreach with
    | init h =>
        cases h
        exact ⟨Nat.zero_le _, Nat.zero_le _⟩
    | @step σ a σ' reach enabled exec ih =>
        cases exec
        cases a with
        | elapse t => exact ⟨enabled.2.1, ih.available⟩
        | _ =>
            have kept : Kept cfg σ 0 := ⟨sound_invariant cfg σ reach, ih, ordered_zero σ⟩
            refine (later_exec kept fun t h => ?_).timely ih
            cases h
  exact ⟨sound_invariant cfg σ hreach, timely, ordered_zero σ⟩

/-- What a request that names `keys` returns and leaves. `turn i` is the manager when the request
comes to the `i`-th of them. -/
structure Retransmits (cfg : LlrConfig) (onLoss : LossCallback) (σ : LlrManager)
    (keys : List RetryKey) (turn : Nat → LlrManager) (answer : LlrManager × List Retransmission) :
    Prop where
  answered : Visit.Answered (Due cfg) (Serves cfg) turn keys answer.2
  inTime : ∀ r ∈ answer.2, σ.now + r.readyDelay ≤ timeMax
  start : turn 0 = σ
  later : ∀ i, Later (turn i) (turn (i + 1))
  done : Later (turn keys.length) answer.1
  undisturbed : ∀ i k, k ∉ keys.take i → Minds onLoss (keys.take i) k →
    Spared (StoresNothing onLoss (keys.take i)) k σ (turn i)
  spared : ∀ k, k ∉ keys → Minds onLoss keys k → Spared (StoresNothing onLoss keys) k σ answer.1

theorem Kept.retransmits_retry (h : Kept cfg σ 0) (first : RetryKey) :
    Retransmits cfg onLoss σ (σ.namedFrom first)
      (LlrManager.retryTurn cfg onLoss (σ.namedFrom first) σ)
      (σ.handleRetryRequest cfg onLoss first) := by
  have hsnd : (σ.handleRetryRequest cfg onLoss first).2 =
    (LlrManager.retryLoop cfg onLoss (σ.namedFrom first) 0 σ).2 := rfl
  refine ⟨?_, ?_, rfl, later_retryTurn h, later_handleRetryRequest, ?_, ?_⟩
  · rw [hsnd]
    exact answered_retryLoop h
  · rw [hsnd]
    exact fun r hr => ((delays_retryLoop h).1 r hr).2
  · exact fun i k hk minds => spared_retryLoop hk minds id
  · intro k hk minds
    have all : Spared (StoresNothing onLoss (σ.namedFrom first)) k σ
        (LlrManager.retryLoop cfg onLoss (σ.namedFrom first) 0 σ).1 := spared_retryLoop hk minds id
    rw [LlrManager.handleRetryRequest]
    dsimp only
    split
    · exact ⟨all.source, all.history, all.buffer⟩
    · exact all

theorem Kept.retransmits_sack (h : Kept cfg σ 0) (nackSeqNums : Finset UInt32)
    (sourceRank flowId : UInt16) (vcId : UInt8) :
    let keys := (nackSeqNums.sort (· ≤ ·)).map fun seqNum =>
      RetryKey.mk seqNum sourceRank flowId vcId
    Retransmits cfg onLoss σ keys (LlrManager.sackTurn cfg onLoss keys σ)
      (σ.handleSackRequest cfg onLoss nackSeqNums sourceRank flowId vcId) := by
  intro keys
  refine ⟨answered_sackLoop h, fun r hr => ((delays_sackLoop h).1 r hr).1, rfl, later_sackTurn h, ?_,
    fun i k hk minds => spared_sackLoop hk minds id, fun k hk minds => spared_sackLoop hk minds id⟩
  rw [LlrManager.sackTurn, List.take_of_length_le (Nat.le_refl _)]
  exact .refl _

end LlrManager

open LlrManager in
/-- A request is answered, in order, for the keys it names that are outstanding and within their
limit when it comes to them, and leaves all others alone. Go-back-N delays never decrease; in a
selective request only those of the reloads do not, since a copy is ready at once. A reload is
ready after its service time behind all reloads before it. -/
theorem llrManager_requests (cfg : LlrConfig) {σ : LlrManager} (reach : (llrMachine cfg).Reachable σ)
    (onLoss : LossCallback) :
    (∀ first,
      (∀ key, key ∈ σ.namedFrom first ↔ NamesFrom first key ∧ (outstanding σ.log key).isSome) ∧
      (σ.namedFrom first).Pairwise (fun a b => a.seqNum < b.seqNum) ∧
      Retransmits cfg onLoss σ (σ.namedFrom first) (retryTurn cfg onLoss (σ.namedFrom first) σ)
        (σ.handleRetryRequest cfg onLoss first) ∧
      (σ.handleRetryRequest cfg onLoss first).2.Pairwise
        (fun r r' => r.readyDelay ≤ r'.readyDelay)) ∧
    (∀ (nackSeqNums : Finset UInt32) (sourceRank flowId : UInt16) (vcId : UInt8),
      ∃ keys : List RetryKey,
        (∀ key, key ∈ keys ↔ key.seqNum ∈ nackSeqNums ∧ key.destRank = sourceRank ∧
          key.flowId = flowId ∧ key.vcId = vcId) ∧
        keys.Pairwise (fun a b => a.seqNum < b.seqNum) ∧
        Retransmits cfg onLoss σ keys (sackTurn cfg onLoss keys σ)
          (σ.handleSackRequest cfg onLoss nackSeqNums sourceRank flowId vcId) ∧
        (∀ r ∈ (σ.handleSackRequest cfg onLoss nackSeqNums sourceRank flowId vcId).2,
          r.sourceReload = false → r.readyDelay = 0) ∧
        ((σ.handleSackRequest cfg onLoss nackSeqNums sourceRank flowId vcId).2.filter
          (·.sourceReload)).Pairwise (fun r r' => r.readyDelay ≤ r'.readyDelay)) ∧
    ∀ a, σ.sourceReloadAvailable ≤ (σ.exec cfg a).sourceReloadAvailable := by
  have kept := kept_invariant cfg σ reach
  refine ⟨fun first => ⟨fun key => kept.sound.mem_namedFrom, ?_, kept.retransmits_retry first,
    (delays_retryLoop kept).2⟩, fun nackSeqNums sourceRank flowId vcId => ?_, fun a => ?_⟩
  · have strict : ∀ a ∈ σ.namedFrom first, ∀ b ∈ σ.namedFrom first, a ≠ b →
        a.seqNum ≤ b.seqNum → a.seqNum < b.seqNum := by
      intro a ha b hb hne hle
      obtain ⟨⟨ad, af, av, -⟩, -⟩ := kept.sound.mem_namedFrom.mp ha
      obtain ⟨⟨bd, bf, bv, -⟩, -⟩ := kept.sound.mem_namedFrom.mp hb
      rcases UInt32.lt_or_eq_of_le hle with hlt | heq
      · exact hlt
      · refine absurd ?_ hne
        cases a
        cases b
        simp_all
    have both := (nodup_namedFrom first).and (@sorted_namedFrom σ first)
    exact both.imp_of_mem fun ha hb hab => strict _ ha _ hb hab.1 hab.2
  · refine ⟨_, ?_, ?_, kept.retransmits_sack nackSeqNums sourceRank flowId vcId,
      fun r hr => ((delays_sackLoop kept).1 r hr).2.1, (delays_sackLoop kept).2⟩
    · intro key
      rw [List.mem_map]
      constructor
      · rintro ⟨seqNum, hmem, rfl⟩
        exact ⟨(Finset.mem_sort _).mp hmem, rfl, rfl, rfl⟩
      · rintro ⟨hmem, rfl, rfl, rfl⟩
        exact ⟨key.seqNum, (Finset.mem_sort _).mpr hmem, rfl⟩
    · rw [List.pairwise_map]
      have both := (nackSeqNums.sort_nodup (· ≤ ·)).and (nackSeqNums.pairwise_sort (· ≤ ·))
      exact both.imp fun h => UInt32.lt_of_le_of_ne h.2 h.1
  · cases a with
    | elapse t => exact Nat.le_refl _
    | _ =>
        refine (later_exec kept fun t h => ?_).available
        cases h

/-! ## A copy before a reload -/

/-- One copy fits, and a byte is reloaded in a nanosecond. -/
def narrowConfig : LlrConfig where
  maxBufferSize := 1
  sourceReloadBandwidth := 1000000000
  fromRate bytes rate := bytes.toNat * 1000000000 / rate.toNat

/-- A packet is stored under its number. -/
def numberedStore (seqNum : UInt32) : LlrAct :=
  .storePacket { seqNum, packet := { header := ⟨0, 0, 64, []⟩ }, destRank := 0 }

/-- Packet 1 lost its copy to packet 2. -/
def evictedManager : LlrManager :=
  (LlrManager.exec narrowConfig {} (numberedStore 1)).exec narrowConfig (numberedStore 2)

theorem reachable_evictedManager : (llrMachine narrowConfig).Reachable evictedManager :=
  .step (a := numberedStore 2) (.step (a := numberedStore 1) (.init rfl) trivial rfl) trivial rfl

/-- A selective request names both: the first is reloaded, the second is ready before it. -/
theorem handleSackRequest_decreases : ¬ ∀ cfg σ, (llrMachine cfg).Reachable σ →
    ∀ onLoss nackSeqNums sourceRank flowId vcId,
      (σ.handleSackRequest cfg onLoss nackSeqNums sourceRank flowId vcId).2.Pairwise
        (fun r r' => r.readyDelay ≤ r'.readyDelay) := by
  intro h
  have sorted : ({1, 2} : Finset UInt32).sort (· ≤ ·) = [1, 2] := by
    have least : ∀ b ∈ ({2} : Finset UInt32), 1 ≤ b := by
      intro b hb
      rw [Finset.mem_singleton.mp hb]
      decide
    have other : (1 : UInt32) ∉ ({2} : Finset UInt32) := by
      rw [Finset.mem_singleton]
      decide
    rw [Finset.sort_insert _ least other, Finset.sort_singleton]
  have both := h narrowConfig evictedManager reachable_evictedManager (fun _ _ => []) {1, 2} 0 0 0
  rw [LlrManager.handleSackRequest, sorted] at both
  have answer : (LlrManager.sackLoop narrowConfig (fun _ _ => [])
      ([1, 2].map fun seqNum => RetryKey.mk seqNum 0 0 0) evictedManager).2.map (·.readyDelay) =
        [364, 0] := by
    decide +kernel
  have decreasing := List.pairwise_map.mpr both
  rw [answer] at decreasing
  exact absurd decreasing (by decide)

/-- The same manager. -/
theorem llrManager_requests_evictedManager :
    (∀ a, evictedManager.sourceReloadAvailable ≤
      (evictedManager.exec narrowConfig a).sourceReloadAvailable) ∧
    ((evictedManager.handleRetryRequest narrowConfig (fun _ _ => []) ⟨1, 0, 0, 0⟩).2.Pairwise
      fun r r' => r.readyDelay ≤ r'.readyDelay) := by
  obtain ⟨retry, -, monotone⟩ :=
    llrManager_requests narrowConfig reachable_evictedManager fun _ _ => []
  exact ⟨monotone, (retry ⟨1, 0, 0, 0⟩).2.2.2⟩

end ProtoBridge.Endpoint
