import ProtoBridge.Endpoint.LlrStore

/-!
# The fate of a stored packet

Every request is answered with the packet stored last until the limit is used up, and a
key leaves by one acknowledgement or one loss. A limit of `UINT32_MAX` is never used up,
since the count of a key wraps around before it goes beyond it.
-/

namespace ProtoBridge.Endpoint

open Lib

variable {cfg : LlrConfig} {σ σ' : LlrManager} {key : RetryKey}

namespace LlrManager

/-! ## Acknowledgements -/

theorem Sound.isSome_iff (h : σ.Sound cfg) (key : RetryKey) :
    (σ.sourceStore.find? key).isSome = (outstanding σ.log key).isSome :=
  (h.tracked.source key).isSome

theorem Sound.remove (h : σ.Sound cfg) (log : List LlrObs)
    (ht : (LlrManager.removeOutstandingPacket { σ with log } key).Tracked cfg) :
    (LlrManager.removeOutstandingPacket { σ with log } key).Sound cfg := by
  let σ' := LlrManager.removeOutstandingPacket { σ with log } key
  refine ⟨ht, h.copies.erase key rfl ?_, h.fits.erase key rfl⟩
  intro k hne
  show (σ.sourceStore.erase key).find? k = _
  rw [UnorderedMap.find?_erase, if_neg hne]

theorem Sound.acked (h : σ.Sound cfg) (hs : (σ.sourceStore.find? key).isSome) :
    (LlrManager.removeOutstandingPacket { σ with log := σ.log ++ [.acked key] } key).Sound cfg := by
  refine h.remove _ (h.tracked.removeOutstandingPacket ?_ (fun k o => rfl))
  show (outstanding σ.log key).isSome
  rwa [← h.isSome_iff]

/-- An acknowledgement takes the keys it covers out of the history, and no others. -/
def Settles (σ σ' : LlrManager) (covered : RetryKey → Prop) : Prop :=
  ∀ k, (covered k → outstanding σ'.log k = none) ∧
    (¬ covered k → outstanding σ'.log k = outstanding σ.log k)

theorem Settles.acked : Settles σ
    (LlrManager.removeOutstandingPacket { σ with log := σ.log ++ [.acked key] } key) (· = key) := by
  intro k
  show (_ → outstanding (σ.log ++ [.acked key]) k = none) ∧
    (_ → outstanding (σ.log ++ [.acked key]) k = _)
  rw [outstanding_snoc, live]
  constructor
  · intro hk
    rw [if_pos hk.symm]
  · intro hk
    rw [if_neg (Ne.symm hk)]

variable {σ'' : LlrManager} {limit : UInt32} {tail : List LlrObs} {r : Option Retransmission}
  {first : RetryKey}

theorem Settles.trans {p q : RetryKey → Prop} (h : Settles σ σ' p) (h' : Settles σ' σ'' q)
    : Settles σ σ'' fun k => p k ∨ q k := by
  intro k
  constructor
  · intro hk
    by_cases hq : q k
    · exact (h' k).1 hq
    · rw [(h' k).2 hq]
      exact (h k).1 (hk.resolve_right hq)
  · intro hk
    rw [(h' k).2 (fun hq => hk (.inr hq)), (h k).2 (fun hp => hk (.inl hp))]

theorem Sound.removePacket (h : σ.Sound cfg) (key : RetryKey) :
    (σ.removePacket key).1.Sound cfg ∧ Settles σ (σ.removePacket key).1 (· = key) := by
  rw [LlrManager.removePacket]
  dsimp only
  split
  · rename_i hs
    exact ⟨h.acked hs, .acked⟩
  · rename_i hs
    have hnone : σ.sourceStore.find? key = none := by simpa using hs
    have hout : outstanding σ.log key = none := by
      have hmatch := h.tracked.source key
      rw [hnone] at hmatch
      exact hmatch.of_none
    constructor
    · refine h.remove σ.log (h.tracked.frame rfl ?_)
      intro k
      show Matches _ _ ((σ.sourceStore.erase key).find? k) _
      rw [UnorderedMap.find?_erase]
      split
      · rename_i hk
        rw [hk, hout]
        trivial
      · exact h.tracked.source k
    · intro k
      exact ⟨fun hk => hk ▸ hout, fun _ => rfl⟩

theorem Sound.removeSackedPackets {ackedSeqNums : List UInt32} {destRank flowId : UInt16}
    {vcId : UInt8} (h : σ.Sound cfg) :
    (σ.removeSackedPackets ackedSeqNums destRank flowId vcId).Sound cfg ∧
      Settles σ (σ.removeSackedPackets ackedSeqNums destRank flowId vcId) fun k =>
        ∃ seqNum ∈ ackedSeqNums, k = ⟨seqNum, destRank, flowId, vcId⟩ := by
  induction ackedSeqNums generalizing σ with
  | nil => exact ⟨h, fun k => ⟨fun ⟨_, hmem, _⟩ => absurd hmem (by simp), fun _ => rfl⟩⟩
  | cons seqNum rest ih =>
      obtain ⟨hfirst, hsettles⟩ := h.removePacket ⟨seqNum, destRank, flowId, vcId⟩
      obtain ⟨hsound, hrest⟩ := ih hfirst
      refine ⟨hsound, ?_⟩
      intro k
      have hboth := hsettles.trans hrest k
      simp only [List.mem_cons, exists_eq_or_imp]
      exact hboth

/-- What a cumulative acknowledgement covers. -/
def CoveredBy (upTo key : RetryKey) : Prop :=
  key.destRank = upTo.destRank ∧ key.flowId = upTo.flowId ∧ key.vcId = upTo.vcId ∧
    key.seqNum ≤ upTo.seqNum

variable {keys : List RetryKey} {source : SourceEntry} {onLoss : LossCallback}

theorem Sound.ackAll (h : σ.Sound cfg) (hnodup : keys.Nodup)
    (hs : ∀ k ∈ keys, (σ.sourceStore.find? k).isSome) :
    (keys.foldl (fun σ key => LlrManager.removeOutstandingPacket
        { σ with log := σ.log ++ [.acked key] } key) σ).Sound cfg ∧
      Settles σ (keys.foldl (fun σ key => LlrManager.removeOutstandingPacket
        { σ with log := σ.log ++ [.acked key] } key) σ) (· ∈ keys) := by
  induction keys generalizing σ with
  | nil => exact ⟨h, fun k => ⟨fun hmem => absurd hmem (by simp), fun _ => rfl⟩⟩
  | cons key keys ih =>
      obtain ⟨hnotin, hnodup⟩ := List.nodup_cons.mp hnodup
      have hfirst := h.acked (hs key List.mem_cons_self)
      obtain ⟨hsound, hrest⟩ := ih hfirst hnodup (by
        intro k hk
        have hne : k ≠ key := by
          rintro rfl
          exact hnotin hk
        show ((σ.sourceStore.erase key).find? k).isSome
        rw [UnorderedMap.find?_erase, if_neg hne]
        exact hs k (List.mem_cons_of_mem _ hk))
      refine ⟨hsound, ?_⟩
      intro k
      have hboth := Settles.acked.trans hrest k
      simp only [List.mem_cons]
      exact hboth

theorem Sound.removePacketsUpTo {upTo : RetryKey} (h : σ.Sound cfg) :
    (σ.removePacketsUpTo upTo).Sound cfg ∧
      Settles σ (σ.removePacketsUpTo upTo) (CoveredBy upTo) := by
  have hmem : ∀ k, k ∈ (σ.sourceStore.keys.filter fun key =>
      key.destRank = upTo.destRank ∧ key.flowId = upTo.flowId ∧ key.vcId = upTo.vcId ∧
        key.seqNum ≤ upTo.seqNum) ↔ (outstanding σ.log k).isSome ∧ CoveredBy upTo k := by
    intro k
    rw [List.mem_filter, UnorderedMap.mem_keys, ← Option.isSome_iff_exists, h.isSome_iff,
      decide_eq_true_eq]
    rfl
  obtain ⟨hsound, hsettles⟩ := h.ackAll (σ.sourceStore.nodup.filter _) (by
    intro k hk
    rw [h.isSome_iff]
    exact ((hmem k).mp hk).1)
  refine ⟨hsound, ?_⟩
  intro k
  obtain ⟨hin, hout⟩ := hsettles k
  constructor
  · intro hcovered
    by_cases hlive : (outstanding σ.log k).isSome
    · exact hin ((hmem k).mpr ⟨hlive, hcovered⟩)
    · have hnone : outstanding σ.log k = none := by simpa using hlive
      exact (hout fun hin => hlive ((hmem k).mp hin).1).trans hnone
  · intro hcovered
    exact hout fun hin => hcovered ((hmem k).mp hin).2

/-! ## Timers -/

theorem Sound.timer (h : σ.Sound cfg) (key : RetryKey) (f : SourceEntry → SourceEntry)
    (hf : ∀ s, (f s).packet = s.packet ∧ (f s).destRank = s.destRank ∧
      (f s).retryCount = s.retryCount)
    (hstore : σ'.sourceStore = σ.sourceStore.update key f) (hlog : σ'.log = σ.log)
    (hbuffer : σ'.retryBuffer = σ.retryBuffer) : σ'.Sound cfg := by
  refine ⟨?_, ?_, ?_⟩
  · apply h.tracked.frame hlog
    intro k
    rw [hstore]
    exact Matches.timer hf (h.tracked.source k)
  · intro k entry hentry
    rw [hbuffer] at hentry
    obtain ⟨source, hs, hp⟩ := h.copies k entry hentry
    rw [hstore, UnorderedMap.find?_update]
    split
    · rename_i heq
      subst heq
      exact ⟨f source, by rw [hs]; rfl, hp.trans (hf source).1.symm⟩
    · exact ⟨source, hs, hp⟩
  · intro hpos
    rw [hbuffer]
    exact h.fits hpos

theorem Sound.arm (h : σ.Sound cfg) (key : RetryKey) :
    (σ.armRetryTimeoutAtTransmission cfg key).Sound cfg := by
  rw [LlrManager.armRetryTimeoutAtTransmission]
  split
  · exact h
  · split
    · exact h
    · let armed : SourceEntry → SourceEntry := fun source =>
        { source with
          wireArmed := true
          timeoutEvent := some (max (source.timeoutEvent.getD 0) (σ.now + cfg.retryTimeout)) }
      exact h.timer key armed (fun s => ⟨rfl, rfl, rfl⟩) rfl rfl rfl

/-! ## The callback -/

theorem Sound.callBack (h : σ.Sound cfg) (c : LossCall) :
    (LlrManager.callBack cfg σ c).Sound cfg := by
  cases c with
  | storePacket c => exact h.storePacket c
  | armRetryTimeoutAtTransmission key => exact h.arm key
  | removePacket key => exact (h.removePacket key).1
  | removePacketsUpTo upTo => exact h.removePacketsUpTo.1
  | removeSackedPackets ackedSeqNums destRank flowId vcId => exact h.removeSackedPackets.1

theorem Sound.callBacks (calls : List LossCall) (h : σ.Sound cfg) :
    (calls.foldl (LlrManager.callBack cfg) σ).Sound cfg := by
  induction calls generalizing σ with
  | nil => exact h
  | cons c calls ih => exact ih (h.callBack c)

/-- A callback that stores packets and does nothing else. -/
def OnlyStores (onLoss : LossCallback) : Prop := ∃ stores, onLoss = storing stores

theorem callBacks_storing (cfg : LlrConfig) (σ : LlrManager) (calls : List StoreCall) :
    (calls.map LossCall.storePacket).foldl (LlrManager.callBack cfg) σ =
      calls.foldl (fun σ c => (σ.storePacket cfg c).1) σ := by
  rw [List.foldl_map]
  rfl

/-! ## Requests -/

/-- The count of the code goes beyond the limit at the request after `retryLimit` others, and never
where there is no limit. -/
theorem lt_count_iff {count : UInt32} {n : Nat} (hcount : count.toNat = n % 2 ^ 32)
    (hle : limit ≠ unlimited → n ≤ limit.toNat) :
    limit < count + 1 ↔ n = limit.toNat ∧ limit ≠ unlimited := by
  have hlt := limit.toNat_lt
  have hmax : limit = unlimited ↔ limit.toNat = 2 ^ 32 - 1 := by
    rw [← UInt32.toNat_inj]
    rfl
  rw [UInt32.lt_iff_toNat_lt, UInt32.toNat_add, hcount, UInt32.toNat_one]
  by_cases h : limit = unlimited
  · have := hmax.mp h
    simp only [h, ne_eq, not_true_eq_false, and_false, iff_false]
    rw [← h]
    omega
  · have := hle h
    have hne := mt hmax.mpr h
    simp only [ne_eq, h, not_false_eq_true, and_true]
    omega

theorem Matches.countUp {o : Outstanding} (h : Matches limit key (some source) (some o))
    (hlim : ¬ limit < source.retryCount + 1) {wireArmed : Bool} {timeoutEvent : Option Nat} :
    Matches limit key
      (some { source with retryCount := source.retryCount + 1, wireArmed, timeoutEvent })
      (some { o with requests := o.requests + 1 }) := by
  obtain ⟨hp, hd, hr, hl⟩ := h
  refine ⟨hp, hd, ?_, ?_⟩
  · show (source.retryCount + 1).toNat = (o.requests + 1) % 2 ^ 32
    rw [UInt32.toNat_add, hr, UInt32.toNat_one]
    omega
  · intro hne
    have hle := hl hne
    have hnot := (lt_count_iff hr hl).not.mp hlim
    show o.requests + 1 ≤ _
    have : o.requests ≠ limit.toNat := fun h => hnot ⟨h, hne⟩
    omega

/-- What a request leaves behind a key: its answer, and what the callback stored. -/
structure Replied (cfg : LlrConfig) (onLoss : LossCallback) (key : RetryKey)
    (r : Option Retransmission) (σ σ' : LlrManager) : Prop where
  sound : σ'.Sound cfg
  log : OnlyStores onLoss → ∃ e tail, σ'.log = σ.log ++ e :: tail ∧ (∀ e ∈ tail, Storing e) ∧
    ((∃ header, e = .lost key header ∧ r = none) ∨ ∃ r', e = .retransmitted key r' ∧ r = some r')

theorem Sound.giveUp (h : σ.Sound cfg) (hs : σ.sourceStore.find? key = some source)
    (hlim : cfg.retryLimit < source.retryCount + 1) (f : SourceEntry → SourceEntry) :
    Replied cfg onLoss key none σ (LlrManager.giveUp cfg onLoss
      { σ with sourceStore := σ.sourceStore.update key f } key source.packet.header) := by
  let σ₁ : LlrManager := { σ with sourceStore := σ.sourceStore.update key f }
  let σ₂ : LlrManager := { σ₁.removeOutstandingPacket key with
    log := σ.log ++ [.lost key source.packet.header]
    stats := { σ.stats with permanentLossCount := σ.stats.permanentLossCount + 1 } }
  have hkey := h.tracked.source key
  rw [hs] at hkey
  obtain ⟨o, ho, hp, -, hr, hl⟩ := hkey.of_some
  obtain ⟨hn, hne⟩ := (lt_count_iff hr hl).mp hlim
  have hfind : ∀ k, σ₂.sourceStore.find? k = if k = key then none else σ.sourceStore.find? k := by
    intro k
    show ((σ.sourceStore.update key f).erase key).find? k = _
    rw [UnorderedMap.find?_erase, UnorderedMap.find?_update]
    split <;> rfl
  have hσ₂ : σ₂.Sound cfg := by
    refine ⟨?_, ?_, ?_⟩
    · refine h.tracked.snoc (.lost key source.packet.header) rfl ?_ ?_
      · exact ⟨o, ho, by rw [hp], hn, hne⟩
      · intro k
        rw [hfind, live]
        by_cases hk : k = key
        · rw [if_pos hk, if_pos hk.symm]
          trivial
        · rw [if_neg hk, if_neg (Ne.symm hk)]
          exact h.tracked.source k
    · refine h.copies.erase key rfl ?_
      intro k hne
      rw [hfind, if_neg hne]
    · exact h.fits.erase key rfl
  refine ⟨hσ₂.callBacks (onLoss key source.packet.header), ?_⟩
  rintro ⟨stores, rfl⟩
  obtain ⟨-, tail, hlog, hall⟩ := hσ₂.storeAll (stores key source.packet.header)
  refine ⟨.lost key source.packet.header, tail, ?_, hall, .inl ⟨_, rfl, rfl⟩⟩
  show ((storing stores key source.packet.header).foldl (LlrManager.callBack cfg) σ₂).log = _
  rw [storing, callBacks_storing, hlog]
  simp [σ₂]

theorem packet_fetchCopy (cfg : LlrConfig) (delay : Nat)
    (hcopy : ∀ entry, σ.retryBuffer.find? key = some entry → entry.packet = source.packet) :
    (σ.fetchCopy cfg key source delay).2.packet = source.packet := by
  rw [LlrManager.fetchCopy]
  split
  · rename_i entry hentry
    exact hcopy entry hentry
  · rfl

theorem frame_fetchCopy (cfg : LlrConfig) (σ : LlrManager) (key : RetryKey) (source : SourceEntry)
    (delay : Nat) :
    (σ.fetchCopy cfg key source delay).1.sourceStore = σ.sourceStore ∧
      (σ.fetchCopy cfg key source delay).1.retryBuffer = σ.retryBuffer ∧
      (σ.fetchCopy cfg key source delay).1.log = σ.log := by
  rw [LlrManager.fetchCopy]
  split <;> exact ⟨rfl, rfl, rfl⟩

/-- A request at a key that is outstanding is answered, and the count goes up. -/
theorem Sound.answerRequest (h : σ.Sound cfg) (onLoss : LossCallback) (delay : Nat)
    (hs : σ.sourceStore.find? key = some source) :
    Replied cfg onLoss key (σ.answerRequest cfg onLoss key source delay).2 σ
      (σ.answerRequest cfg onLoss key source delay).1 := by
  rw [LlrManager.answerRequest]
  dsimp only
  split
  · rename_i hlim
    exact h.giveUp hs hlim _
  · rename_i hlim
    let counted : SourceEntry := { source with retryCount := source.retryCount + 1 }
    let σ₁ : LlrManager := { σ with sourceStore := σ.sourceStore.update key fun _ => counted }
    have hkey := h.tracked.source key
    rw [hs] at hkey
    obtain ⟨o, ho, hmatch⟩ := hkey.of_some
    have hcopy : ∀ entry, σ₁.retryBuffer.find? key = some entry →
        entry.packet = counted.packet := by
      intro entry hentry
      obtain ⟨source', hs', hp⟩ := h.copies key entry hentry
      rw [hs] at hs'
      cases hs'
      exact hp
    have hp := packet_fetchCopy cfg delay hcopy
    obtain ⟨hsource, hbuffer, hlog⟩ := frame_fetchCopy cfg σ₁ key counted delay
    show Replied cfg onLoss key (some (σ₁.fetchCopy cfg key counted delay).2) σ
      ((σ₁.fetchCopy cfg key counted delay).1.noteRetry key (σ₁.fetchCopy cfg key counted delay).2)
    rcases hf : σ₁.fetchCopy cfg key counted delay with ⟨σ₂, r⟩
    rw [hf] at hp hsource hbuffer hlog
    let σ₃ := σ₂.noteRetry key r
    have hfind : ∀ k, σ₃.sourceStore.find? k =
        if k = key then some { counted with wireArmed := false, timeoutEvent := none }
        else σ.sourceStore.find? k := by
      intro k
      show (σ₂.sourceStore.update key _).find? k = _
      rw [hsource, UnorderedMap.find?_update]
      split
      · rename_i heq
        subst heq
        show Option.map _ ((σ.sourceStore.update k fun _ => counted).find? k) = _
        rw [UnorderedMap.find?_update, if_pos rfl, hs]
        rfl
      · rename_i hne
        show (σ.sourceStore.update key fun _ => counted).find? k = _
        rw [UnorderedMap.find?_update, if_neg hne]
    have hσ₃ : σ₃.Sound cfg := by
      refine ⟨?_, ?_, ?_⟩
      · refine h.tracked.snoc (.retransmitted key r) ?_ ?_ ?_
        · show σ₂.log ++ _ = _
          rw [hlog]
        · refine ⟨o, ho, hp.trans hmatch.1, ?_⟩
          have hnot := (lt_count_iff hmatch.2.2.1 hmatch.2.2.2).not.mp hlim
          by_cases hne : cfg.retryLimit = unlimited
          · exact .inr hne
          · have hle := hmatch.2.2.2 hne
            have : o.requests ≠ cfg.retryLimit.toNat := fun heq => hnot ⟨heq, hne⟩
            exact .inl (by omega)
        · intro k
          rw [hfind, live]
          by_cases hk : k = key
          · rw [if_pos hk, if_pos hk.symm, hk, ho]
            exact Matches.countUp hmatch hlim
          · rw [if_neg hk, if_neg (Ne.symm hk)]
            exact h.tracked.source k
      · intro k entry hentry
        change σ₂.retryBuffer.find? k = some entry at hentry
        rw [hbuffer] at hentry
        rw [hfind]
        split
        · rename_i hk
          subst hk
          exact ⟨_, rfl, hcopy entry hentry⟩
        · exact h.copies k entry hentry
      · intro hpos
        show σ₂.retryBuffer.size ≤ _
        rw [hbuffer]
        exact h.fits hpos
    refine ⟨hσ₃, fun _ => ⟨.retransmitted key r, [], ?_, by simp, .inr ⟨r, rfl, rfl⟩⟩⟩
    show σ₂.log ++ _ = _
    rw [hlog]

/-- The key that a request named here. -/
def requestOf : LlrObs → Option RetryKey
  | .missed key | .retransmitted key _ | .lost key _ => some key
  | _ => none

/-- The retransmission that is sent here. -/
def answerOf : LlrObs → Option Retransmission
  | .retransmitted _ r => some r
  | _ => none

/-- From `σ` to `σ'` requests named `keys`, each once and in this order, and returned `rs`. -/
def Asked (σ σ' : LlrManager) (keys : List RetryKey) (rs : List Retransmission) : Prop :=
  ∃ tail, σ'.log = σ.log ++ tail ∧ tail.filterMap requestOf = keys ∧ tail.filterMap answerOf = rs

theorem Asked.trans {keys' : List RetryKey} {rs rs' : List Retransmission} (h : Asked σ σ' keys rs)
    (h' : Asked σ' σ'' keys' rs') : Asked σ σ'' (keys ++ keys') (rs ++ rs') := by
  obtain ⟨tail, hlog, hkeys, hrs⟩ := h
  obtain ⟨tail', hlog', hkeys', hrs'⟩ := h'
  refine ⟨tail ++ tail', by rw [hlog', hlog, List.append_assoc], ?_, ?_⟩
  · rw [List.filterMap_append, hkeys, hkeys']
  · rw [List.filterMap_append, hrs, hrs']

theorem filterMap_storing {β : Type} {f : LlrObs → Option β} (hf : ∀ e, Storing e → f e = none)
    (hall : ∀ e ∈ tail, Storing e) : tail.filterMap f = [] := by
  rw [List.filterMap_eq_nil_iff]
  intro e he
  exact hf e (hall e he)

theorem requestOf_storing : ∀ e, Storing e → requestOf e = none := by
  intro e he
  cases e <;> first | rfl | exact he.elim

theorem answerOf_storing : ∀ e, Storing e → answerOf e = none := by
  intro e he
  cases e <;> first | rfl | exact he.elim

theorem Replied.asked (h : Replied cfg onLoss key r σ σ') (stores : OnlyStores onLoss)
    : Asked σ σ' [key] r.toList := by
  obtain ⟨e, tail, hlog, hall, he⟩ := h.log stores
  refine ⟨e :: tail, hlog, ?_, ?_⟩
  · rw [List.filterMap_cons, filterMap_storing requestOf_storing hall]
    rcases he with ⟨header, rfl, -⟩ | ⟨r', rfl, -⟩ <;> rfl
  · rw [List.filterMap_cons, filterMap_storing answerOf_storing hall]
    rcases he with ⟨header, rfl, rfl⟩ | ⟨r', rfl, rfl⟩ <;> rfl

/-- An acknowledgement or a loss of `key`. -/
def Removes (key : RetryKey) (e : LlrObs) : Prop := e = .acked key ∨ ∃ header, e = .lost key header

theorem isSome_live {o : Option Outstanding} {e : LlrObs} (h : o.isSome) (he : ¬ Removes key e) :
    (live key o e).isSome := by
  cases e with
  | stored k packet =>
      rw [live]
      split
      · rfl
      · exact h
  | acked k =>
      rw [live, if_neg]
      · exact h
      · rintro rfl
        exact he (.inl rfl)
  | lost k header =>
      rw [live, if_neg]
      · exact h
      · rintro rfl
        exact he (.inr ⟨header, rfl⟩)
  | retransmitted k r =>
      rw [live]
      split
      · rwa [Option.isSome_map]
      · exact h
  | _ => exact h

theorem isSome_outstanding_append {log : List LlrObs} (h : (outstanding log key).isSome)
    (htail : ∀ e ∈ tail, ¬ Removes key e) : (outstanding (log ++ tail) key).isSome := by
  induction tail generalizing log with
  | nil => rwa [List.append_nil]
  | cons e tail ih =>
      rw [List.append_cons]
      apply ih
      · rw [outstanding_snoc]
        exact isSome_live h (htail e List.mem_cons_self)
      · intro e' he'
        exact htail e' (List.mem_cons_of_mem _ he')

theorem Replied.isSome {k : RetryKey} (hσ : σ.Sound cfg) (h : Replied cfg onLoss key r σ σ')
    (stores : OnlyStores onLoss) (hk : k ≠ key) (hs : (σ.sourceStore.find? k).isSome)
    : (σ'.sourceStore.find? k).isSome := by
  obtain ⟨e, tail, hlog, hall, he⟩ := h.log stores
  rw [h.sound.isSome_iff, hlog]
  apply isSome_outstanding_append
  · rwa [← hσ.isSome_iff]
  · intro e' hmem hrem
    rcases List.mem_cons.mp hmem with rfl | hmem
    · rcases he with ⟨header, rfl, -⟩ | ⟨r', rfl, -⟩ <;>
        rcases hrem with hrem | ⟨_, hrem⟩ <;> cases hrem
      exact hk rfl
    · have hstoring := hall e' hmem
      rcases hrem with rfl | ⟨_, rfl⟩ <;> exact hstoring

theorem Sound.retryLoop (h : σ.Sound cfg) (onLoss : LossCallback) (keys : List RetryKey)
    (delay : Nat) : (LlrManager.retryLoop cfg onLoss keys delay σ).1.Sound cfg := by
  induction keys generalizing σ delay with
  | nil => exact h
  | cons key keys ih =>
      rw [LlrManager.retryLoop]
      split
      · exact ih h delay
      · rename_i source hsource
        exact ih (h.answerRequest onLoss delay hsource).sound _

theorem Sound.asked_retryLoop (h : σ.Sound cfg) (stores : OnlyStores onLoss) (delay : Nat)
    (hnodup : keys.Nodup) (hs : ∀ k ∈ keys, (σ.sourceStore.find? k).isSome) :
    Asked σ (LlrManager.retryLoop cfg onLoss keys delay σ).1 keys
      (LlrManager.retryLoop cfg onLoss keys delay σ).2 := by
  induction keys generalizing σ delay with
  | nil => exact ⟨[], by simp [LlrManager.retryLoop], rfl, rfl⟩
  | cons key keys ih =>
      obtain ⟨hnotin, hnodup⟩ := List.nodup_cons.mp hnodup
      obtain ⟨source, hsource⟩ := Option.isSome_iff_exists.mp (hs key List.mem_cons_self)
      have hreply := h.answerRequest onLoss delay hsource
      rw [LlrManager.retryLoop, hsource]
      dsimp only
      have hasked := ih hreply.sound
        (((σ.answerRequest cfg onLoss key source delay).2.map (·.readyDelay)).getD delay) hnodup (by
          intro k hk
          have hne : k ≠ key := by
            rintro rfl
            exact hnotin hk
          exact hreply.isSome h stores hne (hs k (List.mem_cons_of_mem _ hk)))
      exact (hreply.asked stores).trans hasked

theorem Sound.missed (h : σ.Sound cfg) (hnone : σ.sourceStore.find? key = none) :
    LlrManager.Sound cfg { σ with
      log := σ.log ++ [.missed key]
      stats := { σ.stats with retryMissCount := σ.stats.retryMissCount + 1 } } := by
  have hkey := h.tracked.source key
  rw [hnone] at hkey
  exact ⟨h.tracked.snoc (.missed key) rfl hkey.of_none h.tracked.source, h.copies, h.fits⟩

theorem Sound.sackLoop (h : σ.Sound cfg) (onLoss : LossCallback) (keys : List RetryKey) :
    (LlrManager.sackLoop cfg onLoss keys σ).1.Sound cfg := by
  induction keys generalizing σ with
  | nil => exact h
  | cons key keys ih =>
      rw [LlrManager.sackLoop]
      split
      · rename_i hnone
        exact ih (h.missed hnone)
      · rename_i source hsource
        exact ih (h.answerRequest onLoss 0 hsource).sound

theorem Sound.asked_sackLoop (h : σ.Sound cfg) (stores : OnlyStores onLoss) :
    Asked σ (LlrManager.sackLoop cfg onLoss keys σ).1 keys
      (LlrManager.sackLoop cfg onLoss keys σ).2 := by
  induction keys generalizing σ with
  | nil => exact ⟨[], by simp [LlrManager.sackLoop], rfl, rfl⟩
  | cons key keys ih =>
      rw [LlrManager.sackLoop]
      split
      · rename_i hnone
        have hone : Asked σ { σ with
            log := σ.log ++ [.missed key]
            stats := { σ.stats with retryMissCount := σ.stats.retryMissCount + 1 } } [key] [] :=
          ⟨[.missed key], rfl, rfl, rfl⟩
        exact hone.trans (ih (h.missed hnone))
      · rename_i source hsource
        have hreply := h.answerRequest onLoss 0 hsource
        exact (hreply.asked stores).trans (ih hreply.sound)

/-- What a go-back-N request names: the outstanding numbers of the flow from the first one on. -/
def NamesFrom (first key : RetryKey) : Prop :=
  key.destRank = first.destRank ∧ key.flowId = first.flowId ∧ key.vcId = first.vcId ∧
    first.seqNum ≤ key.seqNum

theorem Sound.mem_namedFrom (h : σ.Sound cfg) :
    key ∈ σ.namedFrom first ↔ NamesFrom first key ∧ (outstanding σ.log key).isSome := by
  rw [namedFrom, (List.mergeSort_perm _ _).mem_iff, List.mem_map, ← h.isSome_iff]
  constructor
  · rintro ⟨⟨k, source⟩, hmem, rfl⟩
    obtain ⟨hentry, hp⟩ := List.mem_filter.mp hmem
    obtain ⟨hflow, hseq, hdest, hvc⟩ := of_decide_eq_true hp
    have hfind := UnorderedMap.find?_eq_some.mpr hentry
    have hmatch := h.tracked.source k
    rw [hfind] at hmatch
    obtain ⟨o, -, -, hrank, -⟩ := hmatch.of_some
    exact ⟨⟨hrank.symm.trans hdest, hflow, hvc, hseq⟩, by rw [hfind]; rfl⟩
  · rintro ⟨⟨hdest, hflow, hvc, hseq⟩, hsome⟩
    obtain ⟨source, hfind⟩ := Option.isSome_iff_exists.mp hsome
    have hmatch := h.tracked.source key
    rw [hfind] at hmatch
    obtain ⟨o, -, -, hrank, -⟩ := hmatch.of_some
    refine ⟨(key, source), List.mem_filter.mpr ⟨UnorderedMap.find?_eq_some.mp hfind, ?_⟩, rfl⟩
    exact decide_eq_true ⟨hflow, hseq, hrank.trans hdest, hvc⟩

theorem nodup_namedFrom (first : RetryKey) : (σ.namedFrom first).Nodup := by
  rw [namedFrom, (List.mergeSort_perm _ _).nodup_iff]
  exact σ.sourceStore.nodup.sublist (List.filter_sublist.map Prod.fst)

theorem sorted_namedFrom (first : RetryKey) :
    (σ.namedFrom first).Pairwise fun a b => a.seqNum ≤ b.seqNum := by
  have h := @List.pairwise_mergeSort _ (fun a b : RetryKey => decide (a.seqNum ≤ b.seqNum))
    (by intro a b c hab hbc; simp only [decide_eq_true_eq] at *; exact UInt32.le_trans hab hbc)
    (by intro a b; simp only [Bool.or_eq_true, decide_eq_true_eq]; exact UInt32.le_total _ _)
    ((σ.sourceStore.entries.filter fun e =>
      e.1.flowId = first.flowId ∧ e.1.seqNum ≥ first.seqNum ∧ e.2.destRank = first.destRank ∧
        e.1.vcId = first.vcId).map Prod.fst)
  exact h.imp of_decide_eq_true

theorem Sound.handleRetryRequest (h : σ.Sound cfg) (onLoss : LossCallback) (first : RetryKey) :
    (σ.handleRetryRequest cfg onLoss first).1.Sound cfg := by
  have hsound := h.retryLoop onLoss (σ.namedFrom first) 0
  rw [LlrManager.handleRetryRequest]
  dsimp only
  split
  · exact ⟨hsound.tracked.of_eq rfl rfl, hsound.copies, hsound.fits⟩
  · exact hsound

theorem Sound.asked_handleRetryRequest (h : σ.Sound cfg) (stores : OnlyStores onLoss) :
    Asked σ (σ.handleRetryRequest cfg onLoss first).1 (σ.namedFrom first)
      (σ.handleRetryRequest cfg onLoss first).2 := by
  have hs : ∀ k ∈ σ.namedFrom first, (σ.sourceStore.find? k).isSome := by
    intro k hk
    rw [h.isSome_iff]
    exact (h.mem_namedFrom.mp hk).2
  have hasked := h.asked_retryLoop stores 0 (nodup_namedFrom first) hs
  rw [LlrManager.handleRetryRequest]
  dsimp only
  split
  · exact hasked
  · exact hasked

/-! ## Runs -/

theorem Sound.exec {a : LlrAct} (h : σ.Sound cfg) : (σ.exec cfg a).Sound cfg := by
  cases a with
  | storePacket c => exact h.storePacket c
  | armRetryTimeoutAtTransmission key => exact h.arm key
  | removePacket key => exact (h.removePacket key).1
  | removePacketsUpTo upTo => exact h.removePacketsUpTo.1
  | removeSackedPackets ackedSeqNums destRank flowId vcId => exact h.removeSackedPackets.1
  | handleRetryRequest onLoss first => exact h.handleRetryRequest onLoss first
  | handleSackRequest onLoss nackSeqNums sourceRank flowId vcId => exact h.sackLoop onLoss _
  | retryTimeout key =>
      show (σ.onRetryTimeout key).Sound cfg
      rw [LlrManager.onRetryTimeout]
      split
      · exact h
      · rename_i source hs
        let σ₁ : LlrManager := { σ with log := σ.log ++ [.timedOut key] }
        have hσ₁ : σ₁.Sound cfg := by
          refine ⟨?_, h.copies, h.fits⟩
          refine h.tracked.snoc (.timedOut key) rfl ?_ ?_
          · show (outstanding σ.log key).isSome
            rw [← h.isSome_iff, hs]
            rfl
          · exact h.tracked.source
        exact hσ₁.timer key (fun source => { source with timeoutEvent := none })
          (fun s => ⟨rfl, rfl, rfl⟩) rfl rfl rfl
  | elapse later => exact ⟨h.tracked.of_eq rfl rfl, h.copies, h.fits⟩

theorem log_armRetryTimeout (key : RetryKey) :
    (σ.armRetryTimeoutAtTransmission cfg key).log = σ.log := by
  rw [armRetryTimeoutAtTransmission]
  split
  · rfl
  · split <;> rfl

theorem outstanding_onRetryTimeout (key k : RetryKey) :
    outstanding (σ.onRetryTimeout key).log k = outstanding σ.log k := by
  rw [onRetryTimeout]
  split
  · rfl
  · exact outstanding_snoc _ _ k

theorem sound_invariant (cfg : LlrConfig) : (llrMachine cfg).Invariant (Sound cfg) := by
  apply Machine.Inductive.invariant
  constructor
  · rintro σ rfl
    refine ⟨⟨fun key => trivial, Justified.nil⟩, ?_, fun _ => Nat.zero_le _⟩
    intro key entry hentry
    cases hentry
  · intro σ a σ' h _ hexec
    cases hexec
    exact h.exec

end LlrManager

variable {log : List LlrObs} {o : Outstanding}

theorem stored_between {limit : UInt32} {pre mid post : List LlrObs} {e e' : LlrObs}
    (h : Justified (Answered limit) log) (heq : log = pre ++ e :: (mid ++ e' :: post))
    (he : LlrManager.Removes key e) (he' : LlrManager.Removes key e') :
    ∃ packet, .stored key packet ∈ mid := by
  by_contra hnot
  have hnone : ∀ l, (∀ x ∈ l, ∀ packet, x ≠ .stored key packet) →
      outstanding (pre ++ e :: l) key = none := by
    intro l
    induction l using List.reverseRecOn with
    | nil =>
        intro _
        rw [outstanding_snoc]
        rcases he with rfl | ⟨header, rfl⟩ <;> rw [live, if_pos rfl]
    | append_singleton l x ih =>
        intro hl
        have hsnoc : pre ++ e :: (l ++ [x]) = (pre ++ e :: l) ++ [x] := by simp
        rw [hsnoc, outstanding_snoc, ih fun y hy => hl y (List.mem_append_left _ hy)]
        have hx := hl x (by simp)
        cases x with
        | stored k packet =>
            rw [live, if_neg]
            rintro rfl
            exact hx packet rfl
        | acked k => simp [live]
        | lost k header => simp [live]
        | retransmitted k r => simp [live]
        | _ => rfl
  have hmid := hnone mid fun x hx packet hxe => hnot ⟨packet, hxe ▸ hx⟩
  have hjust := h (pre ++ e :: mid) e' post (by rw [heq]; simp)
  rcases he' with rfl | ⟨header, rfl⟩
  · change (outstanding _ key).isSome at hjust
    rw [hmid] at hjust
    cases hjust
  · obtain ⟨o, ho, -⟩ := hjust
    rw [hmid] at ho
    cases ho

open LlrManager in
/-- What a retry manager owes to what it has stored. -/
structure Fates (cfg : LlrConfig) (σ : LlrManager) : Prop where
  buffered : ∀ key ∈ σ.retryBuffer.keys, key ∈ σ.sourceStore.keys
  bounded : 0 < cfg.maxBufferSize → σ.retryBuffer.size ≤ cfg.maxBufferSize.toNat
  kept : ∀ key, key ∈ σ.sourceStore.keys ↔ (outstanding σ.log key).isSome
  answered : Justified (Answered cfg.retryLimit) σ.log
  stored : ∀ c, Stored σ (σ.storePacket cfg c).1 c
  armed : ∀ key, (σ.armRetryTimeoutAtTransmission cfg key).log = σ.log
  timedOut : ∀ key k, outstanding (σ.onRetryTimeout key).log k = outstanding σ.log k
  once : ∀ key pre e mid e' post, σ.log = pre ++ e :: (mid ++ e' :: post) → Removes key e →
    Removes key e' → ∃ packet, .stored key packet ∈ mid
  retryRequest : ∀ onLoss first, ∃ keys, keys.Nodup ∧
    keys.Pairwise (fun a b => a.seqNum ≤ b.seqNum) ∧
    (∀ key, key ∈ keys ↔ NamesFrom first key ∧ (outstanding σ.log key).isSome) ∧
    Asked σ (σ.handleRetryRequest cfg (storing onLoss) first).1 keys
      (σ.handleRetryRequest cfg (storing onLoss) first).2
  sackRequest : ∀ onLoss nackSeqNums sourceRank flowId vcId,
    Asked σ (σ.handleSackRequest cfg (storing onLoss) nackSeqNums sourceRank flowId vcId).1
      ((nackSeqNums.sort (· ≤ ·)).map fun seqNum => ⟨seqNum, sourceRank, flowId, vcId⟩)
      (σ.handleSackRequest cfg (storing onLoss) nackSeqNums sourceRank flowId vcId).2
  ack : ∀ key, Settles σ (σ.removePacket key).1 (· = key)
  cumulativeAck : ∀ upTo, Settles σ (σ.removePacketsUpTo upTo) (CoveredBy upTo)
  selectiveAck : ∀ ackedSeqNums destRank flowId vcId,
    Settles σ (σ.removeSackedPackets ackedSeqNums destRank flowId vcId) fun key =>
      ∃ seqNum ∈ ackedSeqNums, key = ⟨seqNum, destRank, flowId, vcId⟩

/-- Every stored packet is kept and sent again on request until one acknowledgement or, at the
request after `retryLimit` others, one loss. -/
theorem llrManager_fates (cfg : LlrConfig) : (llrMachine cfg).Invariant (Fates cfg) := by
  intro σ hreach
  have h := LlrManager.sound_invariant cfg σ hreach
  have hkept : ∀ key, key ∈ σ.sourceStore.keys ↔ (outstanding σ.log key).isSome := by
    intro key
    rw [UnorderedMap.mem_keys, ← Option.isSome_iff_exists, h.isSome_iff]
  constructor
  case buffered =>
    intro key hkey
    obtain ⟨entry, hentry⟩ := UnorderedMap.mem_keys.mp hkey
    obtain ⟨source, hsource, -⟩ := h.copies key entry hentry
    exact UnorderedMap.mem_keys.mpr ⟨source, hsource⟩
  case bounded => exact h.fits
  case kept => exact hkept
  case answered => exact h.tracked.answered
  case stored => exact LlrManager.stored_storePacket cfg σ
  case armed => exact LlrManager.log_armRetryTimeout
  case timedOut => exact LlrManager.outstanding_onRetryTimeout
  case once =>
    intro key pre e mid e' post heq he he'
    exact stored_between h.tracked.answered heq he he'
  case retryRequest =>
    intro onLoss first
    exact ⟨σ.namedFrom first, LlrManager.nodup_namedFrom first, LlrManager.sorted_namedFrom first,
      fun key => h.mem_namedFrom, h.asked_handleRetryRequest ⟨onLoss, rfl⟩⟩
  case sackRequest =>
    intro onLoss nackSeqNums sourceRank flowId vcId
    exact h.asked_sackLoop ⟨onLoss, rfl⟩
  case ack => exact fun key => (h.removePacket key).2
  case cumulativeAck => exact fun upTo => h.removePacketsUpTo.2
  case selectiveAck => exact fun ackedSeqNums destRank flowId vcId => h.removeSackedPackets.2

/-! ## No limit -/

/-- The largest limit. -/
def patientConfig : LlrConfig := { retryLimit := unlimited, fromRate := fun _ _ => 0 }

/-- One packet, and a request for it. -/
def onlyKey : RetryKey := ⟨0, 0, 0, 0⟩

def onlyStore : LlrAct :=
  .storePacket { seqNum := 0, packet := { header := ⟨0, 0, 64, []⟩ }, destRank := 0 }

def onlyRequest : LlrAct := .handleSackRequest (fun _ _ => []) {0} 0 0 0

open LlrManager in
theorem retransmitted_onlyRequest (hreach : (llrMachine patientConfig).Reachable σ)
    (ho : outstanding σ.log onlyKey = some o) :
    ∃ r tail, (σ.exec patientConfig onlyRequest).log =
      σ.log ++ .retransmitted onlyKey r :: tail ∧ ∀ e ∈ tail, Storing e := by
  have h := sound_invariant patientConfig σ hreach
  have hsome : (σ.sourceStore.find? onlyKey).isSome := by
    rw [h.isSome_iff, ho]
    rfl
  obtain ⟨source, hsource⟩ := Option.isSome_iff_exists.mp hsome
  have hreply := h.answerRequest (fun _ _ => []) 0 hsource
  have hsound := hreply.sound
  obtain ⟨e, tail, hlog, hall, he⟩ := hreply.log ⟨fun _ _ => [], rfl⟩
  have hexec : σ.exec patientConfig onlyRequest =
      (σ.answerRequest patientConfig (fun _ _ => []) onlyKey source 0).1 := by
    show (LlrManager.sackLoop patientConfig (fun _ _ => [])
      ((Finset.sort {0} (· ≤ ·)).map fun seqNum => RetryKey.mk seqNum 0 0 0) σ).1 = _
    rw [Finset.sort_singleton]
    show (LlrManager.sackLoop patientConfig (fun _ _ => []) [onlyKey] σ).1 = _
    rw [LlrManager.sackLoop, hsource]
    rfl
  rcases he with ⟨header, rfl, -⟩ | ⟨r, rfl, -⟩
  · obtain ⟨o', -, -, -, hlim⟩ := hsound.tracked.answered σ.log _ tail hlog
    exact absurd rfl hlim
  · exact ⟨r, tail, by rw [hexec, hlog], hall⟩

open LlrManager in
theorem requests_storing {tail : List LlrObs} (ho : outstanding log key = some o)
    (htail : ∀ e ∈ tail, Storing e) :
    ∃ o', outstanding (log ++ tail) key = some o' ∧ o'.requests = o.requests := by
  induction tail generalizing log o with
  | nil => exact ⟨o, by rwa [List.append_nil], rfl⟩
  | cons e tail ih =>
      have hstep : ∃ o', live key (some o) e = some o' ∧ o'.requests = o.requests := by
        have he := htail e List.mem_cons_self
        cases e with
        | stored k packet =>
            rw [live]
            split
            · exact ⟨_, rfl, rfl⟩
            · exact ⟨o, rfl, rfl⟩
        | overflow seqNum size => exact ⟨o, rfl, rfl⟩
        | _ => exact he.elim
      obtain ⟨o', ho', hn⟩ := hstep
      rw [List.append_cons]
      obtain ⟨o'', ho'', hn'⟩ := ih (by rw [outstanding_snoc, ho, ho'])
        fun e' he' => htail e' (List.mem_cons_of_mem _ he')
      exact ⟨o'', ho'', hn'.trans hn⟩

theorem exists_requests (n : Nat) : ∃ σ, (llrMachine patientConfig).Reachable σ ∧
    ∃ o, outstanding σ.log onlyKey = some o ∧ o.requests = n := by
  induction n with
  | zero =>
      have hstored : (llrMachine patientConfig).Reachable
          (LlrManager.exec patientConfig {} onlyStore) :=
        .step (a := onlyStore) (.init rfl) trivial rfl
      exact ⟨_, hstored, _, rfl, rfl⟩
  | succ n ih =>
      obtain ⟨σ, hreach, o, ho, hn⟩ := ih
      obtain ⟨r, tail, hlog, hall⟩ := retransmitted_onlyRequest hreach ho
      refine ⟨σ.exec patientConfig onlyRequest, .step (a := onlyRequest) hreach trivial rfl, ?_⟩
      rw [hlog, List.append_cons]
      have hone : outstanding (σ.log ++ [.retransmitted onlyKey r]) onlyKey =
          some { o with requests := o.requests + 1 } := by
        rw [outstanding_snoc, ho]
        rfl
      obtain ⟨o', ho', hn'⟩ := requests_storing hone hall
      exact ⟨o', ho', hn'.trans (congrArg (· + 1) hn)⟩

/-- With a limit of `UINT32_MAX` the request after as many others is not answered with a loss. -/
theorem retransmitted_patientConfig : ∃ σ pre r post o,
    (llrMachine patientConfig).Reachable σ ∧ σ.log = pre ++ .retransmitted onlyKey r :: post ∧
      outstanding pre onlyKey = some o ∧ o.requests = patientConfig.retryLimit.toNat := by
  obtain ⟨σ, hreach, o, ho, hn⟩ := exists_requests patientConfig.retryLimit.toNat
  obtain ⟨r, tail, hlog, -⟩ := retransmitted_onlyRequest hreach ho
  exact ⟨σ.exec patientConfig onlyRequest, σ.log, r, tail, o,
    .step (a := onlyRequest) hreach trivial rfl, hlog, ho, hn⟩

end ProtoBridge.Endpoint
