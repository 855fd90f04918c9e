import ProtoBridge.Endpoint.LlrManager
import ProtoBridge.Lib.History

/-!
# What a retry manager owes to a key

It is a function of the history: the packet stored under the key last, and how many
requests have named it since it was first stored. The manager's two stores hold that and
nothing else, whatever the retry buffer evicts or refuses. Here is what the stores and
the history have to do with each other, and that `StorePacket` keeps it.
-/

namespace ProtoBridge.Endpoint

open Lib

/-- What a history makes of a key that is neither acknowledged nor lost. -/
structure Outstanding where
  packet : Packet
  requests : Nat
  deriving DecidableEq

/-- One entry of a history, as `key` sees it. A packet stored again keeps its count. -/
def live (key : RetryKey) (o : Option Outstanding) : LlrObs → Option Outstanding
  | .stored k packet =>
      if k = key then some ⟨packet, (o.map Outstanding.requests).getD 0⟩ else o
  | .acked k => if k = key then none else o
  | .lost k _ => if k = key then none else o
  | .retransmitted k _ =>
      if k = key then o.map fun o => { o with requests := o.requests + 1 } else o
  | .overflow _ _ | .missed _ | .timedOut _ => o

/-- What a history makes of a key. -/
def outstanding (log : List LlrObs) (key : RetryKey) : Option Outstanding :=
  log.foldl (live key) none

@[simp] theorem outstanding_snoc (log : List LlrObs) (e : LlrObs) (key : RetryKey) :
    outstanding (log ++ [e]) key = live key (outstanding log key) e := by
  simp [outstanding]

/-- `UINT32_MAX` requests, which the count of a key cannot go beyond. -/
def unlimited : UInt32 := 0xffffffff

/-- What may happen next. A request is answered with the packet stored last; it is the one after
`retryLimit` others that is answered with a loss, and with no limit there is none. -/
def Answered (retryLimit : UInt32) (before : List LlrObs) : LlrObs → Prop
  | .stored _ _ | .overflow _ _ => True
  | .acked key | .timedOut key => (outstanding before key).isSome
  | .missed key => outstanding before key = none
  | .retransmitted key r => ∃ o, outstanding before key = some o ∧ r.packet = o.packet ∧
      (o.requests < retryLimit.toNat ∨ retryLimit = unlimited)
  | .lost key header => ∃ o, outstanding before key = some o ∧ header = o.packet.header ∧
      o.requests = retryLimit.toNat ∧ retryLimit ≠ unlimited

/-- The record of a key is what the history makes of it. The count of the code wraps around. -/
def Matches (retryLimit : UInt32) (key : RetryKey) : Option SourceEntry → Option Outstanding → Prop
  | none, none => True
  | some source, some o => source.packet = o.packet ∧ source.destRank = key.destRank ∧
      source.retryCount.toNat = o.requests % 2 ^ 32 ∧
      (retryLimit ≠ unlimited → o.requests ≤ retryLimit.toNat)
  | _, _ => False

variable {cfg : LlrConfig} {σ σ' : LlrManager} {key : RetryKey} {c : StoreCall}

variable {limit : UInt32} {o : Option Outstanding}

theorem Matches.isSome {s : Option SourceEntry} (h : Matches limit key s o)
    : s.isSome = o.isSome := by
  cases s <;> cases o <;> first | rfl | exact h.elim

theorem Matches.of_some {s : SourceEntry} (h : Matches limit key (some s) o)
    : ∃ o', o = some o' ∧ s.packet = o'.packet ∧
      s.destRank = key.destRank ∧ s.retryCount.toNat = o'.requests % 2 ^ 32 ∧
      (limit ≠ unlimited → o'.requests ≤ limit.toNat) := by
  cases o with
  | none => exact h.elim
  | some o' => exact ⟨o', rfl, h⟩

theorem Matches.of_none (h : Matches limit key none o) : o = none := by
  cases o with
  | none => rfl
  | some o' => exact h.elim

namespace LlrManager

/-- The source store is what the history says, and so is every answer. -/
structure Tracked (cfg : LlrConfig) (σ : LlrManager) : Prop where
  source : ∀ key, Matches cfg.retryLimit key (σ.sourceStore.find? key) (outstanding σ.log key)
  answered : Justified (Answered cfg.retryLimit) σ.log

/-- The retry buffer has copies of what is in the source store. -/
def Copies (σ : LlrManager) : Prop :=
  ∀ key entry, σ.retryBuffer.find? key = some entry →
    ∃ source, σ.sourceStore.find? key = some source ∧ entry.packet = source.packet

/-- The retry buffer keeps to its size. -/
def Fits (cfg : LlrConfig) (σ : LlrManager) : Prop :=
  0 < cfg.maxBufferSize → σ.retryBuffer.size ≤ cfg.maxBufferSize.toNat

/-- What every operation keeps. -/
structure Sound (cfg : LlrConfig) (σ : LlrManager) : Prop where
  tracked : σ.Tracked cfg
  copies : σ.Copies
  fits : σ.Fits cfg

/-! ## The source store -/

theorem Tracked.snoc (h : σ.Tracked cfg) (e : LlrObs) (hlog : σ'.log = σ.log ++ [e])
    (he : Answered cfg.retryLimit σ.log e)
    (hs : ∀ key, Matches cfg.retryLimit key (σ'.sourceStore.find? key)
      (live key (outstanding σ.log key) e)) : σ'.Tracked cfg := by
  constructor
  · intro key
    rw [hlog, outstanding_snoc]
    exact hs key
  · rw [hlog]
    exact h.answered.snoc he

theorem Tracked.frame (h : σ.Tracked cfg) (hlog : σ'.log = σ.log)
    (hs : ∀ key, Matches cfg.retryLimit key (σ'.sourceStore.find? key) (outstanding σ.log key)) :
    σ'.Tracked cfg := by
  constructor
  · rw [hlog]
    exact hs
  · rw [hlog]
    exact h.answered

/-- The history and the source store are all that `Tracked` is about. -/
theorem Tracked.of_eq (h : σ.Tracked cfg) (hlog : σ'.log = σ.log)
    (hs : σ'.sourceStore = σ.sourceStore) : σ'.Tracked cfg := by
  apply h.frame hlog
  rw [hs]
  exact h.source

theorem Matches.timer {limit : UInt32} {f : SourceEntry → SourceEntry}
    {m : UnorderedMap RetryKey SourceEntry} {k : RetryKey} {o : Option Outstanding}
    (hf : ∀ s, (f s).packet = s.packet ∧ (f s).destRank = s.destRank ∧
      (f s).retryCount = s.retryCount) (h : Matches limit key (m.find? key) o)
    : Matches limit key ((m.update k f).find? key) o := by
  rw [UnorderedMap.find?_update]
  split
  · rename_i heq
    subst heq
    cases hm : m.find? key with
    | none => rwa [hm] at h
    | some s =>
        rw [hm] at h
        obtain ⟨o', rfl, hp, hd, hr, hl⟩ := h.of_some
        obtain ⟨hfp, hfd, hfr⟩ := hf s
        exact ⟨hfp.trans hp, hfd.trans hd, by rw [hfr, hr], hl⟩
  · exact h

theorem Tracked.removeOutstandingPacket {e : LlrObs} (h : σ.Tracked cfg)
    (he : Answered cfg.retryLimit σ.log e)
    (hlive : ∀ k o, live k o e = if key = k then none else o) :
    (LlrManager.removeOutstandingPacket { σ with log := σ.log ++ [e] } key).Tracked cfg := by
  refine h.snoc e rfl he ?_
  intro k
  show Matches _ _ ((σ.sourceStore.erase key).find? k) _
  rw [hlive, UnorderedMap.find?_erase]
  by_cases hk : k = key
  · rw [if_pos hk, if_pos hk.symm]
    trivial
  · rw [if_neg hk, if_neg (Ne.symm hk)]
    exact h.source k

theorem Copies.erase (h : σ.Copies) (key : RetryKey)
    (hbuffer : σ'.retryBuffer = σ.retryBuffer.erase key)
    (hs : ∀ k, k ≠ key → σ'.sourceStore.find? k = σ.sourceStore.find? k) : σ'.Copies := by
  intro k entry hentry
  rw [hbuffer, UnorderedMap.find?_erase] at hentry
  split at hentry
  · cases hentry
  · rename_i hne
    rw [hs k hne]
    exact h k entry hentry

theorem Fits.erase (h : σ.Fits cfg) (key : RetryKey)
    (hbuffer : σ'.retryBuffer = σ.retryBuffer.erase key) : σ'.Fits cfg := by
  intro hpos
  refine le_trans ?_ (h hpos)
  rw [hbuffer, UnorderedMap.size_erase]
  split <;> omega

/-! ## Storing -/

theorem sourceStore_storeSource (key : RetryKey) : (σ.storeSource c).sourceStore.find? key =
    if key = c.key then
      some { (σ.sourceStore.find? key).getD { packet := c.packet, destRank := c.destRank } with
        packet := c.packet, destRank := c.destRank }
    else σ.sourceStore.find? key := by
  rw [storeSource]
  split
  · rename_i hnone
    show (σ.sourceStore.emplace _ _ _).find? key = _
    rw [UnorderedMap.find?_emplace hnone]
    split
    · rename_i heq
      rw [heq, hnone]
      rfl
    · rfl
  · rename_i s hs
    show (σ.sourceStore.update _ _).find? key = _
    rw [UnorderedMap.find?_update]
    split
    · rename_i heq
      rw [heq, hs]
      rfl
    · rfl

@[simp] theorem log_storeSource : (σ.storeSource c).log = σ.log := by
  rw [storeSource]
  split <;> rfl

@[simp] theorem retryBuffer_storeSource : (σ.storeSource c).retryBuffer = σ.retryBuffer := by
  rw [storeSource]
  split <;> rfl

theorem Tracked.storeSource (h : σ.Tracked cfg) :
    (LlrManager.storeSource { σ with log := σ.log ++ [.stored c.key c.packet] } c).Tracked cfg := by
  refine h.snoc (.stored c.key c.packet) (by simp) trivial ?_
  intro key
  rw [sourceStore_storeSource]
  have hkey := h.source key
  by_cases hk : key = c.key
  · rw [if_pos hk, live, if_pos hk.symm]
    have hdest : c.destRank = key.destRank := by
      rw [hk]
      rfl
    cases hs : σ.sourceStore.find? key with
    | none =>
        rw [hs] at hkey
        rw [hkey.of_none]
        exact ⟨rfl, hdest, rfl, fun _ => Nat.zero_le _⟩
    | some s =>
        rw [hs] at hkey
        obtain ⟨o, ho, -, -, hr, hl⟩ := hkey.of_some
        rw [ho]
        exact ⟨rfl, hdest, hr, hl⟩
  · rw [if_neg hk, live, if_neg (Ne.symm hk)]
    exact hkey

theorem Tracked.rearm (h : σ.Tracked cfg) : (σ.rearm cfg key).Tracked cfg := by
  refine h.frame ?_ ?_
  · rfl
  · intro k
    apply Matches.timer
    · intro s
      split
      · exact ⟨rfl, rfl, rfl⟩
      · split
        · exact ⟨rfl, rfl, rfl⟩
        · split <;> exact ⟨rfl, rfl, rfl⟩
    · exact h.source k

theorem Tracked.overflow {seqNum : UInt32} {n : Nat} (h : σ.Tracked cfg)
    (hlog : σ'.log = σ.log ++ [.overflow seqNum n]) (hs : σ'.sourceStore = σ.sourceStore) :
    σ'.Tracked cfg := by
  refine h.snoc (.overflow seqNum n) hlog trivial ?_
  rw [hs]
  exact h.source

/-- What an eviction leaves: the source store and the history of every key, and fewer copies. -/
structure Evicted (cfg : LlrConfig) (σ σ' : LlrManager) : Prop where
  source : σ'.sourceStore = σ.sourceStore
  live : ∀ key, outstanding σ'.log key = outstanding σ.log key
  copies : ∀ key entry, σ'.retryBuffer.find? key = some entry → σ.retryBuffer.find? key = some entry
  tracked : σ.Tracked cfg → σ'.Tracked cfg

theorem Evicted.refl : Evicted cfg σ σ := ⟨rfl, fun _ => rfl, fun _ _ h => h, id⟩

theorem evicted_enforceBufferLimit (cfg : LlrConfig) (σ : LlrManager) (fuel : Nat) :
    Evicted cfg σ (enforceBufferLimit cfg fuel σ) := by
  induction fuel generalizing σ with
  | zero => exact .refl
  | succ fuel ih =>
      rw [enforceBufferLimit]
      split
      · exact .refl
      · split
        · split
          · split
            · exact .refl
            · rename_i key _
              obtain ⟨hsource, hlive, hcopies, htracked⟩ := ih
                { σ with
                  log := σ.log ++ [.overflow key.seqNum σ.retryBuffer.size]
                  stats := { σ.stats with overflowCount := σ.stats.overflowCount + 1 }
                  retryBuffer := σ.retryBuffer.erase key }
              refine ⟨hsource, fun k => (hlive k).trans (outstanding_snoc _ _ k), ?_,
                fun h => htracked (h.overflow rfl rfl)⟩
              intro k entry hk
              have herased := hcopies k entry hk
              rw [UnorderedMap.find?_erase] at herased
              split at herased
              · cases herased
              · exact herased
          · exact .refl
        · exact .refl

theorem oldest_isSome {l : List (RetryKey × RetryEntry)} (h : l ≠ []) :
    ∃ e ∈ l, oldest l = some e.1 := by
  induction l with
  | nil => exact absurd rfl h
  | cons e rest ih =>
      rw [oldest]
      cases hrest : oldest rest with
      | none => exact ⟨e, List.mem_cons_self, rfl⟩
      | some key =>
          have hne : rest ≠ [] := by
            rintro rfl
            cases hrest
          obtain ⟨e', hmem, hkey⟩ := ih hne
          rw [hrest] at hkey
          cases hkey
          dsimp only
          split
          · exact ⟨e', List.mem_cons_of_mem _ hmem, rfl⟩
          · exact ⟨e, List.mem_cons_self, rfl⟩

theorem size_enforceBufferLimit (hpos : 0 < cfg.maxBufferSize.toNat)
    (hold : cfg.overflowPolicy = .dropOldest) {fuel : Nat} (hfuel : σ.retryBuffer.size ≤ fuel) :
    (enforceBufferLimit cfg fuel σ).retryBuffer.size < cfg.maxBufferSize.toNat := by
  induction fuel generalizing σ with
  | zero =>
      show σ.retryBuffer.size < _
      omega
  | succ fuel ih =>
      have hmax : cfg.maxBufferSize ≠ 0 := by
        intro h
        rw [h] at hpos
        exact absurd hpos (by decide)
      rw [enforceBufferLimit, if_neg hmax]
      split
      · rename_i hfull
        have hne : σ.retryBuffer.entries ≠ [] := by
          intro h
          have hsize : σ.retryBuffer.size = 0 := by rw [UnorderedMap.size, h]; rfl
          omega
        obtain ⟨⟨key, entry⟩, hmem, holdest⟩ := oldest_isSome hne
        rw [hold]
        dsimp only
        rw [holdest]
        apply ih
        show (σ.retryBuffer.erase key).size ≤ fuel
        rw [UnorderedMap.size_erase, UnorderedMap.find?_eq_some.mpr hmem]
        simp only [Option.isSome_some, if_true]
        omega
      · omega

variable {source : SourceEntry}

theorem Copies.insertCopy (h : σ.Copies) (hfree : σ.retryBuffer.find? c.key = none)
    (hs : σ.sourceStore.find? c.key = some source) (hp : source.packet = c.packet)
    : (σ.insertCopy c).Copies := by
  intro key entry hentry
  change (σ.retryBuffer.emplace _ _ _).find? key = some entry at hentry
  show ∃ source, σ.sourceStore.find? key = some source ∧ _
  rw [UnorderedMap.find?_emplace hfree] at hentry
  split at hentry
  · rename_i heq
    cases hentry
    exact ⟨source, heq ▸ hs, hp.symm⟩
  · exact h key entry hentry

/-- The part of `StorePacket` that is about the retry buffer: it gets a copy of the packet that is
in the source store by now, or no copy. -/
theorem Sound.storeCopy (ht : σ.Tracked cfg) (hfits : σ.Fits cfg)
    (hcopies : ∀ key entry, key ≠ c.key → σ.retryBuffer.find? key = some entry →
      ∃ source, σ.sourceStore.find? key = some source ∧ entry.packet = source.packet)
    (hs : σ.sourceStore.find? c.key = some source) (hp : source.packet = c.packet) :
    (σ.storeCopy cfg c).1.Sound cfg := by
  let σ₁ : LlrManager := { σ with retryBuffer := σ.retryBuffer.erase c.key }
  have ht₁ : σ₁.Tracked cfg := ht.of_eq rfl rfl
  have hfree : σ₁.retryBuffer.find? c.key = none := by
    show (σ.retryBuffer.erase c.key).find? c.key = none
    rw [UnorderedMap.find?_erase, if_pos rfl]
  have hcopies₁ : σ₁.Copies := by
    intro key entry hentry
    change (σ.retryBuffer.erase c.key).find? key = some entry at hentry
    rw [UnorderedMap.find?_erase] at hentry
    split at hentry
    · cases hentry
    · rename_i hne
      exact hcopies key entry hne hentry
  have hfits₁ : σ₁.Fits cfg := hfits.erase c.key rfl
  rw [LlrManager.storeCopy]
  show LlrManager.Sound cfg (Prod.fst (if 0 < cfg.maxBufferSize ∧
    σ₁.retryBuffer.size ≥ cfg.maxBufferSize.toNat then _ else _))
  split
  · rename_i hfull
    have hpos : 0 < cfg.maxBufferSize.toNat := UInt32.lt_iff_toNat_lt.mp hfull.1
    cases hpolicy : cfg.overflowPolicy with
    | dropNewest => exact ⟨ht₁.overflow rfl rfl, hcopies₁, hfits₁⟩
    | dropOldest =>
        obtain ⟨hsource, -, hsub, htracked⟩ :=
          evicted_enforceBufferLimit cfg σ₁ σ₁.retryBuffer.size
        have hroom := size_enforceBufferLimit hpos hpolicy (le_refl σ₁.retryBuffer.size)
        have hfree₂ : (enforceBufferLimit cfg σ₁.retryBuffer.size σ₁).retryBuffer.find? c.key
            = none := by
          cases hfind : (enforceBufferLimit cfg σ₁.retryBuffer.size σ₁).retryBuffer.find? c.key with
          | none => rfl
          | some entry => exact absurd (hsub _ _ hfind) (by rw [hfree]; simp)
        refine ⟨(htracked ht₁).of_eq rfl rfl, ?_, ?_⟩
        · refine Copies.insertCopy ?_ hfree₂ (by rw [hsource]; exact hs) hp
          intro key entry hentry
          rw [hsource]
          exact hcopies₁ key entry (hsub _ _ hentry)
        · intro _
          show (UnorderedMap.emplace _ _ _ _).size ≤ _
          rw [UnorderedMap.size_emplace hfree₂]
          exact hroom
  · rename_i hroom
    refine ⟨ht₁.of_eq rfl rfl, hcopies₁.insertCopy hfree hs hp, ?_⟩
    intro hpos
    show (UnorderedMap.emplace _ _ _ _).size ≤ _
    rw [UnorderedMap.size_emplace hfree]
    have hlt : ¬ cfg.maxBufferSize.toNat ≤ σ₁.retryBuffer.size := fun h => hroom ⟨hpos, h⟩
    omega

theorem find?_rearm_of_ne {k : RetryKey} (hne : k ≠ key) :
    (σ.rearm cfg key).sourceStore.find? k = σ.sourceStore.find? k := by
  show (σ.sourceStore.update key _).find? k = _
  rw [UnorderedMap.find?_update, if_neg hne]

theorem find?_rearm_self (cfg : LlrConfig) (h : σ.sourceStore.find? key = some source) :
    ∃ source', (σ.rearm cfg key).sourceStore.find? key = some source' ∧
      source'.packet = source.packet ∧ source'.retryCount = source.retryCount := by
  have hfind : (σ.rearm cfg key).sourceStore.find? key = _ := UnorderedMap.find?_update
  rw [if_pos rfl, h] at hfind
  refine ⟨_, hfind, ?_⟩
  dsimp only
  split
  · exact ⟨rfl, rfl⟩
  · split
    · exact ⟨rfl, rfl⟩
    · split <;> exact ⟨rfl, rfl⟩

theorem sourceStore_storeCopy : (σ.storeCopy cfg c).1.sourceStore = σ.sourceStore := by
  rw [LlrManager.storeCopy]
  dsimp only
  split
  · split
    · rfl
    · exact (evicted_enforceBufferLimit cfg { σ with retryBuffer := σ.retryBuffer.erase c.key } _).source
  · rfl

theorem outstanding_storeCopy (key : RetryKey) :
    outstanding (σ.storeCopy cfg c).1.log key = outstanding σ.log key := by
  rw [LlrManager.storeCopy]
  dsimp only
  split
  · split
    · exact outstanding_snoc _ _ key
    · exact (evicted_enforceBufferLimit cfg { σ with retryBuffer := σ.retryBuffer.erase c.key } _).live key
  · rfl

/-- A packet that is stored is outstanding, with the count that its key had, and the source store has
it. Nothing becomes of the other keys. -/
structure Stored (σ σ' : LlrManager) (c : StoreCall) : Prop where
  live : outstanding σ'.log c.key =
    some ⟨c.packet, ((outstanding σ.log c.key).map Outstanding.requests).getD 0⟩
  record : ∃ source, σ'.sourceStore.find? c.key = some source ∧ source.packet = c.packet ∧
    source.retryCount = ((σ.sourceStore.find? c.key).map SourceEntry.retryCount).getD 0
  others : ∀ key ≠ c.key, outstanding σ'.log key = outstanding σ.log key ∧
    σ'.sourceStore.find? key = σ.sourceStore.find? key

theorem stored_storePacket (cfg : LlrConfig) (σ : LlrManager) (c : StoreCall) :
    Stored σ (σ.storePacket cfg c).1 c := by
  let σ₁ := LlrManager.storeSource { σ with log := σ.log ++ [.stored c.key c.packet] } c
  have hlog (key : RetryKey) : outstanding (σ.storePacket cfg c).1.log key =
      live key (outstanding σ.log key) (.stored c.key c.packet) := by
    refine (outstanding_storeCopy key).trans ?_
    show outstanding σ₁.log key = _
    rw [log_storeSource, outstanding_snoc]
  have hstore : (σ.storePacket cfg c).1.sourceStore = (σ₁.rearm cfg c.key).sourceStore :=
    sourceStore_storeCopy
  constructor
  · rw [hlog, live, if_pos rfl]
  · obtain ⟨source, hs, hp, hr⟩ :=
      find?_rearm_self cfg ((sourceStore_storeSource c.key).trans (if_pos rfl))
    refine ⟨source, hstore ▸ hs, hp, hr.trans ?_⟩
    cases σ.sourceStore.find? c.key <;> rfl
  · intro key hne
    constructor
    · rw [hlog, live, if_neg hne.symm]
    · rw [hstore, find?_rearm_of_ne hne]
      exact (sourceStore_storeSource key).trans (if_neg hne)

theorem Sound.storePacket (h : σ.Sound cfg) (c : StoreCall) :
    (σ.storePacket cfg c).1.Sound cfg := by
  let σ₁ := LlrManager.storeSource { σ with log := σ.log ++ [.stored c.key c.packet] } c
  have hself : ∃ source, σ₁.sourceStore.find? c.key = some source ∧ source.packet = c.packet := by
    refine ⟨_, (sourceStore_storeSource c.key).trans (if_pos rfl), rfl⟩
  have hother : ∀ key, key ≠ c.key → σ₁.sourceStore.find? key = σ.sourceStore.find? key := by
    intro key hne
    exact (sourceStore_storeSource key).trans (if_neg hne)
  have hbuffer : (σ₁.rearm cfg c.key).retryBuffer = σ.retryBuffer := retryBuffer_storeSource
  obtain ⟨source, hs, hp⟩ := hself
  obtain ⟨source', hs', hp', -⟩ := find?_rearm_self cfg hs
  refine Sound.storeCopy h.tracked.storeSource.rearm ?_ ?_ hs' (hp'.trans hp)
  · intro hpos
    rw [hbuffer]
    exact h.fits hpos
  · intro key entry hne hentry
    rw [hbuffer] at hentry
    rw [find?_rearm_of_ne hne, hother key hne]
    exact h.copies key entry hentry

/-- The entries a call of `StorePacket` adds. -/
def Storing : LlrObs → Prop
  | .stored _ _ | .overflow _ _ => True
  | _ => False

/-- The history goes on with entries that are only about storing. -/
def Stores (σ σ' : LlrManager) : Prop := ∃ tail, σ'.log = σ.log ++ tail ∧ ∀ e ∈ tail, Storing e

theorem Stores.refl : Stores σ σ := ⟨[], by simp, by simp⟩

theorem Stores.trans {σ'' : LlrManager} (h : Stores σ σ') (h' : Stores σ' σ'') : Stores σ σ'' := by
  obtain ⟨tail, hlog, hall⟩ := h
  obtain ⟨tail', hlog', hall'⟩ := h'
  refine ⟨tail ++ tail', by rw [hlog', hlog, List.append_assoc], ?_⟩
  intro e he
  exact (List.mem_append.mp he).elim (hall e) (hall' e)

theorem Stores.one (e : LlrObs) (hlog : σ'.log = σ.log ++ [e]) (he : Storing e) : Stores σ σ' :=
  ⟨[e], hlog, fun _ hmem => List.mem_singleton.mp hmem ▸ he⟩

theorem stores_enforceBufferLimit (σ : LlrManager) (fuel : Nat) :
    Stores σ (enforceBufferLimit cfg fuel σ) := by
  induction fuel generalizing σ with
  | zero => exact .refl
  | succ fuel ih =>
      rw [enforceBufferLimit]
      split
      · exact .refl
      · split
        · split
          · split
            · exact .refl
            · exact Stores.trans (.one (.overflow _ _) rfl trivial) (ih _)
          · exact .refl
        · exact .refl

theorem stores_storePacket : Stores σ (σ.storePacket cfg c).1 := by
  let σ₁ := (LlrManager.storeSource
    { σ with log := σ.log ++ [.stored c.key c.packet] } c).rearm cfg c.key
  have h₁ : Stores σ σ₁ := .one (.stored c.key c.packet) log_storeSource trivial
  refine h₁.trans ?_
  show Stores σ₁ (σ₁.storeCopy cfg c).1
  rw [LlrManager.storeCopy]
  dsimp only
  split
  · split
    · exact .one (.overflow _ _) rfl trivial
    · exact stores_enforceBufferLimit { σ₁ with retryBuffer := σ₁.retryBuffer.erase c.key } _
  · exact .refl

theorem Sound.storeAll (calls : List StoreCall) (h : σ.Sound cfg) :
    (calls.foldl (fun σ c => (σ.storePacket cfg c).1) σ).Sound cfg ∧
      Stores σ (calls.foldl (fun σ c => (σ.storePacket cfg c).1) σ) := by
  induction calls generalizing σ with
  | nil => exact ⟨h, .refl⟩
  | cons c calls ih =>
      obtain ⟨hsound, hstores⟩ := ih (h.storePacket c)
      exact ⟨hsound, stores_storePacket.trans hstores⟩

end LlrManager

end ProtoBridge.Endpoint
