import ProtoBridge.Collective.Service

/-!
# NvlsAllGather

Each GPU uploads its chunk, and the switch multicasts all of them. The receive
handler counts a GPU whenever a packet finds it with all its bytes, so that a packet
behind the last byte counts it once more. The books are kept while no such packet
arrives.
-/

namespace ProtoBridge.Collective

open Lib Fabric

/-- `NvlsAllGatherState`. -/
inductive NvlsAllGatherState
  | idle
  | sendPhase
  | broadcastPhase
  | completed
  deriving DecidableEq

/-- `NvlsAllGather`, all of its endpoints present. -/
structure NvlsAllGather where
  numGpus : Nat
  dataSize : Nat
  chunkSize : Nat
  remainder : Nat
  state : NvlsAllGatherState := .idle
  gpuBroadcastReceivedBytes : Nat → Nat := fun _ => 0
  broadcastDoneCount : Nat := 0
  log : List Obs := []

/-- The abort of `Initialize`. -/
inductive NvlsAbort
  | noGpu
  deriving DecidableEq

namespace NvlsAllGather

/-- `Initialize`. -/
def initialized (numGpus : UInt16) (dataSize : UInt64) : Except NvlsAbort NvlsAllGather :=
  if numGpus = 0 then .error .noGpu
  else
    let chunkSize := dataSize.toNat / numGpus.toNat
    .ok { numGpus := numGpus.toNat
          dataSize := dataSize.toNat
          chunkSize
          remainder :=
            if chunkSize = 0 ∧ dataSize > 0 then dataSize.toNat
            else dataSize.toNat % numGpus.toNat }

/-- `Start`. `TriggerSendPhase` is scheduled. -/
def start (c : NvlsAllGather) : NvlsAllGather := { c with state := .sendPhase }

/-- `Complete`. -/
def complete (c : NvlsAllGather) : NvlsAllGather :=
  { c with state := .completed, log := c.log ++ [.completed] }

/-- The bytes a GPU holds. -/
def chunk (c : NvlsAllGather) (gpu : Nat) : Nat := c.chunkSize + if gpu < c.remainder then 1 else 0

/-- The upload of one GPU. -/
def upload (c : NvlsAllGather) (gpu : Nat) : NvlsAllGather :=
  if c.chunk gpu = 0 then c else { c with log := c.log ++ [.uploaded gpu (c.chunk gpu)] }

/-- `TriggerSendPhase`. -/
def triggerSendPhase (c : NvlsAllGather) : NvlsAllGather :=
  let c := { c with state := .broadcastPhase }
  if c.dataSize = 0 then c.complete else (List.range c.numGpus).foldl upload c

/-- `OnGpuBroadcastReceiveComplete`. -/
def onGpuBroadcastReceiveComplete (c : NvlsAllGather) : NvlsAllGather :=
  let c := { c with broadcastDoneCount := wadd 32 c.broadcastDoneCount 1 }
  if c.broadcastDoneCount ≥ c.numGpus then c.complete else c

/-- A packet of the result. -/
def isResult (h : Header) : Bool := h.packetType = .allGather || h.packetType = .data

/-- `OnPacketReceived`. -/
def onPacketReceived (c : NvlsAllGather) (h : Header) : NvlsAllGather :=
  if h.packetType ≠ .allGather ∧ h.packetType ≠ .data then c
  else if h.destRank.toNat ≥ c.numGpus then c
  else
    let c := { c with log := c.log ++ [.arrived h.destRank.toNat h.effectiveDataSize.toNat] }
    if c.state ≠ .broadcastPhase then c
    else
      let bytes := wadd 64 (c.gpuBroadcastReceivedBytes h.destRank.toNat) h.effectiveDataSize.toNat
      let c := { c with
        gpuBroadcastReceivedBytes := Function.update c.gpuBroadcastReceivedBytes h.destRank.toNat bytes }
      if bytes ≥ c.dataSize then c.onGpuBroadcastReceiveComplete else c

/-- What happens to a started collective. -/
inductive Act
  | triggerSendPhase
  | receive (h : Header)

/-- One of these. -/
def exec (c : NvlsAllGather) : Act → Except NvlsAbort NvlsAllGather
  | .triggerSendPhase => .ok c.triggerSendPhase
  | .receive h => .ok (c.onPacketReceived h)

/-- The uploads happen once. A GPU gets its bytes of the result behind the uploads, and no more of
them than there are; packets without such bytes come at any time. -/
def enabled (c : NvlsAllGather) : Act → Prop
  | .triggerSendPhase => c.state = .sendPhase
  | .receive h => isResult h = true → 0 < h.effectiveDataSize.toNat → c.state ≠ .sendPhase ∧
      received c.log h.destRank.toNat + h.effectiveDataSize.toNat ≤ c.dataSize

instance (c : NvlsAllGather) : (a : Act) → Decidable (c.enabled a)
  | .triggerSendPhase => inferInstanceAs (Decidable (c.state = .sendPhase))
  | .receive h => inferInstanceAs (Decidable (isResult h = true → _))

end NvlsAllGather

/-- Every run of an initialized and started collective. -/
def nvlsMachine (n : UInt16) (d : UInt64) : Machine NvlsAllGather NvlsAllGather.Act NvlsAbort where
  init c := ∃ c₀, NvlsAllGather.initialized n d = .ok c₀ ∧ c = c₀.start
  enabled := NvlsAllGather.enabled
  exec := NvlsAllGather.exec

instance (n : UInt16) (d : UInt64) (c : NvlsAllGather) (a : NvlsAllGather.Act) :
    Decidable ((nvlsMachine n d).enabled c a) :=
  inferInstanceAs (Decidable (c.enabled a))

namespace NvlsAllGather

/-- In the broadcast phase no packet arrives behind the last byte of its GPU. -/
def InTime (c : NvlsAllGather) : Act → Prop
  | .triggerSendPhase => True
  | .receive h => isResult h = true → c.state = .broadcastPhase → h.destRank.toNat < c.numGpus →
      received c.log h.destRank.toNat < c.dataSize

instance (c : NvlsAllGather) : (a : Act) → Decidable (c.InTime a)
  | .triggerSendPhase => .isTrue trivial
  | .receive h => inferInstanceAs (Decidable (isResult h = true → _))

variable {n d : Nat} {c c' : NvlsAllGather}

/-- The books of a started collective. -/
structure Kept (n d : Nat) (c : NvlsAllGather) : Prop where
  size : c.numGpus = n ∧ c.dataSize = d
  started : c.state ≠ .idle
  early : c.state = .sendPhase → ∀ gpu, c.gpuBroadcastReceivedBytes gpu = 0
  books : Books n d (c.state ≠ .sendPhase) (c.state = .completed) c.gpuBroadcastReceivedBytes
    c.broadcastDoneCount c.log

theorem Kept.upload (h : Kept n d c) (gpu : Nat) : Kept n d (c.upload gpu) := by
  unfold NvlsAllGather.upload
  split
  · exact h
  · exact ⟨h.size, h.started, h.early, h.books.note (by simp) (fun _ => rfl) id⟩

theorem Kept.uploads (h : Kept n d c) (gpus : List Nat) : Kept n d (gpus.foldl NvlsAllGather.upload c) := by
  induction gpus generalizing c with
  | nil => exact h
  | cons gpu gpus ih => exact ih (h.upload gpu)

theorem Kept.triggerSendPhase (h : Kept n d c) (hd : 0 < d) (hstate : c.state = .sendPhase) :
    Kept n d c.triggerSendPhase := by
  unfold NvlsAllGather.triggerSendPhase
  dsimp only
  rw [if_neg (by rw [h.size.2]; omega)]
  refine Kept.uploads (c := { c with state := .broadcastPhase })
    ⟨h.size, by simp, (by intro hs; cases hs), ?_⟩ _
  have hbooks := h.books
  simp only [hstate] at hbooks
  refine { hbooks with unsent := ?_ }
  intro hs
  simp at hs

/-- A packet arrives in time. -/
theorem Kept.onPacketReceived (h : Kept n d c) (hn : n < 2 ^ 16) (hpos : 0 < d) (hd : d < 2 ^ 64)
    {p : Header} (hen : c.enabled (.receive p)) (htime : c.InTime (.receive p)) :
    Kept n d (c.onPacketReceived p) := by
  obtain ⟨hnum, hdata⟩ := h.size
  unfold NvlsAllGather.onPacketReceived
  dsimp only
  split
  · exact h
  rename_i htype
  have hresult : isResult p = true := by
    simp only [not_and, not_not] at htype
    by_cases hgather : p.packetType = .allGather
    · simp [isResult, hgather]
    · simp [isResult, htype hgather]
  split
  · exact h
  rename_i hrank
  rw [not_le, hnum] at hrank
  have hlimit : 0 < p.effectiveDataSize.toNat → c.state ≠ .sendPhase ∧
      received c.log p.destRank.toNat + p.effectiveDataSize.toNat ≤ d := hdata ▸ hen hresult
  obtain ⟨hunsent, hbound⟩ := h.books.within hrank fun hpos =>
    ⟨decide_eq_true (hlimit hpos).1, (hlimit hpos).2⟩
  split
  -- the packet comes too early or too late to be counted
  · rename_i hphase
    refine ⟨h.size, h.started, h.early, h.books.arrive _ hrank hunsent hbound ?_⟩
    intro hopen
    have hstate : c.state = .sendPhase := by
      have hstarted := h.started
      cases hs : c.state <;> simp_all
    have hzero : p.effectiveDataSize.toNat = 0 := hunsent (by simp [hstate])
    have hnone : received c.log p.destRank.toNat = 0 :=
      h.books.unsent (by simp [hstate]) p.destRank.toNat hrank
    rw [hzero, hnone]
    exact ⟨.inr (by omega), fun g _ => by rw [add_zero, ite_self]⟩
  · rename_i hphase
    simp only [ne_eq, not_not] at hphase
    have hbooks := h.books
    simp only [hphase] at hbooks
    obtain ⟨hwrap, htally⟩ := hbooks.tally_add hrank hd hbound
    have hnew : p.destRank.toNat ∉ doneGpus n d c.log := by
      have hless : received c.log p.destRank.toNat < c.dataSize := htime hresult hphase (hnum ▸ hrank)
      rw [mem_doneGpus]
      omega
    rw [hwrap, hdata]
    split
    · rename_i hfull
      have hfinish := hbooks.finish hrank nofun hbound hnew hfull htally
      have hcount : wadd 32 c.broadcastDoneCount 1 = c.broadcastDoneCount + 1 := by
        have := (hbooks.opened rfl).1
        exact wadd_eq (by omega)
      unfold onGpuBroadcastReceiveComplete
      dsimp only
      rw [hcount, hnum]
      split at hfinish
      · rename_i hlast
        rw [if_pos hlast]
        refine ⟨⟨rfl, rfl⟩, by simp [complete], (by intro hs; cases hs), ?_⟩
        simpa [complete] using hfinish
      · rename_i hmore
        rw [if_neg hmore]
        refine ⟨⟨rfl, rfl⟩, h.started, fun hs => ?_, ?_⟩
        · rw [hphase] at hs
          cases hs
        · simpa [hphase] using hfinish
    · rename_i hopen
      refine ⟨⟨hnum, rfl⟩, h.started, fun hs => ?_, ?_⟩
      · rw [hphase] at hs
        cases hs
      · have harrive := hbooks.arrive p.effectiveDataSize.toNat hrank nofun hbound
          (fun _ => ⟨.inr hopen, htally⟩)
        simpa [hphase] using harrive

theorem kept_invariant (n : UInt16) (d : UInt64) (hd : 0 < d) :
    ((nvlsMachine n d).restrict InTime).Invariant (Kept n.toNat d.toNat) := by
  refine Machine.Inductive.invariant ⟨?_, ?_⟩
  · rintro c ⟨c₀, hinit, rfl⟩
    unfold initialized at hinit
    split at hinit
    · cases hinit
    · rename_i hn
      cases hinit
      have hpos : 0 < n.toNat := by
        by_contra hzero
        exact hn (UInt16.toNat_inj.mp (by simpa using hzero))
      exact ⟨⟨rfl, rfl⟩, by simp [start], fun _ _ => rfl, .initial hpos hd⟩
  · intro c a c' h hen hex
    cases a with
    | triggerSendPhase =>
        cases hex
        exact h.triggerSendPhase hd hen.1
    | receive p =>
        cases hex
        exact h.onPacketReceived n.toNat_lt hd d.toNat_lt hen.1 hen.2

end NvlsAllGather

end ProtoBridge.Collective
