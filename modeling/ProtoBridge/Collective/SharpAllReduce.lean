import ProtoBridge.Collective.Service

/-!
# SharpAllReduce without the transaction model

Each GPU uploads all of its data, and the switch multicasts the reduced result. The
receive handler marks the GPUs it has counted, so that it keeps the books in every
run.
-/

namespace ProtoBridge.Collective

open Lib Fabric

/-- `SharpState`. -/
inductive SharpState
  | idle
  | reducePhase
  | broadcastPhase
  | completed
  deriving DecidableEq

/-- A packet of the result, as `SharpAllReduce` sees it. -/
def isSharpResult (h : Header) : Bool := h.packetType = .allReduce || h.packetType = .data

/-- `SharpAllReduce` with `UseTransactionModel` off, all of its endpoints present. `triggered`
tells whether the scheduled `TriggerReducePhase` has run; no function reads it. -/
structure SharpAllReduce where
  numGpus : Nat
  dataSize : Nat
  state : SharpState := .idle
  gpuBroadcastReceivedBytes : Nat → Nat := fun _ => 0
  gpuBroadcastDone : Nat → Bool := fun _ => false
  broadcastDoneCount : Nat := 0
  triggered : Bool := false
  log : List Obs := []

namespace SharpAllReduce

/-- `Initialize`. -/
def initialized (numGpus : UInt16) (dataSize : UInt64) : SharpAllReduce where
  numGpus := numGpus.toNat
  dataSize := dataSize.toNat

/-- `Complete`. -/
def complete (c : SharpAllReduce) : SharpAllReduce :=
  { c with state := .completed, log := c.log ++ [.completed] }

/-- `Start`. `TriggerReducePhase` is scheduled. -/
def start (c : SharpAllReduce) : SharpAllReduce :=
  let c := { c with state := .reducePhase }
  if c.dataSize = 0 then c.complete else c

/-- The upload of one GPU. -/
def upload (c : SharpAllReduce) (gpu : Nat) : SharpAllReduce :=
  { c with log := c.log ++ [.uploaded gpu c.dataSize] }

/-- `TriggerReducePhase`. -/
def triggerReducePhase (c : SharpAllReduce) : SharpAllReduce :=
  (List.range c.numGpus).foldl upload { c with triggered := true }

/-- `OnGpuBroadcastReceiveComplete`. -/
def onGpuBroadcastReceiveComplete (c : SharpAllReduce) (gpu : Nat) : SharpAllReduce :=
  if c.gpuBroadcastDone gpu = true then c
  else
    let c := { c with
      gpuBroadcastDone := Function.update c.gpuBroadcastDone gpu true
      broadcastDoneCount := wadd 32 c.broadcastDoneCount 1 }
    if c.broadcastDoneCount ≥ c.numGpus then c.complete else c

/-- `OnPacketReceived`. -/
def onPacketReceived (c : SharpAllReduce) (h : Header) : SharpAllReduce :=
  if h.packetType ≠ .allReduce ∧ h.packetType ≠ .data then c
  else if h.destRank.toNat ≥ c.numGpus then c
  else
    let c := { c with log := c.log ++ [.arrived h.destRank.toNat h.effectiveDataSize.toNat] }
    if c.state ≠ .broadcastPhase ∧ c.state ≠ .reducePhase then c
    else
      let bytes := wadd 64 (c.gpuBroadcastReceivedBytes h.destRank.toNat) h.effectiveDataSize.toNat
      let c := { c with
        gpuBroadcastReceivedBytes := Function.update c.gpuBroadcastReceivedBytes h.destRank.toNat bytes }
      if bytes ≥ c.dataSize then c.onGpuBroadcastReceiveComplete h.destRank.toNat else c

/-- What happens to a started collective. -/
inductive Act
  | triggerReducePhase
  | receive (h : Header)

/-- One of these; none of them aborts. -/
def exec (c : SharpAllReduce) : Act → Except Empty SharpAllReduce
  | .triggerReducePhase => .ok c.triggerReducePhase
  | .receive h => .ok (c.onPacketReceived h)

/-- The uploads happen once. A GPU gets its bytes of the result behind the uploads, and no more of
them than there are; packets without such bytes come at any time. -/
def enabled (c : SharpAllReduce) : Act → Prop
  | .triggerReducePhase => c.triggered = false
  | .receive h => isSharpResult h = true → 0 < h.effectiveDataSize.toNat → c.triggered = true ∧
      received c.log h.destRank.toNat + h.effectiveDataSize.toNat ≤ c.dataSize

end SharpAllReduce

/-- Every run of an initialized and started collective. -/
def sharpMachine (n : UInt16) (d : UInt64) : Machine SharpAllReduce SharpAllReduce.Act Empty where
  init c := c = (SharpAllReduce.initialized n d).start
  enabled := SharpAllReduce.enabled
  exec := SharpAllReduce.exec

namespace SharpAllReduce

variable {n d : Nat} {c : SharpAllReduce}

/-- The books of a started collective; the marks are the GPUs that have the result. -/
structure Kept (n d : Nat) (c : SharpAllReduce) : Prop where
  size : c.numGpus = n ∧ c.dataSize = d
  started : c.state = .reducePhase ∨ c.state = .completed
  marks : c.state = .reducePhase → ∀ gpu < n, c.gpuBroadcastDone gpu = true ↔ d ≤ received c.log gpu
  books : Books n d c.triggered (c.state = .completed) c.gpuBroadcastReceivedBytes
    c.broadcastDoneCount c.log

theorem Kept.upload (h : Kept n d c) (gpu : Nat) : Kept n d (c.upload gpu) := by
  refine ⟨h.size, h.started, ?_, h.books.note (by simp) (fun _ => rfl) id⟩
  intro hstate g hg
  rw [SharpAllReduce.upload, received_append, received_uploaded, add_zero]
  exact h.marks hstate g hg

theorem Kept.uploads (h : Kept n d c) (gpus : List Nat) :
    Kept n d (gpus.foldl SharpAllReduce.upload c) := by
  induction gpus generalizing c with
  | nil => exact h
  | cons gpu gpus ih => exact ih (h.upload gpu)

theorem Kept.triggerReducePhase (h : Kept n d c) : Kept n d c.triggerReducePhase := by
  refine Kept.uploads (c := { c with triggered := true }) ⟨h.size, h.started, h.marks, ?_⟩ _
  refine { h.books with unsent := ?_ }
  intro hs
  cases hs

theorem Kept.onPacketReceived (h : Kept n d c) (hn : n < 2 ^ 16) (hd : d < 2 ^ 64) {p : Header}
    (hen : c.enabled (.receive p)) : Kept n d (c.onPacketReceived p) := by
  obtain ⟨hnum, hdata⟩ := h.size
  unfold SharpAllReduce.onPacketReceived
  dsimp only
  split
  · exact h
  rename_i htype
  have hresult : isSharpResult p = true := by
    simp only [not_and, not_not] at htype
    by_cases hreduce : p.packetType = .allReduce
    · simp [isSharpResult, hreduce]
    · simp [isSharpResult, htype hreduce]
  split
  · exact h
  rename_i hrank
  rw [not_le, hnum] at hrank
  have hlimit : 0 < p.effectiveDataSize.toNat → c.triggered = true ∧
      received c.log p.destRank.toNat + p.effectiveDataSize.toNat ≤ d := hdata ▸ hen hresult
  obtain ⟨hunsent, hbound⟩ := h.books.within hrank hlimit
  rcases h.started with hphase | hphase
  · rw [if_neg (by simp [hphase])]
    have hbooks := h.books
    simp only [hphase] at hbooks
    obtain ⟨hwrap, htally⟩ := hbooks.tally_add hrank hd hbound
    have hmarks := h.marks hphase
    rw [hwrap, hdata]
    split
    · rename_i hfull
      unfold onGpuBroadcastReceiveComplete
      dsimp only
      split
      -- the GPU was counted before
      · rename_i hmark
        have hdone : p.destRank.toNat ∈ doneGpus n d c.log :=
          mem_doneGpus.mpr ⟨hrank, (hmarks p.destRank.toNat hrank).mp hmark⟩
        refine ⟨⟨hnum, rfl⟩, h.started, ?_, ?_⟩
        · intro _ g hg
          rw [received_snoc]
          split
          · rename_i heq
            rw [← heq]
            exact iff_of_true hmark hfull
          · exact hmarks g hg
        · have harrive := hbooks.arrive p.effectiveDataSize.toNat hrank hunsent hbound
            (fun _ => ⟨.inl hdone, htally⟩)
          simpa [hphase] using harrive
      · rename_i hmark
        have hnew : p.destRank.toNat ∉ doneGpus n d c.log := fun hmem =>
          hmark ((hmarks p.destRank.toNat hrank).mpr (mem_doneGpus.mp hmem).2)
        have hfinish := hbooks.finish hrank hunsent hbound hnew hfull htally
        have hcount : wadd 32 c.broadcastDoneCount 1 = c.broadcastDoneCount + 1 := by
          have := (hbooks.opened rfl).1
          exact wadd_eq (by omega)
        rw [hcount, hnum]
        split at hfinish
        · rename_i hlast
          rw [if_pos hlast]
          refine ⟨⟨rfl, rfl⟩, .inr rfl, (by intro hs; cases hs), ?_⟩
          simpa [complete] using hfinish
        · rename_i hmore
          rw [if_neg hmore]
          refine ⟨⟨rfl, rfl⟩, h.started, ?_, ?_⟩
          · intro _ g hg
            dsimp only
            rw [received_snoc, Function.update_apply]
            by_cases heq : g = p.destRank.toNat
            · rw [if_pos heq, if_pos heq.symm, heq]
              exact iff_of_true rfl hfull
            · rw [if_neg heq, if_neg (Ne.symm heq), add_zero]
              exact hmarks g hg
          · simpa [hphase] using hfinish
    · rename_i hopen
      refine ⟨⟨hnum, rfl⟩, h.started, ?_, ?_⟩
      · intro _ g hg
        dsimp only
        rw [received_snoc]
        split
        · rename_i heq
          rw [← heq]
          refine iff_of_false ?_ hopen
          rw [hmarks p.destRank.toNat hrank]
          omega
        · exact hmarks g hg
      · have harrive := hbooks.arrive p.effectiveDataSize.toNat hrank hunsent hbound
          (fun _ => ⟨.inr hopen, htally⟩)
        simpa [hphase] using harrive
  · rw [if_pos (by simp [hphase])]
    refine ⟨h.size, h.started, ?_, h.books.arrive _ hrank hunsent hbound ?_⟩
    · intro hs
      rw [hphase] at hs
      cases hs
    · intro hopen
      simp [hphase] at hopen

theorem kept_invariant (n : UInt16) (d : UInt64) (hn : 0 < n) (hd : 0 < d) :
    (sharpMachine n d).Invariant (Kept n.toNat d.toNat) := by
  refine Machine.Inductive.invariant ⟨?_, ?_⟩
  · rintro c rfl
    have hstart : (initialized n d).start = { initialized n d with state := .reducePhase } := by
      have hpos : (initialized n d).dataSize ≠ 0 := Nat.ne_of_gt hd
      exact if_neg hpos
    rw [hstart]
    refine ⟨⟨rfl, rfl⟩, .inl rfl, ?_, .initial hn hd⟩
    intro _ gpu _
    exact iff_of_false Bool.false_ne_true (not_le.mpr hd)
  · intro c a c' h hen hex
    cases a with
    | triggerReducePhase =>
        cases hex
        exact h.triggerReducePhase
    | receive p =>
        cases hex
        exact h.onPacketReceived n.toNat_lt d.toNat_lt hen

end SharpAllReduce

end ProtoBridge.Collective
