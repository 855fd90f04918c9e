import ProtoBridge.Collective.RingPassRuns

/-!
# What a run of RingAllGather or RingReduceScatter comes to

A run cannot stop before the callback: of the ranks that are behind, the one that is behind the most
waits for a segment that its sender has sent. And a rank that has finished its steps has received every
segment but its own once.
-/

namespace ProtoBridge.Collective

open Lib Fabric

namespace RingPassRun

variable {M : Type*} [AddCommMonoid M] {own : Nat → Nat → M} {r : RingPass} {c : RingPassRun}
  {gpu rank step : Nat}

/-! ## Progress -/

theorem Kept.of_sent (h : Kept r c) (hsent : .sent gpu step ∈ c.log) :
    gpu < r.numGpus ∧ step ≤ c.gpuCompletedStep gpu ∧ step < r.totalSteps := by
  have hone := h.sends gpu step
  have hmem := List.count_pos_iff.mpr hsent
  split at hone
  · assumption
  · omega

theorem Kept.sent_of_quiet (h : Kept r c) (hscheduled : c.scheduled = []) (hgpu : gpu < r.numGpus)
    (hstep : step ≤ c.gpuCompletedStep gpu) (hlast : step < r.totalSteps) :
    .sent gpu step ∈ c.log := by
  have hone := h.sends gpu step
  rw [hscheduled, if_pos ⟨hgpu, hstep, hlast⟩] at hone
  apply List.count_pos_iff.mp
  rw [List.count_nil] at hone
  omega

theorem Going.completed_of_quiet (h : Going r own c) (hr : Lawful r) (hquiet : c.Quiet) :
    c.completed = true := by
  apply h.kept.ended.mpr
  by_contra hopen
  push Not at hopen
  obtain ⟨behind, hbehind, hne⟩ := hopen
  -- the rank that is behind the most
  obtain ⟨rank, hrank, hmin⟩ := Finset.exists_min_image (Finset.range r.numGpus) c.gpuCompletedStep
    ⟨behind, Finset.mem_range.mpr hbehind⟩
  have hlast : c.gpuCompletedStep rank < r.totalSteps := by
    have hle := hmin behind (Finset.mem_range.mpr hbehind)
    have hbound := h.kept.bound behind
    omega
  obtain ⟨gpu, hgpu, rfl⟩ := hr.placed.exists_sender (Finset.mem_range.mp hrank)
  have hsent := h.kept.sent_of_quiet hquiet.1 hgpu (hmin gpu (Finset.mem_range.mpr hgpu)) hlast
  have hcame := hquiet.2 gpu _ hsent
  rw [h.kept.ring] at hcame
  apply h.waits (r.target gpu) (hr.placed.target gpu hgpu)
  unfold Covered
  rw [h.kept.ring, h.kept.pool, if_neg (lt_irrefl _), hcame,
    hr.placed.stepExpectedBytes_target _ hgpu]
  exact ⟨hlast, le_rfl⟩

/-- The acts of the network and of the clock. -/
def Act.Moves : Act → Prop
  | .receive _ _ => False
  | _ => True

theorem Stage.exists_act (h : Stage r own c) (hr : Lawful r) (hquiet : ¬ c.Quiet) :
    ∃ a : Act, a.Moves ∧ c.enabled a := by
  cases hscheduled : c.scheduled with
  | cons e rest =>
      refine ⟨.fire 0, trivial, ?_⟩
      show 0 < c.scheduled.length
      rw [hscheduled]
      exact Nat.succ_pos _
  | nil =>
      rcases h with rfl | h
      · cases hscheduled
      · have hring := h.kept.ring
        subst hring
        have hflight : ∃ gpu step, .sent gpu step ∈ c.log ∧
            deliveredAt c.log (c.ring.target gpu) step ≠ c.ring.segmentSizeOf gpu step := by
          by_contra hnone
          push Not at hnone
          exact hquiet ⟨hscheduled, hnone⟩
        obtain ⟨gpu, step, hsent, hne⟩ := hflight
        have hgpu := (h.kept.of_sent hsent).1
        have hcap := h.kept.cap _ (hr.placed.target gpu hgpu) step
        rw [hr.placed.stepExpectedBytes_target step hgpu] at hcap
        refine ⟨.deliver gpu step 1 0, trivial, hsent, by decide, ?_⟩
        show deliveredAt c.log (c.ring.target gpu) step + 1 ≤ _
        omega

/-! ## Totals -/

/-- The segments of the steps that a rank has finished. -/
def receivedSegments (r : RingPass) (log : List RingPassObs) (rank : Nat) : List Nat :=
  (log.filterMap (RingPassObs.finishedAt rank)).filterMap fun step =>
    (r.senderTo rank).map fun gpu => r.segmentOf gpu step

theorem Kept.count_receivedSegments (h : Kept r c) (hr : Lawful r) (hrank : rank < r.numGpus)
    (hdone : c.gpuCompletedStep rank = r.totalSteps) {segment : Nat} (hsegment : segment < r.numGpus) :
    (receivedSegments r c.log rank).count segment = if segment = r.segmentOf rank 0 then 0 else 1 := by
  have hsteps := hr.placed.steps
  have htwo := hr.two
  obtain ⟨gpu, hgpu, rfl⟩ := hr.placed.exists_sender hrank
  have hreceived : receivedSegments r c.log (r.target gpu) =
      (List.range r.totalSteps).map fun step => r.segmentOf (r.target gpu) (step + 1) := by
    unfold receivedSegments
    rw [h.finished, hdone, hr.placed.senderTo_target hgpu]
    show (List.range r.totalSteps).filterMap (fun step => some (r.segmentOf gpu step)) = _
    rw [List.filterMap_eq_map']
    refine List.map_congr_left ?_
    intro step _
    exact (hr.placed.segmentOf_target step hgpu).symm
  have hnodup : (receivedSegments r c.log (r.target gpu)).Nodup := by
    rw [hreceived]
    refine List.Nodup.map_on ?_ List.nodup_range
    intro step hstep step' hstep' heq
    rw [List.mem_range] at hstep hstep'
    exact Nat.succ_injective (hr.placed.step_injective (by omega) (by omega) heq)
  rw [hnodup.count]
  obtain ⟨step, hstep, heq⟩ := hr.placed.exists_step (r.target gpu) hsegment
  have hmem : segment ∈ receivedSegments r c.log (r.target gpu) ↔ step ≠ 0 := by
    rw [hreceived, List.mem_map]
    constructor
    · rintro ⟨s, hs, heq'⟩
      rw [List.mem_range] at hs
      have := hr.placed.step_injective (by omega) hstep (heq'.trans heq.symm)
      omega
    · intro hne
      obtain ⟨s, rfl⟩ := Nat.exists_eq_succ_of_ne_zero hne
      exact ⟨s, List.mem_range.mpr (by omega), heq⟩
  have hown : segment = r.segmentOf (r.target gpu) 0 ↔ step = 0 := by
    rw [← heq]
    exact ⟨fun hsame => hr.placed.step_injective hstep (by omega) hsame, fun hzero => by rw [hzero]⟩
  by_cases hzero : step = 0
  · rw [if_neg fun hin => hmem.mp hin hzero, if_pos (hown.mpr hzero)]
  · rw [if_pos (hmem.mpr hzero), if_neg fun hin => hzero (hown.mp hin)]

theorem Kept.count_sent (h : Kept r c) (hr : Lawful r)
    (hall : ∀ rank < r.numGpus, c.gpuCompletedStep rank = r.totalSteps) (gpu step : Nat) :
    c.log.count (.sent gpu step) = if gpu < r.numGpus ∧ step < r.totalSteps then 1 else 0 := by
  have hone := h.sends gpu step
  by_cases hin : gpu < r.numGpus ∧ step < r.totalSteps
  · obtain ⟨hgpu, hstep⟩ := hin
    have htarget := hr.placed.target gpu hgpu
    -- its bytes have arrived
    have hcame := h.behind (r.target gpu) step (by rw [hall _ htarget]; exact hstep)
    have hpos := hr.expected_pos (r.target gpu) step
    have hsent := List.count_pos_iff.mpr (h.flown gpu hgpu step (by omega))
    rw [hall gpu hgpu, if_pos ⟨hgpu, hstep.le, hstep⟩] at hone
    rw [if_pos ⟨hgpu, hstep⟩]
    omega
  · rw [if_neg hin]
    rw [if_neg fun hopen => hin ⟨hopen.1, hopen.2.2⟩] at hone
    omega

theorem Kept.bytesSent_eq (h : Kept r c) (hr : Lawful r)
    (hall : ∀ rank < r.numGpus, c.gpuCompletedStep rank = r.totalSteps) :
    bytesSent r c.log = (r.numGpus - 1) * r.dataSize := by
  have hcount := h.count_sent hr hall
  let sends : Finset RingPassObs := (Finset.range r.numGpus ×ˢ Finset.range r.totalSteps).image
    fun p => .sent p.1 p.2
  have hmem : ∀ gpu step, RingPassObs.sent gpu step ∈ sends ↔
      gpu < r.numGpus ∧ step < r.totalSteps := by
    intro gpu step
    simp only [sends, Finset.mem_image, Finset.mem_product, Finset.mem_range]
    constructor
    · rintro ⟨p, hp, heq⟩
      cases heq
      exact hp
    · intro hin
      exact ⟨(gpu, step), hin, rfl⟩
  have hsubset : sends ⊆ c.log.toFinset := by
    intro e he
    obtain ⟨p, hp, rfl⟩ := Finset.mem_image.mp he
    have hone := hcount p.1 p.2
    rw [if_pos ((hmem p.1 p.2).mp he)] at hone
    exact List.mem_toFinset.mpr (List.count_pos_iff.mp (by omega))
  calc bytesSent r c.log
      = ∑ e ∈ c.log.toFinset, c.log.count e • e.bytesOf r := Finset.sum_list_map_count _ _
    _ = ∑ e ∈ sends, c.log.count e • e.bytesOf r := by
        refine (Finset.sum_subset hsubset ?_).symm
        intro e _ hout
        cases e with
        | sent gpu step =>
            rw [hcount, if_neg fun hin => hout ((hmem gpu step).mpr hin), zero_smul]
        | delivered => exact smul_zero _
        | finished => exact smul_zero _
        | completed => exact smul_zero _
    _ = ∑ e ∈ sends, e.bytesOf r := by
        refine Finset.sum_congr rfl ?_
        intro e he
        obtain ⟨p, hp, rfl⟩ := Finset.mem_image.mp he
        rw [hcount, if_pos ((hmem p.1 p.2).mp he), one_smul]
    _ = ∑ p ∈ Finset.range r.numGpus ×ˢ Finset.range r.totalSteps, r.segmentSizeOf p.1 p.2 := by
        refine Finset.sum_image ?_
        rintro ⟨g, s⟩ _ ⟨g', s'⟩ _ heq
        cases heq
        rfl
    _ = ∑ step ∈ Finset.range r.totalSteps, r.dataSize := by
        rw [Finset.sum_product_right]
        exact Finset.sum_congr rfl fun step _ => (hr.placed.sum_segmentSizeOf step).trans hr.sizes
    _ = (r.numGpus - 1) * r.dataSize := by
        rw [Finset.sum_const, Finset.card_range, hr.placed.steps, smul_eq_mul]

end RingPassRun

/-! ## Guarantees -/

namespace RingPass.Placed

variable {r : RingPass} {gpu rank : Nat}

theorem segmentOf_zero (h : r.Placed) (hgpu : gpu < r.numGpus) : r.segmentOf gpu 0 = r.ringPos gpu := by
  have hlt := h.lt gpu hgpu
  unfold segmentOf
  split
  · rw [Nat.add_zero, Nat.mod_eq_of_lt hlt]
  · rw [Nat.zero_mod, Nat.sub_zero, Nat.add_mod_right, Nat.mod_eq_of_lt hlt]

theorem existsUnique_sender (h : r.Placed) (hrank : rank < r.numGpus) :
    ∃! gpu, gpu < r.numGpus ∧ r.target gpu = rank := by
  obtain ⟨gpu, hgpu, rfl⟩ := h.exists_sender hrank
  refine ⟨gpu, ⟨hgpu, rfl⟩, ?_⟩
  rintro gpu' ⟨hgpu', heq⟩
  exact h.target_injective hgpu' hgpu heq

end RingPass.Placed

/-- A rank sends behind all bytes of the steps before, and sends on what it got at the step before; it
waits for what its one sender sends. A rank that has finished its steps has got each segment but its
own once: it has all of them after the all-gather, the sum of the next one after the reduce-scatter.
The callback is called once, behind all bytes, and nothing keeps a run from it. -/
structure RingPassDelivers {M : Type*} [AddCommMonoid M] (r : RingPass) (own : Nat → Nat → M)
    (c : RingPassRun) : Prop where
  forwards : RingPassRun.SendsBehindArrivals r c.log
  passes : ∀ gpu < r.numGpus, ∀ step, r.segmentOf (r.target gpu) (step + 1) = r.segmentOf gpu step
  sender : ∀ rank < r.numGpus, ∃! gpu, gpu < r.numGpus ∧ r.target gpu = rank
  expects : ∀ gpu < r.numGpus, ∀ step,
    r.stepExpectedBytes (r.target gpu) step = r.segmentSizeOf gpu step
  received : ∀ rank < r.numGpus, c.gpuCompletedStep rank = r.numGpus - 1 →
    (∀ step < r.numGpus - 1,
      RingPassRun.deliveredAt c.log rank step = r.stepExpectedBytes rank step) ∧
    ∀ segment < r.numGpus, (RingPassRun.receivedSegments r c.log rank).count segment =
      if segment = r.ringPos rank then 0 else 1
  gathered : r.gathers = true → ∀ rank < r.numGpus, c.gpuCompletedStep rank = r.numGpus - 1 →
    ∀ owner < r.numGpus,
      (holdings r own c.log).held rank (r.ringPos owner) = own owner (r.ringPos owner)
  reduced : r.gathers = false → ∀ rank < r.numGpus, c.gpuCompletedStep rank = r.numGpus - 1 →
    (holdings r own c.log).held rank ((r.ringPos rank + 1) % r.numGpus) =
      r.reduced own ((r.ringPos rank + 1) % r.numGpus)
  ended : c.completed = true ↔ ∀ rank < r.numGpus, c.gpuCompletedStep rank = r.numGpus - 1
  completes : RingPassRun.CompletesBehindArrivals r c.log
  once : c.log.count .completed = if c.completed then 1 else 0
  quiet : c.Quiet → c.completed = true
  goesOn : ¬ c.Quiet → ∃ a : RingPassRun.Act, a.Moves ∧ c.enabled a
  total : c.completed = true → RingPassRun.bytesSent r c.log = (r.numGpus - 1) * r.dataSize ∧
    c.sentDataBytes = (r.numGpus - 1) * r.dataSize % 2 ^ 64

namespace RingPassRun

variable {M : Type*} [AddCommMonoid M] {own : Nat → Nat → M} {r : RingPass} {c : RingPassRun}
  {gathers : Bool} {numGpus : UInt16} {dataSize : UInt64} {next prev : Nat → Nat}

theorem Going.delivers (h : Going r own c) (hr : Lawful r)
    (hinit : RingPass.initialized gathers numGpus dataSize next prev = .ok r)
    (hembedding : RingEmbedding numGpus.toNat next prev) : RingPassDelivers r own c := by
  have hsteps := hr.placed.steps
  refine
    { forwards := h.kept.forwards
      passes := fun gpu hgpu step => hr.placed.segmentOf_target step hgpu
      sender := fun rank hrank => hr.placed.existsUnique_sender hrank
      expects := fun gpu hgpu step => hr.placed.stepExpectedBytes_target step hgpu
      received := ?_
      gathered := ?_
      reduced := ?_
      ended := hsteps ▸ h.kept.ended
      completes := h.kept.completes
      once := h.kept.once
      quiet := h.completed_of_quiet hr
      goesOn := Stage.exists_act (.inr h) hr
      total := ?_ }
  · intro rank hrank hdone
    refine ⟨fun step hstep => h.kept.behind rank step (hdone.symm ▸ hstep), ?_⟩
    intro segment hsegment
    rw [h.kept.count_receivedSegments hr hrank (hdone.trans hsteps.symm) hsegment,
      hr.placed.segmentOf_zero hrank]
  · intro hgathers rank hrank hdone owner howner
    rw [h.carried.held rank hrank, hdone]
    exact hr.placed.heldAfter_all hgathers hrank howner
  · intro hscatters rank hrank hdone
    rw [h.carried.held rank hrank, hdone]
    exact RingPass.heldAfter_reduces hinit hembedding hscatters own hrank
  · intro hover
    have hsum := h.kept.bytesSent_eq hr (h.kept.ended.mp hover)
    exact ⟨hsum, hsum ▸ h.kept.bytes⟩

theorem Stage.delivers (h : Stage r own c) (hr : Lawful r)
    (hinit : RingPass.initialized gathers numGpus dataSize next prev = .ok r)
    (hembedding : RingEmbedding numGpus.toNat next prev) : RingPassDelivers r own c := by
  rcases h with rfl | h
  · have hsteps := hr.placed.steps
    have htwo := hr.two
    -- nothing has happened yet
    have hfirst : ∀ rank : Nat, ¬ 0 = r.numGpus - 1 := fun _ => by omega
    exact
      { forwards := Justified.nil
        passes := fun gpu hgpu step => hr.placed.segmentOf_target step hgpu
        sender := fun rank hrank => hr.placed.existsUnique_sender hrank
        expects := fun gpu hgpu step => hr.placed.stepExpectedBytes_target step hgpu
        received := fun rank _ hdone => absurd hdone (hfirst rank)
        gathered := fun _ rank _ hdone => absurd hdone (hfirst rank)
        reduced := fun _ rank _ hdone => absurd hdone (hfirst rank)
        ended := iff_of_false Bool.false_ne_true fun hall => hfirst 0 (hall 0 (by omega))
        completes := Justified.nil
        once := rfl
        quiet := fun hquiet => absurd hquiet.1 (List.cons_ne_nil _ _)
        goesOn := (show Stage r own _ from .inl rfl).exists_act hr
        total := fun hover => absurd hover Bool.false_ne_true }
  · exact h.delivers hr hinit hembedding

end RingPassRun

/-- In every run of the RingAllGather or the RingReduceScatter, whatever arrives first. -/
theorem ringPass_delivers (gathers : Bool) (numGpus : UInt16) (dataSize : UInt64)
    (next prev : Nat → Nat) (htwo : 2 ≤ numGpus.toNat) (hdata : numGpus.toNat ≤ dataSize.toNat)
    (hembedding : RingEmbedding numGpus.toNat next prev) {M : Type*} [AddCommMonoid M]
    (own : Nat → Nat → M) :
    ∃ r, RingPass.initialized gathers numGpus dataSize next prev = .ok r ∧
      r.gathers = gathers ∧ r.numGpus = numGpus.toNat ∧ r.dataSize = dataSize.toNat ∧
      ∀ c, (ringPassMachine gathers numGpus dataSize next prev).Reachable c →
        RingPassDelivers r own c := by
  obtain ⟨r, hinit⟩ : ∃ r, RingPass.initialized gathers numGpus dataSize next prev = .ok r := by
    unfold RingPass.initialized
    dsimp only
    rw [if_neg]
    · exact ⟨_, rfl⟩
    · rintro rfl
      exact absurd htwo (by decide)
  obtain ⟨hgathers, hn, hd, -⟩ := RingPass.initialized_fields hinit
  have hr := RingPassRun.lawful_of_initialized hinit htwo hdata hembedding
  refine ⟨r, hinit, hgathers, hn, hd, ?_⟩
  intro c hc
  exact (RingPassRun.stage_invariant hinit hr own c hc).delivers hr hinit hembedding

/-- Three ranks that gather on a ring that is not in the order of the ranks. -/
theorem ringPass_delivers_crossed :
    ∃ r, RingPass.initialized true 3 10 crossedNext crossedPrev = .ok r ∧
      r.gathers = true ∧ r.numGpus = 3 ∧ r.dataSize = 10 ∧
      ∀ c, (ringPassMachine true 3 10 crossedNext crossedPrev).Reachable c →
        RingPassDelivers r (fun rank segment => 10 * rank + segment) c :=
  ringPass_delivers true 3 10 crossedNext crossedPrev (by decide) (by decide) ringEmbedding_crossed _

end ProtoBridge.Collective
