import ProtoBridge.Collective.RingLayout

/-!
# RingAllGather and RingReduceScatter

The two halves of the ring, each as a collective of its own. The all-gather goes down the ring that
is embedded in the topology, the reduce-scatter up; both number the ranks by the same walk up the
ring. After the steps of the one each rank has all segments, after those of the other it has the sum
of one segment.
-/

namespace ProtoBridge.Collective

open Lib

/-- What `Initialize` fixes, of a `RingAllGather` or a `RingReduceScatter`. -/
structure RingPass where
  gathers : Bool
  numGpus : Nat
  dataSize : Nat
  segmentSize : Nat
  segmentRemainder : Nat
  totalSteps : Nat
  ringNext : Nat → Nat
  ringPrev : Nat → Nat
  ringPos : Nat → Nat

namespace RingPass

/-- `Initialize`, with the neighbors that the endpoints are given. -/
def initialized (gathers : Bool) (numGpus : UInt16) (dataSize : UInt64)
    (ringNext ringPrev : Nat → Nat) : Except RingAbort RingPass :=
  let n := numGpus.toNat
  if numGpus = 0 then .error .noGpu
  else
    let small := dataSize.toNat / n = 0
    .ok
      { gathers
        numGpus := n
        dataSize := dataSize.toNat
        segmentSize := if small then dataSize.toNat else dataSize.toNat / n
        segmentRemainder := if small then 0 else dataSize.toNat % n
        totalSteps := n - 1
        ringNext
        ringPrev
        ringPos := RingLayout.computeRingPositions ringNext n }

/-- The rank that a rank sends to, down the ring or up. -/
def target (r : RingPass) (gpu : Nat) : Nat :=
  if r.gathers then
    if r.ringPrev gpu ≠ RingLayout.noNeighbor then r.ringPrev gpu
    else (gpu + r.numGpus - 1) % r.numGpus
  else if r.ringNext gpu ≠ RingLayout.noNeighbor then r.ringNext gpu
  else (gpu + 1) % r.numGpus

/-- The segment that `SegmentSizeOf` takes the size of. -/
def segmentOf (r : RingPass) (gpu step : Nat) : Nat :=
  if r.gathers then (r.ringPos gpu + step) % r.numGpus
  else (r.ringPos gpu + r.numGpus - step % r.numGpus) % r.numGpus

/-- The size of a segment. -/
def segmentBytes (r : RingPass) (segment : Nat) : Nat :=
  r.segmentSize + if segment < r.segmentRemainder then 1 else 0

/-- `SegmentSizeOf`. -/
def segmentSizeOf (r : RingPass) (gpu step : Nat) : Nat := r.segmentBytes (r.segmentOf gpu step)

/-- The rank that sends to a rank, as `StepExpectedBytes` looks for it. -/
def senderTo (r : RingPass) (destRank : Nat) : Option Nat :=
  (List.range r.numGpus).find? fun gpu => r.target gpu = destRank

/-- `StepExpectedBytes`. -/
def stepExpectedBytes (r : RingPass) (destRank step : Nat) : Nat :=
  match r.senderTo destRank with
  | some gpu => r.segmentSizeOf gpu step
  | none => r.segmentSize

/-! ## Data -/

variable {M : Type*} [AddCommMonoid M]

/-- What a rank makes of a segment that it receives: the all-gather takes it over, the reduce-scatter
adds it to its own copy. -/
def combine (r : RingPass) (held received : M) : M := if r.gathers then received else held + received

/-- What the ranks hold behind the first steps, all at once. -/
def heldAfter (r : RingPass) (own : Nat → Nat → M) : Nat → Nat → Nat → M
  | 0 => own
  | step + 1 => fun rank segment =>
      match r.senderTo rank with
      | some gpu =>
          if r.segmentOf gpu step = segment then
            r.combine (r.heldAfter own step rank segment) (r.heldAfter own step gpu segment)
          else r.heldAfter own step rank segment
      | none => r.heldAfter own step rank segment

/-- The sum of the copies of a segment. -/
def reduced (r : RingPass) (own : Nat → Nat → M) (segment : Nat) : M :=
  ∑ rank ∈ Finset.range r.numGpus, own rank segment

/-! ## Places -/

/-- The place of a rank on the ring. -/
def place (r : RingPass) (gpu : Nat) : ZMod r.numGpus := (r.ringPos gpu : ZMod r.numGpus)

/-- The places are numbered up the ring, and the targets follow them up or down. -/
structure Placed (r : RingPass) : Prop where
  pos : 0 < r.numGpus
  steps : r.totalSteps = r.numGpus - 1
  lt : ∀ gpu < r.numGpus, r.ringPos gpu < r.numGpus
  injective : ∀ gpu < r.numGpus, ∀ gpu' < r.numGpus, r.ringPos gpu = r.ringPos gpu' → gpu = gpu'
  target : ∀ gpu < r.numGpus, r.target gpu < r.numGpus
  along : ∀ gpu < r.numGpus,
    r.place (r.target gpu) = if r.gathers then r.place gpu - 1 else r.place gpu + 1

variable {numGpus : UInt16} {dataSize : UInt64} {next prev : Nat → Nat} {r : RingPass}
  {gpu gpu' rank step segment : Nat}

variable {gathers : Bool}

theorem placed_of_initialized (h : initialized gathers numGpus dataSize next prev = .ok r)
    (hembedding : RingEmbedding numGpus.toNat next prev) : r.Placed := by
  unfold initialized at h
  dsimp only at h
  split at h
  · cases h
  · rename_i hsome
    cases h
    have hmax : numGpus.toNat ≤ RingLayout.noNeighbor := Nat.le_of_lt_succ numGpus.toNat_lt
    have hpos : 0 < numGpus.toNat := Nat.pos_of_ne_zero fun hzero => hsome (UInt16.toNat_inj.mp hzero)
    have hnear := RingLayout.neighbors_of_embedding hpos hmax hembedding
    refine ⟨hpos, rfl, hnear.lt, hnear.injective, ?_, ?_⟩
    · intro gpu hgpu
      cases gathers with
      | true => exact hnear.down_lt gpu hgpu
      | false => exact hnear.up_lt gpu hgpu
    · intro gpu hgpu
      cases gathers with
      | true => exact hnear.down_place gpu hgpu
      | false => exact hnear.up_place gpu hgpu

namespace Placed

theorem place_injective (h : r.Placed) (hgpu : gpu < r.numGpus) (hgpu' : gpu' < r.numGpus)
    (heq : r.place gpu = r.place gpu') : gpu = gpu' :=
  h.injective gpu hgpu gpu' hgpu'
    (RingReduce.natCast_injective (h.lt gpu hgpu) (h.lt gpu' hgpu') heq)

theorem target_injective (h : r.Placed) (hgpu : gpu < r.numGpus) (hgpu' : gpu' < r.numGpus)
    (heq : r.target gpu = r.target gpu') : gpu = gpu' := by
  have hplace := congrArg r.place heq
  rw [h.along gpu hgpu, h.along gpu' hgpu'] at hplace
  split at hplace
  · exact h.place_injective hgpu hgpu' (sub_left_injective hplace)
  · exact h.place_injective hgpu hgpu' (add_right_cancel hplace)

theorem exists_sender (h : r.Placed) (hrank : rank < r.numGpus) :
    ∃ gpu < r.numGpus, r.target gpu = rank :=
  exists_of_injective h.target (fun _ ha _ hb => h.target_injective ha hb) rank hrank

theorem segmentOf_lt (h : r.Placed) (gpu step : Nat) : r.segmentOf gpu step < r.numGpus := by
  unfold segmentOf
  split <;> exact Nat.mod_lt _ h.pos

theorem segmentOf_cast (h : r.Placed) (gpu step : Nat) : (r.segmentOf gpu step : ZMod r.numGpus) =
    if r.gathers then r.place gpu + step else r.place gpu - step := by
  have hmod := (Nat.mod_lt step h.pos).le
  unfold segmentOf
  split
  · rw [ZMod.natCast_mod, Nat.cast_add, place]
  · rw [ZMod.natCast_mod, Nat.cast_sub (by omega), Nat.cast_add, ZMod.natCast_self, ZMod.natCast_mod,
      place]
    ring

theorem segmentOf_target (h : r.Placed) (step : Nat) (hgpu : gpu < r.numGpus) :
    r.segmentOf (r.target gpu) (step + 1) = r.segmentOf gpu step := by
  refine RingReduce.natCast_injective (h.segmentOf_lt _ _) (h.segmentOf_lt _ _) ?_
  rw [h.segmentOf_cast, h.segmentOf_cast, h.along gpu hgpu]
  split
  · push_cast
    ring
  · push_cast
    ring

theorem segmentOf_injective (h : r.Placed) (step : Nat) (hgpu : gpu < r.numGpus)
    (hgpu' : gpu' < r.numGpus) (heq : r.segmentOf gpu step = r.segmentOf gpu' step) : gpu = gpu' := by
  have hcast : (r.segmentOf gpu step : ZMod r.numGpus) = r.segmentOf gpu' step := congrArg _ heq
  rw [h.segmentOf_cast, h.segmentOf_cast] at hcast
  split at hcast
  · exact h.place_injective hgpu hgpu' (add_right_cancel hcast)
  · exact h.place_injective hgpu hgpu' (sub_left_injective hcast)

theorem step_injective (h : r.Placed) {step' : Nat} (hstep : step < r.numGpus)
    (hstep' : step' < r.numGpus) (heq : r.segmentOf gpu step = r.segmentOf gpu step') :
    step = step' := by
  have hcast : (r.segmentOf gpu step : ZMod r.numGpus) = r.segmentOf gpu step' := congrArg _ heq
  rw [h.segmentOf_cast, h.segmentOf_cast] at hcast
  refine RingReduce.natCast_injective hstep hstep' ?_
  split at hcast
  · exact add_left_cancel hcast
  · exact sub_right_injective hcast

theorem senderTo_target (h : r.Placed) (hgpu : gpu < r.numGpus) :
    r.senderTo (r.target gpu) = some gpu := by
  exact find?_range_of_injective (fun _ ha _ hb => h.target_injective ha hb) hgpu

theorem stepExpectedBytes_target (h : r.Placed) (step : Nat) (hgpu : gpu < r.numGpus) :
    r.stepExpectedBytes (r.target gpu) step = r.segmentSizeOf gpu step := by
  rw [stepExpectedBytes, h.senderTo_target hgpu]

theorem sum_segmentSizeOf (h : r.Placed) (step : Nat) :
    ∑ gpu ∈ Finset.range r.numGpus, r.segmentSizeOf gpu step =
      ∑ segment ∈ Finset.range r.numGpus, r.segmentBytes segment := by
  exact sum_reordered (fun gpu _ => h.segmentOf_lt gpu step)
    (fun _ ha _ hb => h.segmentOf_injective step ha hb) r.segmentBytes

/-! ## Rounds -/

variable {own : Nat → Nat → M} {k : Nat}

theorem heldAfter_target (h : r.Placed) (hgpu : gpu < r.numGpus) (step segment : Nat) :
    r.heldAfter own (step + 1) (r.target gpu) segment =
      if r.segmentOf gpu step = segment then
        r.combine (r.heldAfter own step (r.target gpu) segment) (r.heldAfter own step gpu segment)
      else r.heldAfter own step (r.target gpu) segment := by
  show (match r.senderTo (r.target gpu) with
    | some sender => _
    | none => _) = _
  rw [h.senderTo_target hgpu]

theorem heldAfter_stable (h : r.Placed) (hgpu : gpu < r.numGpus) (hle : step ≤ k)
    (hk : k < r.numGpus) : r.heldAfter own k gpu (r.segmentOf gpu step) =
      r.heldAfter own step gpu (r.segmentOf gpu step) := by
  induction k with
  | zero =>
      obtain rfl : step = 0 := by omega
      rfl
  | succ k ih =>
      rcases Nat.lt_or_eq_of_le hle with hlt | rfl
      · obtain ⟨sender, hsender, rfl⟩ := h.exists_sender hgpu
        rw [h.heldAfter_target hsender, if_neg, ih (by omega) (by omega)]
        intro heq
        rw [← h.segmentOf_target k hsender] at heq
        have := h.step_injective hk (by omega) heq
        omega
      · rfl

theorem exists_step (h : r.Placed) (gpu : Nat) (hsegment : segment < r.numGpus) :
    ∃ step < r.numGpus, r.segmentOf gpu step = segment :=
  exists_of_injective (fun step _ => h.segmentOf_lt gpu step)
    (fun _ ha _ hb => h.step_injective ha hb) segment hsegment

theorem heldAfter_gathers (h : r.Placed) (hgathers : r.gathers = true) (hgpu : gpu < r.numGpus)
    (hstep : step < r.numGpus) (hk : k ≤ step) {owner : Nat} (howner : owner < r.numGpus)
    (hplace : r.ringPos owner = r.segmentOf gpu k) :
    r.heldAfter own step gpu (r.segmentOf gpu k) = own owner (r.segmentOf gpu k) := by
  induction step generalizing gpu k with
  | zero =>
      obtain rfl : k = 0 := by omega
      have hown : r.segmentOf gpu 0 = r.ringPos gpu := by
        rw [segmentOf, if_pos hgathers, Nat.add_zero, Nat.mod_eq_of_lt (h.lt gpu hgpu)]
      rw [hown] at hplace
      rw [h.injective owner howner gpu hgpu hplace]
      rfl
  | succ step ih =>
      obtain ⟨sender, hsender, rfl⟩ := h.exists_sender hgpu
      rw [h.heldAfter_target hsender, ← h.segmentOf_target step hsender]
      by_cases hlast : k = step + 1
      · subst hlast
        rw [h.segmentOf_target step hsender] at hplace ⊢
        rw [if_pos rfl, combine, if_pos hgathers]
        exact ih hsender (by omega) le_rfl hplace
      · rw [if_neg fun heq => hlast (h.step_injective hstep (by omega) heq).symm]
        exact ih hgpu (by omega) (by omega) hplace

theorem heldAfter_all (h : r.Placed) (hgathers : r.gathers = true) (hgpu : gpu < r.numGpus)
    {owner : Nat} (howner : owner < r.numGpus) :
    r.heldAfter own (r.numGpus - 1) gpu (r.ringPos owner) = own owner (r.ringPos owner) := by
  have hpos := h.pos
  obtain ⟨k, hk, hsegment⟩ := h.exists_step gpu (h.lt owner howner)
  rw [← hsegment]
  exact h.heldAfter_gathers hgathers hgpu (by omega) (by omega) howner hsegment.symm

end Placed

/-! ## The first phase of the AllReduce -/

/-- The ring of an AllReduce that starts with the reduce-scatter. -/
def toLayout (r : RingPass) : RingLayout where
  numGpus := r.numGpus
  dataSize := r.dataSize
  segmentSize := r.segmentSize
  segmentRemainder := r.segmentRemainder
  reduceScatterSteps := r.numGpus - 1
  totalSteps := 2 * (r.numGpus - 1)
  ringNext := r.ringNext
  ringPrev := r.ringPrev
  ringPos := r.ringPos

theorem initialized_toLayout (h : initialized gathers numGpus dataSize next prev = .ok r) :
    RingLayout.initialized numGpus dataSize next prev = .ok r.toLayout := by
  unfold initialized at h
  unfold RingLayout.initialized
  dsimp only at h ⊢
  split at h
  · cases h
  · rename_i hsome
    cases h
    rw [if_neg hsome]
    rfl

theorem heldAfter_toLayout (h : r.Placed) (hplaced : r.toLayout.Placed) (hgathers : r.gathers = false)
    (own : Nat → Nat → M) (hstep : step ≤ r.numGpus - 1) (hgpu : gpu < r.numGpus) (segment : Nat) :
    r.heldAfter own step gpu segment = r.toLayout.heldAfter own step gpu segment := by
  induction step generalizing gpu segment with
  | zero => rfl
  | succ step ih =>
      have hup : step < r.numGpus - 1 := hstep
      obtain ⟨sender, hsender, rfl⟩ := h.exists_sender hgpu
      have htarget : r.target sender = r.toLayout.getSendTarget sender step := by
        rw [RingPass.target, RingLayout.getSendTarget, if_neg (by simp [hgathers]),
          if_pos (show step < r.toLayout.reduceScatterSteps from hup)]
        rfl
      have hsegmentOf : r.segmentOf sender step = r.toLayout.segmentOf sender step := by
        rw [RingPass.segmentOf, RingLayout.segmentOf, if_neg (by simp [hgathers]),
          if_pos (show step < r.toLayout.numGpus - 1 from hup)]
        rfl
      have hscatter : step < r.toLayout.reduceScatterSteps := hup
      rw [h.heldAfter_target hsender, ih (by omega) hgpu, ih (by omega) hsender]
      rw [htarget, hsegmentOf]
      show _ = r.toLayout.passOn step (r.toLayout.heldAfter own step) _ segment
      have hadds : ∀ held received : M, r.combine held received = held + received := by
        intro held received
        rw [combine, if_neg (by simp [hgathers])]
      rw [hplaced.passOn_target _ step segment hsender, if_pos hscatter, hadds, ite_not]

theorem heldAfter_reduces (hinit : initialized gathers numGpus dataSize next prev = .ok r)
    (hembedding : RingEmbedding numGpus.toNat next prev) (hgathers : r.gathers = false)
    (own : Nat → Nat → M) (hgpu : gpu < r.numGpus) :
    r.heldAfter own (r.numGpus - 1) gpu ((r.ringPos gpu + 1) % r.numGpus) =
      r.reduced own ((r.ringPos gpu + 1) % r.numGpus) := by
  have h := placed_of_initialized hinit hembedding
  have hplaced := RingLayout.placed_of_initialized (initialized_toLayout hinit) hembedding
  have : NeZero r.toLayout.numGpus := ⟨h.pos.ne'⟩
  obtain ⟨rankAt, hrankAt⟩ := hplaced.exists_rankAt
  have hsegment : (r.ringPos gpu + 1) % r.numGpus < r.numGpus := Nat.mod_lt _ h.pos
  have hcast : (((r.ringPos gpu + 1) % r.numGpus : Nat) : ZMod r.toLayout.numGpus) =
      r.toLayout.place gpu + 1 := by
    show (((r.ringPos gpu + 1) % r.numGpus : Nat) : ZMod r.numGpus) = _
    rw [ZMod.natCast_mod, Nat.cast_succ]
    rfl
  rw [heldAfter_toLayout h hplaced hgathers own le_rfl hgpu]
  refine (hplaced.heldAfter_up hrankAt le_rfl hgpu hsegment).trans ?_
  rw [hcast]
  refine (RingReduce.scattered_total _ _).trans ?_
  rw [← hcast]
  exact hplaced.total_byPlace hrankAt hsegment

/-! ## Sizes -/

theorem segmentBytes_eq (h : initialized gathers numGpus dataSize next prev = .ok r)
    (hdata : numGpus.toNat ≤ dataSize.toNat) (segment : Nat) :
    r.segmentBytes segment = portion r.dataSize r.numGpus segment := by
  unfold initialized at h
  dsimp only at h
  split at h
  · cases h
  · rename_i hsome
    cases h
    have hpos : 0 < numGpus.toNat := Nat.pos_of_ne_zero fun hzero => hsome (UInt16.toNat_inj.mp hzero)
    have hlarge : ¬ dataSize.toNat / numGpus.toNat = 0 := (Nat.div_pos hdata hpos).ne'
    simp only [segmentBytes, if_neg hlarge]
    rfl

theorem sum_segmentBytes (h : initialized gathers numGpus dataSize next prev = .ok r)
    (hpos : 0 < r.numGpus) (hdata : numGpus.toNat ≤ dataSize.toNat) :
    ∑ segment ∈ Finset.range r.numGpus, r.segmentBytes segment = r.dataSize := by
  rw [Finset.sum_congr rfl fun segment _ => segmentBytes_eq h hdata segment]
  exact sum_portion hpos _

theorem initialized_fields (h : initialized gathers numGpus dataSize next prev = .ok r) :
    r.gathers = gathers ∧ r.numGpus = numGpus.toNat ∧ r.dataSize = dataSize.toNat ∧
      r.ringNext = next ∧ r.ringPrev = prev ∧
      r.ringPos = RingLayout.computeRingPositions next numGpus.toNat := by
  unfold initialized at h
  dsimp only at h
  split at h
  · cases h
  · cases h
    exact ⟨rfl, rfl, rfl, rfl, rfl, rfl⟩

theorem segmentBytes_bounds (h : initialized gathers numGpus dataSize next prev = .ok r)
    (hpos : 0 < r.numGpus) (hdata : numGpus.toNat ≤ dataSize.toNat) (segment : Nat) :
    0 < r.segmentBytes segment ∧ r.segmentBytes segment < 2 ^ 64 := by
  obtain ⟨-, hn, hd, -⟩ := initialized_fields h
  rw [segmentBytes_eq h hdata segment, hd]
  constructor
  · have hquot : 0 < dataSize.toNat / r.numGpus := Nat.div_pos (hn ▸ hdata) hpos
    unfold portion
    omega
  · exact lt_of_le_of_lt (portion_le _ _ _) dataSize.toNat_lt

end RingPass

end ProtoBridge.Collective
