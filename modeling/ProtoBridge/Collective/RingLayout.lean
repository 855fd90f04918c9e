import ProtoBridge.Lib.Grid
import ProtoBridge.Lib.RingReduce

/-!
# Layout of the ring

`RingAllReduce` goes up the ring that is embedded in the topology to reduce and
scatter, and down it to gather. What a rank sends at a step is a segment chosen by
its place on the ring. Read as a reduction of the data of the ranks, these choices
leave every rank with the sum of every segment.
-/

namespace ProtoBridge.Collective

open Lib

/-- What `Initialize` fixes. -/
structure RingLayout where
  numGpus : Nat
  dataSize : Nat
  segmentSize : Nat
  segmentRemainder : Nat
  reduceScatterSteps : Nat
  totalSteps : Nat
  ringNext : Nat → Nat
  ringPrev : Nat → Nat
  ringPos : Nat → Nat

/-- The abort of `Initialize`. -/
inductive RingAbort
  | noGpu
  deriving DecidableEq

namespace RingLayout

/-- The neighbor of an endpoint that is on no ring. -/
def noNeighbor : Nat := 65535

/-- The walk of `ComputeRingPositions`, from a rank and its place; nothing where it is not one cycle
through all ranks. -/
def walk (next : Nat → Nat) (n : Nat) : Nat → Nat → Nat → (Nat → Bool) → (Nat → Nat) → Option (Nat → Nat)
  | 0, _, _, _, _ => none
  | fuel + 1, cur, pos, seen, table =>
      if cur ≥ n ∨ seen cur = true then none
      else
        let seen := Function.update seen cur true
        let table := Function.update table cur pos
        if next cur ≥ n then none
        else if next cur ≠ 0 ∧ pos + 1 < n then walk next n fuel (next cur) (pos + 1) seen table
        else if pos + 1 ≠ n then none
        else some table

/-- `ComputeRingPositions`. -/
def computeRingPositions (next : Nat → Nat) (n : Nat) : Nat → Nat :=
  (walk next n n 0 0 (fun _ => false) fun _ => 0).getD id

/-- `Initialize`, with the neighbors that the endpoints are given. -/
def initialized (numGpus : UInt16) (dataSize : UInt64) (ringNext ringPrev : Nat → Nat) :
    Except RingAbort RingLayout :=
  let n := numGpus.toNat
  if numGpus = 0 then .error .noGpu
  else
    let small := dataSize.toNat / n = 0
    .ok
      { numGpus := n
        dataSize := dataSize.toNat
        segmentSize := if small then dataSize.toNat else dataSize.toNat / n
        segmentRemainder := if small then 0 else dataSize.toNat % n
        reduceScatterSteps := n - 1
        totalSteps := 2 * (n - 1)
        ringNext
        ringPrev
        ringPos := computeRingPositions ringNext n }

/-- `GetSendTarget`. -/
def getSendTarget (r : RingLayout) (gpu step : Nat) : Nat :=
  if step < r.reduceScatterSteps then
    if r.ringNext gpu ≠ noNeighbor then r.ringNext gpu else (gpu + 1) % r.numGpus
  else if r.ringPrev gpu ≠ noNeighbor then r.ringPrev gpu
  else (gpu + r.numGpus - 1) % r.numGpus

/-- The segment that `SegmentSizeOf` takes the size of. -/
def segmentOf (r : RingLayout) (gpu step : Nat) : Nat :=
  if step < r.numGpus - 1 then (r.ringPos gpu + r.numGpus - step % r.numGpus) % r.numGpus
  else (r.ringPos gpu + step + 2) % r.numGpus

/-- The size of a segment. -/
def segmentBytes (r : RingLayout) (segment : Nat) : Nat :=
  r.segmentSize + if segment < r.segmentRemainder then 1 else 0

/-- `SegmentSizeOf`. -/
def segmentSizeOf (r : RingLayout) (gpu step : Nat) : Nat := r.segmentBytes (r.segmentOf gpu step)

/-- The rank that sends to a rank at a step, as `StepExpectedBytes` looks for it. -/
def senderTo (r : RingLayout) (destRank step : Nat) : Option Nat :=
  (List.range r.numGpus).find? fun gpu => r.getSendTarget gpu step = destRank

/-- `StepExpectedBytes`. -/
def stepExpectedBytes (r : RingLayout) (destRank step : Nat) : Nat :=
  match r.senderTo destRank step with
  | some gpu => r.segmentSizeOf gpu step
  | none => r.segmentSize

/-! ## Data -/

variable {M : Type*} [AddCommMonoid M]

/-- What a step makes of the data of the ranks: a rank adds the segment it receives to its own copy
while it goes up the ring, and takes it over while it goes down. -/
def passOn (r : RingLayout) (step : Nat) (held : Nat → Nat → M) : Nat → Nat → M := fun rank segment =>
  match r.senderTo rank step with
  | some gpu =>
      if r.segmentOf gpu step ≠ segment then held rank segment
      else if step < r.reduceScatterSteps then held rank segment + held gpu segment
      else held gpu segment
  | none => held rank segment

/-- What the ranks hold behind the first steps. -/
def heldAfter (r : RingLayout) (own : Nat → Nat → M) : Nat → Nat → Nat → M
  | 0 => own
  | step + 1 => r.passOn step (r.heldAfter own step)

/-- The sum of the copies of a segment. -/
def reduced (r : RingLayout) (own : Nat → Nat → M) (segment : Nat) : M :=
  ∑ rank ∈ Finset.range r.numGpus, own rank segment

end RingLayout

/-- The neighbors are those on one cycle through all ranks, or there are none. -/
def RingEmbedding (n : Nat) (next prev : Nat → Nat) : Prop :=
  (OneCycle n next ∧ ∀ rank < n, prev (next rank) = rank) ∨
    ∀ rank < n, next rank = RingLayout.noNeighbor ∧ prev rank = RingLayout.noNeighbor

/-- The collective is an AllReduce of the data. -/
structure ReducesFully {M : Type*} [AddCommMonoid M] (r : RingLayout) (own : Nat → Nat → M) :
    Prop where
  permutes : ∀ step, Set.BijOn (fun gpu => r.getSendTarget gpu step) (Set.Iio r.numGpus)
    (Set.Iio r.numGpus)
  forwards : ∀ step, ∀ gpu < r.numGpus,
    r.segmentOf (r.getSendTarget gpu step) (step + 1) = r.segmentOf gpu step
  scatters : ∀ gpu < r.numGpus, r.heldAfter own (r.numGpus - 1) gpu ((r.ringPos gpu + 1) % r.numGpus) =
    r.reduced own ((r.ringPos gpu + 1) % r.numGpus)
  gathers : ∀ gpu < r.numGpus, ∀ segment < r.numGpus,
    r.heldAfter own r.totalSteps gpu segment = r.reduced own segment
  sizes : ∑ segment ∈ Finset.range r.numGpus, r.segmentBytes segment = r.dataSize
  expects : ∀ step, ∀ gpu < r.numGpus,
    r.stepExpectedBytes (r.getSendTarget gpu step) step = r.segmentSizeOf gpu step
  sends : ∑ step ∈ Finset.range r.totalSteps, ∑ gpu ∈ Finset.range r.numGpus, r.segmentSizeOf gpu step =
    2 * (r.numGpus - 1) * r.dataSize

namespace RingLayout

/-! ## Positions -/

section Positions

variable {n : Nat} {next : Nat → Nat}

theorem walk_eq (h : OneCycle n next) (hpos : 0 < n) (fuel k : Nat) (seen : Nat → Bool)
    (table : Nat → Nat) (hfuel : fuel + k = n) (hk : k < n)
    (hseen : ∀ i < n, seen (next^[i] 0) = true → i < k) (htable : ∀ i < k, table (next^[i] 0) = i) :
    ∃ table', walk next n fuel (next^[k] 0) k seen table = some table' ∧
      ∀ i < n, table' (next^[i] 0) = i := by
  induction fuel generalizing k seen table with
  | zero => omega
  | succ fuel ih =>
      have hcur : next^[k] 0 < n := h.iterate_lt hpos k
      have hnew : ¬ (next^[k] 0 ≥ n ∨ seen (next^[k] 0) = true) := by
        rintro (hout | hold)
        · omega
        · exact absurd (hseen k hk hold) (lt_irrefl k)
      have hnoted := h.note hpos hk htable
      unfold walk
      rw [if_neg hnew]
      dsimp only
      rw [if_neg (not_le.mpr (h.lt _ hcur)), ← Function.iterate_succ_apply' next]
      by_cases hlast : k + 1 = n
      · -- back at the start
        have hreturn : next^[k + 1] 0 = 0 := by
          rw [hlast]
          exact h.iterate_self hpos
        rw [if_neg (fun hgo => hgo.1 hreturn), if_neg (not_not.mpr hlast)]
        exact ⟨_, rfl, fun i hi => hnoted i (by omega)⟩
      · rw [if_pos ⟨h.iterate_ne hpos (by omega), by omega⟩]
        refine ih (k + 1) _ _ (by omega) (by omega) ?_ hnoted
        intro i hi hset
        by_cases hik : i = k
        · omega
        · rw [Function.update_of_ne fun heq => hik (h.iterate_injective hpos hi hk heq)] at hset
          exact Nat.lt_succ_of_lt (hseen i hi hset)

theorem computeRingPositions_iterate (h : OneCycle n next) {k : Nat} (hk : k < n) :
    computeRingPositions next n (next^[k] 0) = k := by
  obtain ⟨table, hwalk, htable⟩ := walk_eq h (by omega) n 0 (fun _ => false) (fun _ => 0) rfl
    (by omega) (fun _ _ hset => nomatch hset) fun i hi => absurd hi (Nat.not_lt_zero i)
  have hstart : walk next n n 0 0 (fun _ => false) (fun _ => 0) = some table := hwalk
  rw [computeRingPositions, hstart]
  exact htable k hk

theorem computeRingPositions_none (hpos : 0 < n) (hmax : n ≤ noNeighbor)
    (hnone : ∀ rank < n, next rank = noNeighbor) (rank : Nat) :
    computeRingPositions next n rank = rank := by
  obtain ⟨fuel, rfl⟩ : ∃ fuel, n = fuel + 1 := ⟨n - 1, by omega⟩
  have hwalk : walk next (fuel + 1) (fuel + 1) 0 0 (fun _ => false) (fun _ => 0) = none := by
    unfold walk
    rw [if_neg (by simp)]
    dsimp only
    rw [hnone 0 hpos, if_pos hmax]
  rw [computeRingPositions, hwalk]
  rfl

end Positions

/-! ## Places -/

/-- The place of a rank on the ring. -/
def place (r : RingLayout) (gpu : Nat) : ZMod r.numGpus := (r.ringPos gpu : ZMod r.numGpus)

/-- The places are numbered up the ring, and the targets follow them. -/
structure Placed (r : RingLayout) : Prop where
  pos : 0 < r.numGpus
  steps : r.reduceScatterSteps = r.numGpus - 1 ∧ r.totalSteps = 2 * (r.numGpus - 1)
  lt : ∀ gpu < r.numGpus, r.ringPos gpu < r.numGpus
  injective : ∀ gpu < r.numGpus, ∀ gpu' < r.numGpus, r.ringPos gpu = r.ringPos gpu' → gpu = gpu'
  target : ∀ step, ∀ gpu < r.numGpus, r.getSendTarget gpu step < r.numGpus
  up : ∀ step < r.numGpus - 1, ∀ gpu < r.numGpus, r.place (r.getSendTarget gpu step) = r.place gpu + 1
  down : ∀ step, r.numGpus - 1 ≤ step → ∀ gpu < r.numGpus,
    r.place (r.getSendTarget gpu step) = r.place gpu - 1

section Cycle

variable {n : Nat} {next prev : Nat → Nat}

theorem place_next (h : OneCycle n next) {gpu : Nat} (hgpu : gpu < n) :
    (computeRingPositions next n (next gpu) : ZMod n) = computeRingPositions next n gpu + 1 := by
  have hpos : 0 < n := by omega
  obtain ⟨k, hk, rfl⟩ := h.exists_iterate hpos gpu hgpu
  rw [← Function.iterate_succ_apply' next, Nat.succ_eq_add_one, computeRingPositions_iterate h hk]
  by_cases hlast : k + 1 = n
  · rw [hlast, h.iterate_self hpos, ← Nat.cast_succ, Nat.succ_eq_add_one, hlast, ZMod.natCast_self]
    have hstart : computeRingPositions next n 0 = 0 := computeRingPositions_iterate (k := 0) h hpos
    rw [hstart, Nat.cast_zero]
  · rw [computeRingPositions_iterate h (by omega), Nat.cast_succ]

theorem ringPos_lt (h : OneCycle n next) : ∀ gpu < n, computeRingPositions next n gpu < n := by
  intro gpu hgpu
  have hpos : 0 < n := by omega
  obtain ⟨k, hk, rfl⟩ := h.exists_iterate hpos gpu hgpu
  rw [computeRingPositions_iterate h hk]
  exact hk

theorem ringPos_injective (h : OneCycle n next) : ∀ gpu < n, ∀ gpu' < n,
    computeRingPositions next n gpu = computeRingPositions next n gpu' → gpu = gpu' := by
  intro gpu hgpu gpu' hgpu' heq
  have hpos : 0 < n := by omega
  obtain ⟨k, hk, rfl⟩ := h.exists_iterate hpos gpu hgpu
  obtain ⟨k', hk', rfl⟩ := h.exists_iterate hpos gpu' hgpu'
  rw [computeRingPositions_iterate h hk, computeRingPositions_iterate h hk'] at heq
  rw [heq]

theorem exists_next (h : OneCycle n next) (hprev : ∀ rank < n, prev (next rank) = rank) {gpu : Nat}
    (hgpu : gpu < n) : ∃ rank < n, next rank = gpu ∧ prev gpu = rank := by
  obtain ⟨rank, hrank, rfl⟩ := exists_of_injective h.lt h.injective gpu hgpu
  exact ⟨rank, hrank, rfl, hprev rank hrank⟩

end Cycle

/-- The ranks next to a rank, up and down the ring, have the places next to its own. -/
structure Neighbors (n : Nat) (pos up down : Nat → Nat) : Prop where
  lt : ∀ gpu < n, pos gpu < n
  injective : ∀ gpu < n, ∀ gpu' < n, pos gpu = pos gpu' → gpu = gpu'
  up_lt : ∀ gpu < n, up gpu < n
  down_lt : ∀ gpu < n, down gpu < n
  up_place : ∀ gpu < n, (pos (up gpu) : ZMod n) = pos gpu + 1
  down_place : ∀ gpu < n, (pos (down gpu) : ZMod n) = pos gpu - 1

theorem neighbors_of_embedding {n : Nat} {next prev : Nat → Nat} (hpos : 0 < n) (hmax : n ≤ noNeighbor)
    (h : RingEmbedding n next prev) : Neighbors n (computeRingPositions next n)
      (fun gpu => if next gpu ≠ noNeighbor then next gpu else (gpu + 1) % n)
      (fun gpu => if prev gpu ≠ noNeighbor then prev gpu else (gpu + n - 1) % n) := by
  rcases h with ⟨hcycle, hprev⟩ | hnone
  · have hup : ∀ gpu < n, (if next gpu ≠ noNeighbor then next gpu else (gpu + 1) % n) = next gpu := by
      intro gpu hgpu
      exact if_pos ((hcycle.lt gpu hgpu).trans_le hmax).ne
    have hdown : ∀ gpu < n, ∃ rank < n, next rank = gpu ∧
        (if prev gpu ≠ noNeighbor then prev gpu else (gpu + n - 1) % n) = rank := by
      intro gpu hgpu
      obtain ⟨rank, hrank, hnext, rfl⟩ := exists_next hcycle hprev hgpu
      exact ⟨prev gpu, hrank, hnext, if_pos (hrank.trans_le hmax).ne⟩
    refine ⟨ringPos_lt hcycle, ringPos_injective hcycle, ?_, ?_, ?_, ?_⟩
    · intro gpu hgpu
      rw [hup gpu hgpu]
      exact hcycle.lt gpu hgpu
    · intro gpu hgpu
      obtain ⟨rank, hrank, -, heq⟩ := hdown gpu hgpu
      rw [heq]
      exact hrank
    · intro gpu hgpu
      rw [hup gpu hgpu]
      exact place_next hcycle hgpu
    · intro gpu hgpu
      obtain ⟨rank, hrank, rfl, heq⟩ := hdown gpu hgpu
      rw [heq, place_next hcycle hrank, add_sub_cancel_right]
  · have hplace := computeRingPositions_none hpos hmax fun rank hrank => (hnone rank hrank).1
    refine ⟨fun gpu hgpu => by rwa [hplace], fun gpu _ gpu' _ heq => by rwa [hplace, hplace] at heq,
      fun gpu hgpu => ?_, fun gpu hgpu => ?_, fun gpu hgpu => ?_, fun gpu hgpu => ?_⟩
    · rw [if_neg (not_not.mpr (hnone gpu hgpu).1)]
      exact Nat.mod_lt _ hpos
    · rw [if_neg (not_not.mpr (hnone gpu hgpu).2)]
      exact Nat.mod_lt _ hpos
    · rw [if_neg (not_not.mpr (hnone gpu hgpu).1), hplace, hplace, ZMod.natCast_mod, Nat.cast_succ]
    · rw [if_neg (not_not.mpr (hnone gpu hgpu).2), hplace, hplace, ZMod.natCast_mod,
        Nat.cast_sub (by omega), Nat.cast_add, ZMod.natCast_self, Nat.cast_one]
      ring

variable {numGpus : UInt16} {dataSize : UInt64} {next prev : Nat → Nat} {r : RingLayout}

theorem placed_of_initialized (h : initialized numGpus dataSize next prev = .ok r)
    (hembedding : RingEmbedding numGpus.toNat next prev) : r.Placed := by
  unfold initialized at h
  dsimp only at h
  split at h
  · cases h
  · rename_i hsome
    cases h
    have hmax : numGpus.toNat ≤ noNeighbor := Nat.le_of_lt_succ numGpus.toNat_lt
    have hpos : 0 < numGpus.toNat := Nat.pos_of_ne_zero fun hzero => hsome (UInt16.toNat_inj.mp hzero)
    have hnear := neighbors_of_embedding hpos hmax hembedding
    refine ⟨hpos, ⟨rfl, rfl⟩, hnear.lt, hnear.injective, ?_, ?_, ?_⟩
    · intro step gpu hgpu
      by_cases hstep : step < numGpus.toNat - 1
      · rw [getSendTarget, if_pos hstep]
        exact hnear.up_lt gpu hgpu
      · rw [getSendTarget, if_neg hstep]
        exact hnear.down_lt gpu hgpu
    · intro step hstep gpu hgpu
      rw [getSendTarget, if_pos hstep]
      exact hnear.up_place gpu hgpu
    · intro step hstep gpu hgpu
      rw [getSendTarget, if_neg (not_lt.mpr hstep)]
      exact hnear.down_place gpu hgpu

/-! ## Segments -/

namespace Placed

variable {gpu gpu' step : Nat}

theorem place_injective (h : r.Placed) (hgpu : gpu < r.numGpus) (hgpu' : gpu' < r.numGpus)
    (heq : r.place gpu = r.place gpu') : gpu = gpu' :=
  h.injective gpu hgpu gpu' hgpu'
    (RingReduce.natCast_injective (h.lt gpu hgpu) (h.lt gpu' hgpu') heq)

theorem target_injective (h : r.Placed) (step : Nat) (hgpu : gpu < r.numGpus)
    (hgpu' : gpu' < r.numGpus) (heq : r.getSendTarget gpu step = r.getSendTarget gpu' step) :
    gpu = gpu' := by
  have hplace := congrArg r.place heq
  by_cases hstep : step < r.numGpus - 1
  · rw [h.up step hstep gpu hgpu, h.up step hstep gpu' hgpu'] at hplace
    exact h.place_injective hgpu hgpu' (add_right_cancel hplace)
  · rw [h.down step (not_lt.mp hstep) gpu hgpu, h.down step (not_lt.mp hstep) gpu' hgpu'] at hplace
    exact h.place_injective hgpu hgpu' (sub_left_injective hplace)

theorem target_bijOn (h : r.Placed) (step : Nat) :
    Set.BijOn (fun gpu => r.getSendTarget gpu step) (Set.Iio r.numGpus) (Set.Iio r.numGpus) := by
  refine ⟨h.target step, fun gpu hgpu gpu' hgpu' => h.target_injective step hgpu hgpu', ?_⟩
  intro rank hrank
  obtain ⟨gpu, hgpu, heq⟩ := exists_of_injective (h.target step)
    (fun a ha b hb => h.target_injective step ha hb) rank hrank
  exact ⟨gpu, hgpu, heq⟩

theorem segmentOf_lt (h : r.Placed) (gpu step : Nat) : r.segmentOf gpu step < r.numGpus := by
  unfold segmentOf
  split <;> exact Nat.mod_lt _ h.pos

theorem segmentOf_up (hstep : step < r.numGpus - 1) :
    (r.segmentOf gpu step : ZMod r.numGpus) = r.place gpu - step := by
  unfold segmentOf
  have hmod : step % r.numGpus = step := Nat.mod_eq_of_lt (by omega)
  rw [if_pos hstep, hmod, ZMod.natCast_mod, Nat.cast_sub (by omega), Nat.cast_add, ZMod.natCast_self,
    place]
  ring

theorem segmentOf_down (hstep : r.numGpus - 1 ≤ step) :
    (r.segmentOf gpu step : ZMod r.numGpus) = r.place gpu + step + 2 := by
  unfold segmentOf
  rw [if_neg (not_lt.mpr hstep), ZMod.natCast_mod, place]
  push_cast
  ring

theorem cast_last (h : r.Placed) (hstep : step + 1 = r.numGpus - 1) :
    (step : ZMod r.numGpus) = -2 := by
  have hpos := h.pos
  have htotal : ((step + 2 : Nat) : ZMod r.numGpus) = 0 := by
    rw [show step + 2 = r.numGpus by omega, ZMod.natCast_self]
  push_cast at htotal
  exact eq_neg_of_add_eq_zero_left htotal

theorem segmentOf_target (h : r.Placed) (step : Nat) (hgpu : gpu < r.numGpus) :
    r.segmentOf (r.getSendTarget gpu step) (step + 1) = r.segmentOf gpu step := by
  refine RingReduce.natCast_injective (h.segmentOf_lt _ _) (h.segmentOf_lt _ _) ?_
  by_cases hup : step < r.numGpus - 1
  · rw [segmentOf_up hup]
    by_cases hstill : step + 1 < r.numGpus - 1
    · rw [segmentOf_up hstill, h.up step hup gpu hgpu]
      push_cast
      ring
    · -- here the ring turns around
      rw [segmentOf_down (not_lt.mp hstill), h.up step hup gpu hgpu]
      push_cast
      rw [h.cast_last (by omega)]
      ring
  · rw [segmentOf_down (not_lt.mp hup), segmentOf_down (by omega), h.down step (not_lt.mp hup) gpu hgpu]
    push_cast
    ring

theorem segmentOf_injective (h : r.Placed) (step : Nat) (hgpu : gpu < r.numGpus)
    (hgpu' : gpu' < r.numGpus) (heq : r.segmentOf gpu step = r.segmentOf gpu' step) : gpu = gpu' := by
  have hcast : (r.segmentOf gpu step : ZMod r.numGpus) = r.segmentOf gpu' step := congrArg _ heq
  by_cases hup : step < r.numGpus - 1
  · rw [segmentOf_up hup, segmentOf_up hup] at hcast
    exact h.place_injective hgpu hgpu' (sub_left_injective hcast)
  · rw [segmentOf_down (not_lt.mp hup), segmentOf_down (not_lt.mp hup)] at hcast
    exact h.place_injective hgpu hgpu' (add_right_cancel (add_right_cancel hcast))

theorem senderTo_target (h : r.Placed) (step : Nat) (hgpu : gpu < r.numGpus) :
    r.senderTo (r.getSendTarget gpu step) step = some gpu := by
  exact find?_range_of_injective (fun _ ha _ hb => h.target_injective step ha hb) hgpu

theorem stepExpectedBytes_target (h : r.Placed) (step : Nat) (hgpu : gpu < r.numGpus) :
    r.stepExpectedBytes (r.getSendTarget gpu step) step = r.segmentSizeOf gpu step := by
  rw [stepExpectedBytes, h.senderTo_target step hgpu]

theorem sum_segmentSizeOf (h : r.Placed) (step : Nat) :
    ∑ gpu ∈ Finset.range r.numGpus, r.segmentSizeOf gpu step =
      ∑ segment ∈ Finset.range r.numGpus, r.segmentBytes segment := by
  exact sum_reordered (fun gpu _ => h.segmentOf_lt gpu step)
    (fun _ ha _ hb => h.segmentOf_injective step ha hb) r.segmentBytes

/-! ## Data -/

variable {M : Type*} [AddCommMonoid M] {own : Nat → Nat → M} {rankAt : ZMod r.numGpus → Nat}

theorem exists_rankAt (h : r.Placed) :
    ∃ rankAt : ZMod r.numGpus → Nat, ∀ x, rankAt x < r.numGpus ∧ r.place (rankAt x) = x := by
  have hall : ∀ x : ZMod r.numGpus, ∃ gpu, gpu < r.numGpus ∧ r.place gpu = x := by
    intro x
    have : NeZero r.numGpus := ⟨h.pos.ne'⟩
    obtain ⟨gpu, hgpu, heq⟩ := exists_of_injective h.lt h.injective x.val (ZMod.val_lt x)
    refine ⟨gpu, hgpu, ?_⟩
    rw [place, heq, ZMod.natCast_val, ZMod.cast_id]
  choose rankAt hrankAt using hall
  exact ⟨rankAt, hrankAt⟩

/-- The data of the ranks, by their places. -/
def byPlace (rankAt : ZMod r.numGpus → Nat) (own : Nat → Nat → M) :
    ZMod r.numGpus → ZMod r.numGpus → M :=
  fun p q => own (rankAt p) q.val

omit [AddCommMonoid M] in
theorem byPlace_place (h : r.Placed) (hrankAt : ∀ x, rankAt x < r.numGpus ∧ r.place (rankAt x) = x)
    (hgpu : gpu < r.numGpus) {segment : Nat} (hsegment : segment < r.numGpus) :
    byPlace rankAt own (r.place gpu) segment = own gpu segment := by
  obtain ⟨hlt, hplace⟩ := hrankAt (r.place gpu)
  rw [byPlace, h.place_injective hlt hgpu hplace, ZMod.val_natCast, Nat.mod_eq_of_lt hsegment]

theorem total_byPlace [NeZero r.numGpus] (h : r.Placed)
    (hrankAt : ∀ x, rankAt x < r.numGpus ∧ r.place (rankAt x) = x) {segment : Nat}
    (hsegment : segment < r.numGpus) :
    RingReduce.total (byPlace rankAt own) (segment : ZMod r.numGpus) = r.reduced own segment := by
  refine (Finset.sum_nbij' r.place rankAt ?_ ?_ ?_ ?_ ?_).symm
  · intro gpu _
    exact Finset.mem_univ _
  · intro x _
    exact Finset.mem_range.mpr (hrankAt x).1
  · intro gpu hgpu
    exact h.place_injective (hrankAt _).1 (Finset.mem_range.mp hgpu) (hrankAt _).2
  · intro x _
    exact (hrankAt x).2
  · intro gpu hgpu
    exact (byPlace_place h hrankAt (Finset.mem_range.mp hgpu) hsegment).symm

theorem passOn_target (h : r.Placed) (held : Nat → Nat → M) (step segment : Nat)
    (hgpu : gpu < r.numGpus) :
    r.passOn step held (r.getSendTarget gpu step) segment =
      if r.segmentOf gpu step ≠ segment then held (r.getSendTarget gpu step) segment
      else if step < r.reduceScatterSteps then
        held (r.getSendTarget gpu step) segment + held gpu segment
      else held gpu segment := by
  rw [passOn, h.senderTo_target step hgpu]

theorem heldAfter_up (h : r.Placed) (hrankAt : ∀ x, rankAt x < r.numGpus ∧ r.place (rankAt x) = x)
    {s : Nat} (hs : s ≤ r.numGpus - 1) (hgpu : gpu < r.numGpus) {segment : Nat}
    (hsegment : segment < r.numGpus) :
    r.heldAfter own s gpu segment =
      RingReduce.scattered (byPlace rankAt own) s (r.place gpu) (segment : ZMod r.numGpus) := by
  induction s generalizing gpu segment with
  | zero => exact (byPlace_place h hrankAt hgpu hsegment).symm
  | succ s ih =>
      have hup : s < r.numGpus - 1 := hs
      obtain ⟨sender, hsender, rfl⟩ := (h.target_bijOn s).surjOn hgpu
      have hplace := h.up s hup sender hsender
      have hsends : r.segmentOf sender s = segment ↔
          (segment : ZMod r.numGpus) = r.place (r.getSendTarget sender s) - 1 - s := by
        rw [hplace, add_sub_cancel_right, ← segmentOf_up hup]
        exact ⟨fun heq => congrArg _ heq.symm, fun heq =>
          (RingReduce.natCast_injective hsegment (h.segmentOf_lt _ _) heq).symm⟩
      show r.passOn s (r.heldAfter own s) (r.getSendTarget sender s) segment =
        RingReduce.scatterRound s _ _ _
      rw [h.passOn_target _ s segment hsender, RingReduce.scatterRound, h.steps.1, if_pos hup,
        ih (by omega) hgpu hsegment, ih (by omega) hsender hsegment]
      by_cases hcomes : r.segmentOf sender s = segment
      · rw [if_neg (not_not.mpr hcomes), if_pos (hsends.mp hcomes), hplace, add_sub_cancel_right]
      · rw [if_pos hcomes, if_neg fun heq => hcomes (hsends.mpr heq)]

theorem heldAfter_down (h : r.Placed) (hrankAt : ∀ x, rankAt x < r.numGpus ∧ r.place (rankAt x) = x)
    (t : Nat) (hgpu : gpu < r.numGpus) {segment : Nat} (hsegment : segment < r.numGpus) :
    r.heldAfter own (r.numGpus - 1 + t) gpu segment =
      RingReduce.gathered (RingReduce.scattered (byPlace rankAt own) (r.numGpus - 1)) t (r.place gpu)
        (segment : ZMod r.numGpus) := by
  induction t generalizing gpu segment with
  | zero => exact h.heldAfter_up hrankAt le_rfl hgpu hsegment
  | succ t ih =>
      have hpos := h.pos
      have hdown : r.numGpus - 1 ≤ r.numGpus - 1 + t := Nat.le_add_right _ _
      obtain ⟨sender, hsender, rfl⟩ := (h.target_bijOn (r.numGpus - 1 + t)).surjOn hgpu
      have hplace := h.down _ hdown sender hsender
      have hstep : ((r.numGpus - 1 + t : Nat) : ZMod r.numGpus) = t - 1 := by
        rw [Nat.cast_add, Nat.cast_sub hpos, ZMod.natCast_self, Nat.cast_one]
        ring
      have hsends : r.segmentOf sender (r.numGpus - 1 + t) = segment ↔ (segment : ZMod r.numGpus) =
          r.place (r.getSendTarget sender (r.numGpus - 1 + t)) + 1 + (1 + t) := by
        have hsegmentOf : (r.segmentOf sender (r.numGpus - 1 + t) : ZMod r.numGpus) =
            r.place (r.getSendTarget sender (r.numGpus - 1 + t)) + 1 + (1 + t) := by
          rw [segmentOf_down hdown, hplace, hstep]
          ring
        rw [← hsegmentOf]
        exact ⟨fun heq => congrArg _ heq.symm, fun heq =>
          (RingReduce.natCast_injective hsegment (h.segmentOf_lt _ _) heq).symm⟩
      show r.passOn (r.numGpus - 1 + t) (r.heldAfter own (r.numGpus - 1 + t))
        (r.getSendTarget sender (r.numGpus - 1 + t)) segment = RingReduce.gatherRound t _ _ _
      rw [h.passOn_target _ _ segment hsender, RingReduce.gatherRound, h.steps.1,
        if_neg (not_lt.mpr hdown), ih hgpu hsegment, ih hsender hsegment]
      by_cases hcomes : r.segmentOf sender (r.numGpus - 1 + t) = segment
      · rw [if_neg (not_not.mpr hcomes), if_pos (hsends.mp hcomes), hplace, sub_add_cancel]
      · rw [if_pos hcomes, if_neg fun heq => hcomes (hsends.mpr heq)]

end Placed

end RingLayout

open RingLayout in
theorem RingLayout.sum_segmentBytes {numGpus : UInt16} {dataSize : UInt64} {next prev : Nat → Nat}
    {r : RingLayout} (h : initialized numGpus dataSize next prev = .ok r)
    (hdata : numGpus.toNat ≤ dataSize.toNat) :
    ∑ segment ∈ Finset.range r.numGpus, r.segmentBytes segment = r.dataSize := by
  unfold initialized at h
  dsimp only at h
  split at h
  · cases h
  · rename_i hsome
    cases h
    have hpos : 0 < numGpus.toNat := Nat.pos_of_ne_zero fun hzero => hsome (UInt16.toNat_inj.mp hzero)
    have hlarge : ¬ dataSize.toNat / numGpus.toNat = 0 := (Nat.div_pos hdata hpos).ne'
    simp only [segmentBytes, if_neg hlarge]
    exact sum_portion hpos _

/-- The ring reduces fully, whatever the ring and the data. -/
theorem ringAllReduce_reducesFully {numGpus : UInt16} {dataSize : UInt64} {next prev : Nat → Nat}
    {r : RingLayout} {M : Type*} [AddCommMonoid M] (own : Nat → Nat → M)
    (hdata : numGpus.toNat ≤ dataSize.toNat) (hembedding : RingEmbedding numGpus.toNat next prev)
    (h : RingLayout.initialized numGpus dataSize next prev = .ok r) : ReducesFully r own := by
  have hplaced := RingLayout.placed_of_initialized h hembedding
  have hsizes := RingLayout.sum_segmentBytes h hdata
  have : NeZero r.numGpus := ⟨hplaced.pos.ne'⟩
  obtain ⟨rankAt, hrankAt⟩ := hplaced.exists_rankAt
  refine ⟨hplaced.target_bijOn, fun step gpu hgpu => hplaced.segmentOf_target step hgpu, ?_, ?_, hsizes,
    fun step gpu hgpu => hplaced.stepExpectedBytes_target step hgpu, ?_⟩
  · intro gpu hgpu
    have hsegment : (r.ringPos gpu + 1) % r.numGpus < r.numGpus := Nat.mod_lt _ hplaced.pos
    have hcast : (((r.ringPos gpu + 1) % r.numGpus : Nat) : ZMod r.numGpus) = r.place gpu + 1 := by
      rw [ZMod.natCast_mod, Nat.cast_succ]
      rfl
    rw [hplaced.heldAfter_up hrankAt le_rfl hgpu hsegment, ← hplaced.total_byPlace hrankAt hsegment, hcast]
    exact RingReduce.scattered_total _ _
  · intro gpu hgpu segment hsegment
    rw [hplaced.steps.2, two_mul, hplaced.heldAfter_down hrankAt _ hgpu hsegment,
      ← hplaced.total_byPlace hrankAt hsegment]
    exact RingReduce.gathered_total _ _ _
  · calc ∑ step ∈ Finset.range r.totalSteps, ∑ gpu ∈ Finset.range r.numGpus, r.segmentSizeOf gpu step
        = ∑ _step ∈ Finset.range r.totalSteps, r.dataSize :=
          Finset.sum_congr rfl fun step _ => (hplaced.sum_segmentSizeOf step).trans hsizes
      _ = 2 * (r.numGpus - 1) * r.dataSize := by
          rw [Finset.sum_const, Finset.card_range, smul_eq_mul, hplaced.steps.2]

/-- The ring 0, 2, 1. -/
def crossedNext (gpu : Nat) : Nat := if gpu = 0 then 2 else if gpu = 2 then 1 else 0

/-- The same ring the other way. -/
def crossedPrev (gpu : Nat) : Nat := if gpu = 0 then 1 else if gpu = 2 then 0 else 2

theorem ringEmbedding_crossed : RingEmbedding (3 : UInt16).toNat crossedNext crossedPrev := by
  refine .inl ⟨⟨by decide, fun a ha b hb => ?_⟩, by decide⟩
  have hreach : ∀ a < 3, ∀ b < 3, ∃ k < 3, crossedNext^[k] a = b := by decide
  obtain ⟨k, -, hk⟩ := hreach a ha b hb
  exact ⟨k, hk⟩

/-- Three ranks on a ring that is not in the order of the ranks, with segments of two sizes. -/
theorem ringAllReduce_reducesFully_crossed : ∃ r, RingLayout.initialized 3 10 crossedNext crossedPrev =
    .ok r ∧ ReducesFully r fun gpu segment => 10 * gpu + segment := by
  obtain ⟨r, hr⟩ : ∃ r, RingLayout.initialized 3 10 crossedNext crossedPrev = .ok r := ⟨_, rfl⟩
  exact ⟨r, hr, ringAllReduce_reducesFully _ (by decide) ringEmbedding_crossed hr⟩

end ProtoBridge.Collective
