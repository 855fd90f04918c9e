import Mathlib.Data.ZMod.Basic
import Mathlib.Tactic.Ring

/-!
# Reduction on a ring

`n` places on a ring each have a value for each of `n` segments. The first phase goes
up the ring and adds: in round `s` place `p` passes on segment `p - s`. The second
phase goes down the ring and replaces: in round `t` place `p` passes on segment
`p + 1 + t`. After the first phase place `p` has the sum of segment `p + 1`, after
the second one every place has the sum of every segment.
-/

namespace ProtoBridge.Lib.RingReduce

variable {n : Nat} {M : Type*} [AddCommMonoid M]

/-- A round of the first phase, as the receivers see it. -/
def scatterRound (s : Nat) (held : ZMod n → ZMod n → M) : ZMod n → ZMod n → M :=
  fun p q => if q = p - 1 - s then held p q + held (p - 1) q else held p q

/-- A round of the second phase. -/
def gatherRound (t : Nat) (held : ZMod n → ZMod n → M) : ZMod n → ZMod n → M :=
  fun p q => if q = p + 1 + (1 + t) then held (p + 1) q else held p q

/-- What the places hold behind the first rounds of the first phase. -/
def scattered (own : ZMod n → ZMod n → M) : Nat → ZMod n → ZMod n → M
  | 0 => own
  | s + 1 => scatterRound s (scattered own s)

/-- What they hold behind the first rounds of the second phase. -/
def gathered (held : ZMod n → ZMod n → M) : Nat → ZMod n → ZMod n → M
  | 0 => held
  | t + 1 => gatherRound t (gathered held t)

/-- The sum of the values of all places for a segment. -/
def total [NeZero n] (own : ZMod n → ZMod n → M) (q : ZMod n) : M := ∑ p, own p q

theorem natCast_injective {i j : Nat} (hi : i < n) (hj : j < n) (h : (i : ZMod n) = j) : i = j := by
  rw [ZMod.natCast_eq_natCast_iff'] at h
  rwa [Nat.mod_eq_of_lt hi, Nat.mod_eq_of_lt hj] at h

/-- Behind `s` rounds place `p` has for segment `p - k` the sum over the places from `p - k` up, if
this segment has come by, and else its own value. -/
theorem scattered_eq (own : ZMod n → ZMod n → M) {s k : Nat} (hs : s < n) (hk : k < n) (p : ZMod n) :
    scattered own s p (p - k) =
      if k ≤ s then ∑ j ∈ Finset.range (k + 1), own (p - j) (p - k) else own p (p - k) := by
  induction s generalizing k p with
  | zero =>
      rcases Nat.eq_zero_or_pos k with rfl | hpos
      · simp [scattered]
      · rw [if_neg (by omega)]
        rfl
  | succ s ih =>
      have hround : p - (k : ZMod n) = p - 1 - s ↔ k = s + 1 := by
        constructor
        · intro heq
          refine natCast_injective hk hs ?_
          push_cast
          have := congrArg (fun x => p - x) heq
          simp only [sub_sub_cancel] at this
          rw [this]
          ring
        · rintro rfl
          push_cast
          ring
      show (if p - (k : ZMod n) = p - 1 - s then _ + _ else _) = _
      rw [ih (by omega) hk p]
      by_cases hcomes : k = s + 1
      -- the segment comes by in this round
      · have hpred : scattered own s (p - 1) (p - k) =
            ∑ j ∈ Finset.range (s + 1), own (p - (j + 1 : Nat)) (p - k) := by
          rw [hround.mpr hcomes, ih (by omega) (by omega) (p - 1), if_pos le_rfl]
          refine Finset.sum_congr rfl fun j _ => ?_
          push_cast
          congr 1
          ring
        rw [if_pos (hround.mpr hcomes), if_neg (by omega), if_pos (by omega), hpred, hcomes,
          Finset.sum_range_succ' _ (s + 1), Nat.cast_zero, sub_zero, add_comm]
      · rw [if_neg (fun heq => hcomes (hround.mp heq))]
        by_cases hle : k ≤ s
        · rw [if_pos hle, if_pos (by omega)]
        · rw [if_neg hle, if_neg (by omega)]

theorem sum_below [NeZero n] (f : ZMod n → M) (p : ZMod n) :
    ∑ j ∈ Finset.range n, f (p - j) = ∑ x, f x := by
  refine Finset.sum_nbij' (fun j => p - j) (fun x => (p - x).val) ?_ ?_ ?_ ?_ ?_
  · intro j _
    exact Finset.mem_univ _
  · intro x _
    exact Finset.mem_range.mpr (ZMod.val_lt _)
  · intro j hj
    rw [sub_sub_cancel, ZMod.val_natCast, Nat.mod_eq_of_lt (Finset.mem_range.mp hj)]
  · intro x _
    rw [ZMod.natCast_val, ZMod.cast_id, sub_sub_cancel]
  · intro j _
    rfl

theorem scattered_total [NeZero n] (own : ZMod n → ZMod n → M) (p : ZMod n) :
    scattered own (n - 1) p (p + 1) = total own (p + 1) := by
  have hpos : 0 < n := Nat.pos_of_neZero n
  have hsegment : p + 1 = p - ((n - 1 : Nat) : ZMod n) := by
    rw [Nat.cast_sub hpos, ZMod.natCast_self, Nat.cast_one]
    ring
  rw [hsegment, scattered_eq own (by omega) (by omega), if_pos le_rfl, Nat.sub_add_cancel hpos, total]
  exact sum_below (fun x => own x _) p

omit [AddCommMonoid M] in
/-- Behind `t` rounds of the second phase a place has the sums of the first `t + 1` segments above
it. -/
theorem gathered_eq {held : ZMod n → ZMod n → M} {sum : ZMod n → M}
    (hheld : ∀ p, held p (p + 1) = sum (p + 1)) {t k : Nat} (ht : t < n) (hk : k ≤ t) (p : ZMod n) :
    gathered held t p (p + (1 + k)) = sum (p + (1 + k)) := by
  induction t generalizing k p with
  | zero =>
      obtain rfl : k = 0 := by omega
      rw [Nat.cast_zero, add_zero]
      exact hheld p
  | succ t ih =>
      show (if p + (1 + (k : ZMod n)) = p + 1 + (1 + t) then _ else _) = _
      by_cases hcomes : k = t + 1
      · have hsegment : p + (1 + (k : ZMod n)) = p + 1 + (1 + t) := by
          rw [hcomes]
          push_cast
          ring
        rw [if_pos hsegment, hsegment]
        exact ih (by omega) le_rfl (p + 1)
      · rw [if_neg]
        · exact ih (by omega) (by omega) p
        · intro heq
          refine hcomes (natCast_injective (by omega) ht ?_)
          push_cast
          have := congrArg (fun x => x - p - 1) heq
          ring_nf at this
          rw [this]
          ring

theorem gathered_total [NeZero n] (own : ZMod n → ZMod n → M) (p q : ZMod n) :
    gathered (scattered own (n - 1)) (n - 1) p q = total own q := by
  have hpos : 0 < n := Nat.pos_of_neZero n
  have hsegment : q = p + (1 + ((q - p - 1).val : ZMod n)) := by
    rw [ZMod.natCast_val, ZMod.cast_id]
    ring
  rw [hsegment]
  exact gathered_eq (scattered_total own) (by omega) (by have := ZMod.val_lt (q - p - 1); omega) p

end ProtoBridge.Lib.RingReduce
