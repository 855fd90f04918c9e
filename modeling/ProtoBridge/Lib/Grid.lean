import Mathlib.Algebra.BigOperators.Intervals
import Mathlib.Algebra.Order.BigOperators.Group.Finset
import Mathlib.Algebra.Module.NatInt
import Mathlib.Tactic.NormNum
import Mathlib.Tactic.Ring
import ProtoBridge.Lib.Cycle

/-!
# Grids

An amount is shared out in `n` portions that differ by one at most, the larger ones first. Where
the portions stand in rows of the same length, sums over them go row by row.
-/

namespace ProtoBridge.Lib

/-- The `i`-th of `n` portions of `d`. -/
def portion (d n i : Nat) : Nat := d / n + if i < d % n then 1 else 0

variable {d n g i j m : Nat}

theorem sum_reordered {M : Type*} [AddCommMonoid M] {f : Nat → Nat} (hlt : ∀ a < n, f a < n)
    (hinj : ∀ a < n, ∀ b < n, f a = f b → a = b) (g : Nat → M) :
    ∑ a ∈ Finset.range n, g (f a) = ∑ b ∈ Finset.range n, g b := by
  refine Finset.sum_nbij f ?_ ?_ ?_ fun _ _ => rfl
  · intro a ha
    exact Finset.mem_range.mpr (hlt a (Finset.mem_range.mp ha))
  · intro a ha b hb
    exact hinj a (Finset.mem_range.mp ha) b (Finset.mem_range.mp hb)
  · intro b hb
    obtain ⟨a, ha, heq⟩ := exists_of_injective hlt hinj b (Finset.mem_range.mp hb)
    exact ⟨a, Finset.mem_coe.mpr (Finset.mem_range.mpr ha), heq⟩

theorem sum_portion (hn : 0 < n) (d : Nat) : ∑ i ∈ Finset.range n, portion d n i = d := by
  have hextra : ∑ i ∈ Finset.range n, (if i < d % n then 1 else 0) = d % n := by
    rw [← Finset.sum_filter, Finset.sum_const, smul_eq_mul, mul_one]
    have hfirst : (Finset.range n).filter (· < d % n) = Finset.range (d % n) := by
      ext i
      have := Nat.mod_lt d hn
      simp only [Finset.mem_filter, Finset.mem_range]
      omega
    rw [hfirst, Finset.card_range]
  simp only [portion]
  rw [Finset.sum_add_distrib, Finset.sum_const, Finset.card_range, smul_eq_mul, hextra]
  exact Nat.div_add_mod d n

theorem portion_le (d n i : Nat) : portion d n i ≤ d := by
  have hmul := Nat.div_add_mod d n
  have hquot : d / n ≤ n * (d / n) ∨ d / n = 0 := by
    rcases Nat.eq_zero_or_pos n with rfl | hn
    · exact .inr (Nat.div_zero d)
    · exact .inl (Nat.le_mul_of_pos_left _ hn)
  unfold portion
  split <;> omega

theorem portion_eq_iff : portion d n i = portion d n j ↔ (i < d % n ↔ j < d % n) := by
  unfold portion
  split <;> split <;> omega

theorem portion_pos (hd : 0 < d) (n : Nat) : 0 < portion d n 0 := by
  unfold portion
  split
  · exact Nat.add_pos_right _ Nat.one_pos
  · have hmod : d % n = 0 := by omega
    have hmul := Nat.div_add_mod d n
    rcases Nat.eq_zero_or_pos (d / n) with hz | hquot
    · rw [hz, hmod] at hmul
      omega
    · exact Nat.add_pos_left hquot 0

theorem mul_portion_lt {a : Nat} (hd : d < 2 ^ 64) (hn : n ≤ 2 ^ 32) (ha : a < n) (i : Nat) :
    a * portion d n i < 2 ^ 64 := by
  have hportion : portion d n i ≤ d / n + 1 := by
    unfold portion
    split <;> omega
  have hquot : n * (d / n) ≤ d := Nat.mul_div_le d n
  rcases Nat.lt_or_ge (d / n + 1) n with hsmall | hlarge
  · calc a * portion d n i ≤ a * (d / n + 1) := Nat.mul_le_mul_left a hportion
      _ < n * n := Nat.mul_lt_mul_of_lt_of_le ha hsmall.le (by omega)
      _ ≤ 2 ^ 32 * 2 ^ 32 := Nat.mul_le_mul hn hn
      _ = 2 ^ 64 := by norm_num
  · have hsucc : a * (d / n) + d / n ≤ n * (d / n) := by
      rw [← Nat.succ_mul]
      exact Nat.mul_le_mul_right _ ha
    calc a * portion d n i ≤ a * (d / n + 1) := Nat.mul_le_mul_left a hportion
      _ = a * (d / n) + a := Nat.mul_succ a (d / n)
      _ ≤ n * (d / n) := by omega
      _ < 2 ^ 64 := by omega

/-! ## Rows -/

theorem place_lt (hm : m < n) (hi : i < g) : m * g + i < n * g := by
  calc m * g + i < m * g + g := by omega
    _ = (m + 1) * g := by ring
    _ ≤ n * g := Nat.mul_le_mul_right g hm

theorem place_div (hi : i < g) : (m * g + i) / g = m := by
  rw [Nat.mul_comm, Nat.mul_add_div (by omega), Nat.div_eq_of_lt hi, add_zero]

theorem place_mod (hi : i < g) : (m * g + i) % g = i := by
  rw [Nat.mul_comm, Nat.mul_add_mod, Nat.mod_eq_of_lt hi]

theorem flatMap_grid {α : Type*} (f : Nat → Nat → α) (n g : Nat) :
    ((List.range n).flatMap fun m => (List.range g).map (f m)) =
      (List.range (n * g)).map fun r => f (r / g) (r % g) := by
  induction n with
  | zero => simp
  | succ n ih =>
      rw [List.range_succ, List.flatMap_append, ih, Nat.succ_mul, List.range_add, List.map_append,
        List.flatMap_singleton, List.map_map]
      congr 1
      refine List.map_congr_left fun i hi => ?_
      rw [Function.comp_apply, place_div (List.mem_range.mp hi), place_mod (List.mem_range.mp hi)]

theorem flatMap_rows {α : Type*} (f : Nat → Nat → List α) (n g : Nat) :
    ((List.range n).flatMap fun m => (List.range g).flatMap (f m)) =
      (List.range (n * g)).flatMap fun r => f (r / g) (r % g) := by
  have hrows := congrArg (List.flatMap id) (flatMap_grid f n g)
  simpa only [List.flatMap_assoc, List.flatMap_map, id_eq] using hrows

theorem succ_place (hg : 0 < g) (r : Nat) :
    r % g + 1 < g ∧ (r + 1) / g = r / g ∧ (r + 1) % g = r % g + 1 ∨
      r % g + 1 = g ∧ (r + 1) / g = r / g + 1 ∧ (r + 1) % g = 0 := by
  have hsplit := Nat.div_add_mod' r g
  have hrest := Nat.mod_lt r hg
  rcases Nat.lt_or_ge (r % g + 1) g with hin | hend
  · left
    have hplace : r + 1 = r / g * g + (r % g + 1) := by omega
    refine ⟨hin, ?_, ?_⟩
    · rw [hplace, place_div hin]
    · rw [hplace, place_mod hin]
  · right
    have hplace : r + 1 = (r / g + 1) * g + 0 := by
      rw [Nat.succ_mul]
      omega
    refine ⟨by omega, ?_, ?_⟩
    · rw [hplace, place_div hg]
    · rw [hplace, place_mod hg]

theorem sum_grid {M : Type*} [AddCommMonoid M] (f : Nat → M) (n g : Nat) :
    ∑ r ∈ Finset.range (n * g), f r =
      ∑ m ∈ Finset.range n, ∑ i ∈ Finset.range g, f (m * g + i) := by
  induction n with
  | zero => simp
  | succ n ih =>
      rw [Finset.sum_range_succ, ← ih, Nat.succ_mul]
      exact Finset.sum_range_add f (n * g) g

end ProtoBridge.Lib
