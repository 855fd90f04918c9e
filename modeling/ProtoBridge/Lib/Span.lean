import Mathlib.Algebra.GroupWithZero.Nat
import Mathlib.Algebra.Order.BigOperators.Group.Finset
import Mathlib.Order.Interval.Finset.Nat

/-!
# Byte ranges and their covers

A range is counted by its indicator, so that "covered exactly once" is an
equation between sums. The main fact is `cover_eq_span`: pieces that never leave
a range or overlap inside it and whose sizes add up to its length cover it
exactly once.
-/

namespace ProtoBridge.Lib

/-- Indicator of the range of `len` bytes from `lo` on. -/
def span (lo len x : Nat) : Nat := if lo ≤ x ∧ x < lo + len then 1 else 0

/-- How often the pieces, given as start and size, cover byte `x`. -/
def cover (pieces : List (Nat × Nat)) (x : Nat) : Nat := (pieces.map fun q => span q.1 q.2 x).sum

theorem span_le_one (lo len x : Nat) : span lo len x ≤ 1 := by
  unfold span
  split <;> omega

@[simp] theorem span_zero (lo x : Nat) : span lo 0 x = 0 := by
  unfold span
  split <;> omega

variable {len lo m : Nat} {pieces : List (Nat × Nat)}

theorem span_self (h : 0 < len) : span lo len lo = 1 := by
  unfold span
  rw [if_pos (by omega)]

theorem span_last (h : 0 < len) : span lo len (lo + len - 1) = 1 := by
  unfold span
  rw [if_pos (by omega)]

theorem mem_of_span_pos {x : Nat} (h : 0 < span lo len x) : lo ≤ x ∧ x < lo + len := by
  unfold span at h
  split at h
  · assumption
  · omega

theorem span_add (lo a b x : Nat) : span lo (a + b) x = span lo a x + span (lo + a) b x := by
  unfold span
  split <;> split <;> split <;> omega

theorem span_shift (k lo len x : Nat) : span (k + lo) len (k + x) = span lo len x := by
  unfold span
  split <;> split <;> omega

theorem sum_span (h : lo + len ≤ m) : ∑ x ∈ Finset.range m, span lo len x = len := by
  have hset : (Finset.range m).filter (fun x => lo ≤ x ∧ x < lo + len) = Finset.Ico lo (lo + len) := by
    ext x
    simp only [Finset.mem_filter, Finset.mem_range, Finset.mem_Ico]
    omega
  unfold span
  rw [← Finset.sum_filter, hset, Finset.sum_const, Nat.card_Ico]
  simp

@[simp] theorem cover_nil (x : Nat) : cover [] x = 0 := rfl

@[simp] theorem cover_cons (q : Nat × Nat) (qs : List (Nat × Nat)) (x : Nat) :
    cover (q :: qs) x = span q.1 q.2 x + cover qs x := rfl

theorem sum_cover : ∀ {pieces : List (Nat × Nat)}, (∀ q ∈ pieces, q.1 + q.2 ≤ m) →
    ∑ x ∈ Finset.range m, cover pieces x = (pieces.map Prod.snd).sum
  | [], _ => by simp
  | q :: qs, h => by
      have hrest := sum_cover fun r hr => h r (List.mem_cons_of_mem q hr)
      simp only [cover_cons, Finset.sum_add_distrib, List.map_cons, List.sum_cons]
      rw [hrest, sum_span (h q List.mem_cons_self)]

theorem exists_bound (pieces : List (Nat × Nat)) (k : Nat) :
    ∃ m, k ≤ m ∧ ∀ q ∈ pieces, q.1 + q.2 ≤ m := by
  induction pieces with
  | nil => exact ⟨k, le_rfl, by simp⟩
  | cons q qs ih =>
      obtain ⟨m, hk, hm⟩ := ih
      refine ⟨max m (q.1 + q.2), le_trans hk (le_max_left _ _), fun r hr => ?_⟩
      rcases List.mem_cons.mp hr with rfl | hr
      · exact le_max_right _ _
      · exact le_trans (hm r hr) (le_max_left _ _)

theorem cover_eq_span (hle : ∀ x, cover pieces x ≤ span lo len x)
    (hsum : (pieces.map Prod.snd).sum = len) (x : Nat) : cover pieces x = span lo len x := by
  obtain ⟨m, hk, hm⟩ := exists_bound pieces (max (lo + len) (x + 1))
  have htotal : ∑ y ∈ Finset.range m, cover pieces y = ∑ y ∈ Finset.range m, span lo len y := by
    rw [sum_cover hm, hsum, sum_span (le_trans (le_max_left _ _) hk)]
  exact (Finset.sum_eq_sum_iff_of_le fun y _ => hle y).mp htotal x
    (Finset.mem_range.mpr (lt_of_lt_of_le (Nat.lt_succ_self x) (le_trans (le_max_right _ _) hk)))

theorem span_le_cover {q : Nat × Nat} (h : q ∈ pieces) (x : Nat) :
    span q.1 q.2 x ≤ cover pieces x := by
  induction pieces with
  | nil => cases h
  | cons r rs ih =>
      rw [cover_cons]
      rcases List.mem_cons.mp h with rfl | h
      · exact Nat.le_add_right _ _
      · exact le_trans (ih h) (Nat.le_add_left _ _)

end ProtoBridge.Lib
