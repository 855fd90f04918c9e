import Mathlib.Algebra.Order.Floor.Div
import ProtoBridge.Lib.Tiling

/-!
# Cutting a total into chunks

A total `t` is cut into chunks of size `c`: all are full but the last, which has what is left.
There are `t ⌈/⌉ c` of them. A loop over more indices than that passes by those past the end.
Another total `e` can be split in proportion: `share e t a b` goes with the bytes from `a` to `b`.
-/

namespace ProtoBridge.Lib

variable {c d i k n s t : Nat}

/-- The size of the `i`-th chunk. -/
def chunk (c t i : Nat) : Nat := min c (t - i * c)

theorem lt_ceilDiv (hc : 0 < c) : i < t ⌈/⌉ c ↔ i * c < t := by
  rw [← Nat.not_le, ceilDiv_le_iff_le_mul hc, Nat.not_le, Nat.mul_comm]

theorem ceilDiv_pos (hc : 0 < c) (ht : 0 < t) : 0 < t ⌈/⌉ c := by
  rw [lt_ceilDiv hc, Nat.zero_mul]
  exact ht

theorem le_mul_ceilDiv (hc : 0 < c) : t ≤ c * (t ⌈/⌉ c) :=
  (ceilDiv_le_iff_le_mul hc).mp (Nat.le_refl _)

theorem ceilDiv_le_self (hc : 0 < c) : t ⌈/⌉ c ≤ t := by
  rw [ceilDiv_le_iff_le_mul hc]
  exact Nat.le_mul_of_pos_left t hc

theorem ceilDiv_ceilDiv_le (hn : 0 < n) (ht : 0 < t) : t ⌈/⌉ (t ⌈/⌉ n) ≤ n := by
  rw [ceilDiv_le_iff_le_mul (ceilDiv_pos hn ht), Nat.mul_comm]
  exact le_mul_ceilDiv hn

theorem chunk_le : chunk c t i ≤ c := Nat.min_le_left _ _

theorem chunk_pos (hc : 0 < c) (h : i * c < t) : 0 < chunk c t i := by
  rw [chunk]
  omega

theorem chunk_full (h : (i + 1) * c ≤ t) : chunk c t i = c := by
  rw [Nat.add_mul, Nat.one_mul] at h
  rw [chunk]
  omega

theorem tiles_chunks (hc : 0 < c) (hk : k ≤ t ⌈/⌉ c) :
    Tiles 0 ((List.range k).map fun i => (i * c, chunk c t i)) (min (k * c) t) := by
  induction k with
  | zero =>
      rw [Nat.zero_mul, Nat.zero_min]
      exact .nil 0
  | succ k ih =>
      have inside : k * c < t := (lt_ceilDiv hc).mp hk
      have first := ih (Nat.le_of_succ_le hk)
      rw [Nat.min_eq_left (Nat.le_of_lt inside)] at first
      have last : k * c + chunk c t k = min ((k + 1) * c) t := by
        rw [chunk, Nat.add_mul, Nat.one_mul]
        omega
      rw [List.range_succ, List.map_append, ← last]
      exact first.snoc _ (chunk_pos hc inside)

theorem sum_chunks (c t k : Nat) : ((List.range k).map (chunk c t)).sum = min (k * c) t := by
  induction k with
  | zero => simp
  | succ k ih =>
      rw [List.range_succ, List.map_append, List.sum_append, ih, List.map_singleton,
        List.sum_singleton, chunk, Nat.add_mul, Nat.one_mul]
      omega

/-- The indices from `i` on that a loop of `left` turns goes through, if it goes on to the next
where `skip` holds and ends where `stop` does. -/
def walk (skip stop : Nat → Prop) [DecidablePred skip] [DecidablePred stop] : Nat → Nat → List Nat
  | 0, _ => []
  | left + 1, i =>
      if skip i then walk skip stop left (i + 1)
      else if stop i then []
      else i :: walk skip stop left (i + 1)

variable {skip stop : Nat → Prop} [DecidablePred skip] [DecidablePred stop]

/-- A loop that skips the indices from `s` on and stops at those from `d` on goes through the others
in order. -/
theorem walk_eq {left i : Nat} (hskip : ∀ j < i + left, skip j ↔ s ≤ j)
    (hstop : ∀ j < i + left, stop j ↔ d ≤ j) :
    walk skip stop left i = List.range' i (min left (min s d - i)) := by
  induction left generalizing i with
  | zero => simp [walk]
  | succ left ih =>
      have here : i < i + (left + 1) := by omega
      have rest : walk skip stop left (i + 1) =
          List.range' (i + 1) (min left (min s d - (i + 1))) :=
        ih (fun j hj => hskip j (by omega)) (fun j hj => hstop j (by omega))
      rw [walk, rest]
      split
      · rename_i past
        rw [hskip i here] at past
        have none : min (left + 1) (min s d - i) = 0 := by omega
        have none' : min left (min s d - (i + 1)) = 0 := by omega
        rw [none, none', List.range'_zero, List.range'_zero]
      · rename_i inside
        rw [hskip i here] at inside
        split
        · rename_i last
          rw [hstop i here] at last
          have none : min (left + 1) (min s d - i) = 0 := by omega
          rw [none, List.range'_zero]
        · rename_i more
          rw [hstop i here] at more
          have one : min (left + 1) (min s d - i) = min left (min s d - (i + 1)) + 1 := by omega
          rw [one, List.range'_succ]

/-! ## Shares -/

/-- What goes with the bytes from `a` to `b` of `t`, when `e` is split in proportion. -/
def share (e t a b : Nat) : Nat := e * b / t - e * a / t

variable {a b e m : Nat}

theorem share_zero (e t b : Nat) : share e t 0 b = e * b / t := by
  rw [share, Nat.mul_zero, Nat.zero_div, Nat.sub_zero]

theorem share_add_share (hab : a ≤ b) (hbc : b ≤ c) :
    share e t a b + share e t b c = share e t a c := by
  have first : e * a / t ≤ e * b / t := Nat.div_le_div_right (Nat.mul_le_mul_left e hab)
  have second : e * b / t ≤ e * c / t := Nat.div_le_div_right (Nat.mul_le_mul_left e hbc)
  rw [share, share, share]
  omega

theorem sum_shares (e t c k : Nat) :
    ((List.range k).map fun i => share e t (min (i * c) t) (min ((i + 1) * c) t)).sum =
      share e t 0 (min (k * c) t) := by
  induction k with
  | zero => simp [share]
  | succ k ih =>
      have grow : k * c ≤ (k + 1) * c := Nat.mul_le_mul_right c (Nat.le_succ k)
      rw [List.range_succ, List.map_append, List.sum_append, ih, List.map_singleton,
        List.sum_singleton]
      exact share_add_share (Nat.zero_le _) (by omega)

theorem share_le (ht : 0 < t) (h : e * c ≤ m * t) : share e t a (a + c) ≤ m := by
  rw [share, Nat.mul_add, Nat.sub_le_iff_le_add]
  calc (e * a + e * c) / t ≤ (e * a + m * t) / t := Nat.div_le_div_right (Nat.add_le_add_left h _)
    _ = e * a / t + m := Nat.add_mul_div_right _ _ ht
    _ = m + e * a / t := Nat.add_comm _ _

theorem share_mono (h : b ≤ c) : share e t a b ≤ share e t a c :=
  Nat.sub_le_sub_right (Nat.div_le_div_right (Nat.mul_le_mul_left e h)) _

theorem lt_div_or_mod_iff {v : Nat} (ht : 0 < t) :
    m < v / t ∨ (v % t ≠ 0 ∧ v / t = m) ↔ m * t < v := by
  have split := Nat.div_add_mod v t
  constructor
  · rintro (more | ⟨rest, same⟩)
    · exact Nat.lt_of_lt_of_le (Nat.mul_lt_mul_of_pos_right more ht) (Nat.div_mul_le_self v t)
    · rw [same, Nat.mul_comm] at split
      omega
  · intro worth
    rcases Nat.lt_or_ge m (v / t) with more | le
    · exact .inl more
    · have same : v / t = m := Nat.le_antisymm le ((Nat.le_div_iff_mul_le ht).mpr (Nat.le_of_lt worth))
      rw [same, Nat.mul_comm] at split
      exact .inr ⟨by omega, same⟩

theorem mul_ceilDiv_lt (hn : 0 < n) : n * (t ⌈/⌉ n) < t + n := by
  rw [Nat.ceilDiv_eq_add_pred_div]
  have := Nat.mul_div_le (t + n - 1) n
  omega

theorem share_mod (ht : 0 < t) (a c : Nat) :
    share e t (a % t) (a % t + c) = share e t a (a + c) := by
  have split (b : Nat) : e * (a % t + b + t * (a / t)) / t = e * (a % t + b) / t + e * (a / t) := by
    rw [Nat.mul_add, Nat.mul_left_comm, Nat.add_mul_div_left _ _ ht]
  have whole (b : Nat) : a % t + b + t * (a / t) = a + b := by
    have := Nat.mod_add_div a t
    omega
  have hc := split c
  have h0 := split 0
  rw [whole] at hc h0
  rw [Nat.add_zero, Nat.add_zero] at h0
  rw [share, share, hc, h0]
  omega

theorem exists_share_gt_iff (ht : 0 < t) :
    (∃ a < t, m < share e t a (a + c)) ↔ m * t < e * c := by
  constructor
  · rintro ⟨a, -, more⟩
    by_contra le
    exact absurd (share_le ht (Nat.not_lt.mp le)) (Nat.not_le.mpr more)
  · intro worth
    -- the share that ends with the whole total is rounded up
    refine ⟨c * (t - 1) % t, Nat.mod_lt _ ht, ?_⟩
    rw [share_mod ht, share]
    have last : c * (t - 1) + c = c * t := by
      rw [Nat.mul_sub, Nat.mul_one, Nat.sub_add_cancel (Nat.le_mul_of_pos_right c ht)]
    rw [last, ← Nat.mul_assoc, Nat.mul_div_cancel _ ht]
    have before : e * (c * (t - 1)) + e * c = e * c * t := by
      rw [← Nat.mul_add, last, Nat.mul_assoc]
    have below : e * (c * (t - 1)) < (e * c - m) * t := by
      rw [Nat.sub_mul]
      omega
    have floor : e * (c * (t - 1)) / t < e * c - m := (Nat.div_lt_iff_lt_mul ht).mpr below
    rw [Nat.lt_sub_iff_add_lt, Nat.add_comm, ← Nat.lt_sub_iff_add_lt] at floor
    exact floor

end ProtoBridge.Lib
