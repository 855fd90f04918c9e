import Mathlib.Order.Nat

/-!
# Heap-shaped trees

The numbers below `n` as a binary tree: `0` is the root, the parent of `k + 1` is `k / 2`, so the children
of `k` are `2 * k + 1` and `2 * k + 2`. What goes from the children to their parent goes from the leaves to
all, and what goes from a parent to its children goes from the root to all.
-/

namespace ProtoBridge.Lib

/-- The parent of a number that is not the root. -/
def heapParent (k : Nat) : Nat := (k - 1) / 2

variable {n k c : Nat}

theorem heapParent_lt (hk : k ≠ 0) : heapParent k < k := by
  unfold heapParent
  omega

theorem heapParent_eq_iff (hc : c ≠ 0) : heapParent c = k ↔ c = 2 * k + 1 ∨ c = 2 * k + 2 := by
  unfold heapParent
  omega

theorem heap_up {P : Nat → Prop}
    (hstep : ∀ k < n, (∀ c < n, c ≠ 0 → heapParent c = k → P c) → P k) : ∀ k < n, P k := by
  have hrest : ∀ rest k, k < n → n - k ≤ rest → P k := by
    intro rest
    induction rest with
    | zero =>
        intro k hk hle
        omega
    | succ rest ih =>
        intro k hk hle
        refine hstep k hk ?_
        intro c hc hpos hparent
        have hlt := heapParent_lt hpos
        exact ih c hc (by omega)
  exact fun k hk => hrest (n - k) k hk (Nat.le_refl _)

theorem heap_down {P : Nat → Prop} (hroot : P 0)
    (hstep : ∀ c < n, c ≠ 0 → P (heapParent c) → P c) : ∀ k < n, P k := by
  intro k
  induction k using Nat.strongRecOn with
  | ind k ih =>
      intro hk
      by_cases hzero : k = 0
      · rw [hzero]
        exact hroot
      · have hlt := heapParent_lt hzero
        exact hstep k hk hzero (ih _ hlt (hlt.trans hk))

/-! ## Levels -/

/-- The number of halvings, rounded up, that lead to one. -/
def halvings (n : Nat) : Nat := if h : n ≤ 1 then 0 else halvings ((n + 1) / 2) + 1
  termination_by n
  decreasing_by omega

/-- The number of edges to the root. -/
def heapLevel (k : Nat) : Nat := if h : k = 0 then 0 else heapLevel (heapParent k) + 1
  termination_by k
  decreasing_by exact heapParent_lt h

theorem heapLevel_zero : heapLevel 0 = 0 := by
  rw [heapLevel, dif_pos rfl]

theorem heapLevel_of_ne (hk : k ≠ 0) : heapLevel k = heapLevel (heapParent k) + 1 := by
  rw [heapLevel, dif_neg hk]

theorem halvings_of_lt (hn : 1 < n) : halvings n = halvings ((n + 1) / 2) + 1 := by
  rw [halvings, dif_neg (Nat.not_le.mpr hn)]

theorem heapLevel_le_halvings (hk : k < n) : heapLevel k ≤ halvings n := by
  induction k using Nat.strongRecOn generalizing n with
  | ind k ih =>
      by_cases hzero : k = 0
      · rw [hzero, heapLevel_zero]
        exact Nat.zero_le _
      · have hparent : heapParent k < (n + 1) / 2 := by
          unfold heapParent
          omega
        rw [heapLevel_of_ne hzero, halvings_of_lt (by omega)]
        exact Nat.succ_le_succ (ih _ (heapParent_lt hzero) hparent)

end ProtoBridge.Lib
