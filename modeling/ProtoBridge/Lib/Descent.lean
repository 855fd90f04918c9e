import Mathlib.Data.Finset.Card

/-!
# Walks that come closer with each move

If each move comes one closer to a goal, a walk has no place twice, is at most as long as the start is
away, and can be gone on with to that length. Moves without a cycle, between finitely many places, have a
height that each move makes smaller.
-/

namespace ProtoBridge.Lib

variable {V : Type*} {moves : V → V → Prop} {dist : V → Nat} {Inside : V → Prop} {path : Nat → V} {k : Nat}

/-- The first `k` moves of a walk. -/
def Walk (moves : V → V → Prop) (path : Nat → V) (k : Nat) : Prop :=
  ∀ i < k, moves (path i) (path (i + 1))

/-- Each move from an inside place leads to one that is one closer, and there is a move from each place
that is not at the goal. -/
structure Descends (moves : V → V → Prop) (dist : V → Nat) (Inside : V → Prop) : Prop where
  closer : ∀ v, Inside v → ∀ w, moves v w → Inside w ∧ dist w + 1 = dist v
  goesOn : ∀ v, Inside v → dist v ≠ 0 → ∃ w, moves v w

namespace Descends

theorem along (h : Descends moves dist Inside) (hwalk : Walk moves path k) (hstart : Inside (path 0)) :
    ∀ i ≤ k, Inside (path i) ∧ dist (path i) + i = dist (path 0) := by
  intro i
  induction i with
  | zero => exact fun _ => ⟨hstart, rfl⟩
  | succ i ih =>
      intro hi
      obtain ⟨hinside, hdist⟩ := ih (Nat.le_of_succ_le hi)
      obtain ⟨hnext, hcloser⟩ := h.closer _ hinside _ (hwalk i hi)
      exact ⟨hnext, by omega⟩

theorem length_le (h : Descends moves dist Inside) (hwalk : Walk moves path k) (hstart : Inside (path 0)) :
    k ≤ dist (path 0) := by
  obtain ⟨-, hdist⟩ := h.along hwalk hstart k (Nat.le_refl k)
  omega

theorem injective (h : Descends moves dist Inside) (hwalk : Walk moves path k) (hstart : Inside (path 0)) :
    ∀ i ≤ k, ∀ j ≤ k, path i = path j → i = j := by
  intro i hi j hj heq
  obtain ⟨-, hdist⟩ := h.along hwalk hstart i hi
  obtain ⟨-, hdist'⟩ := h.along hwalk hstart j hj
  rw [heq] at hdist
  omega

theorem exists_next (h : Descends moves dist Inside) (hwalk : Walk moves path k) (hstart : Inside (path 0))
    (hmore : k < dist (path 0)) : ∃ w, moves (path k) w := by
  obtain ⟨hinside, hdist⟩ := h.along hwalk hstart k (Nat.le_refl k)
  exact h.goesOn _ hinside (by omega)

theorem exists_walk (h : Descends moves dist Inside) {v : V} (hv : Inside v) :
    ∃ path : Nat → V, path 0 = v ∧ Walk moves path (dist v) := by
  suffices hall : ∀ n v, Inside v → dist v = n → ∃ path : Nat → V, path 0 = v ∧ Walk moves path n from
    hall _ v hv rfl
  intro n
  induction n with
  | zero => exact fun v _ _ => ⟨fun _ => v, rfl, fun i hi => absurd hi (Nat.not_lt_zero i)⟩
  | succ n ih =>
      intro v hv hdist
      obtain ⟨w, hmove⟩ := h.goesOn v hv (by omega)
      obtain ⟨hw, hcloser⟩ := h.closer v hv w hmove
      obtain ⟨path, rfl, hwalk⟩ := ih w hw (by omega)
      refine ⟨fun i => match i with | 0 => v | i + 1 => path i, rfl, ?_⟩
      intro i hi
      cases i with
      | zero => exact hmove
      | succ i => exact hwalk i (Nat.lt_of_succ_lt_succ hi)

end Descends

theorem exists_height {moves : Nat → Nat → Prop} {n : Nat} (hinside : ∀ v w, moves v w → w < n)
    (hacyclic : ∀ v, ¬ Relation.TransGen moves v v) :
    ∃ height : Nat → Nat, (∀ v, height v ≤ n) ∧ ∀ v w, moves v w → height w < height v := by
  classical
  refine ⟨fun v => ((Finset.range n).filter fun w => Relation.TransGen moves v w).card, ?_, ?_⟩
  · intro v
    calc _ ≤ (Finset.range n).card := Finset.card_filter_le _ _
      _ = n := Finset.card_range n
  · intro v w hmove
    apply Finset.card_lt_card
    rw [Finset.ssubset_iff_of_subset]
    · refine ⟨w, ?_, ?_⟩
      · rw [Finset.mem_filter, Finset.mem_range]
        exact ⟨hinside v w hmove, .single hmove⟩
      · rw [Finset.mem_filter]
        exact fun h => hacyclic w h.2
    · intro u hu
      rw [Finset.mem_filter] at hu ⊢
      exact ⟨hu.1, .head hmove hu.2⟩

end ProtoBridge.Lib
