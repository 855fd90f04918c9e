import Mathlib.Data.Finset.Card

/-!
# Counting the first numbers

How many of the numbers below `n` have a property, when the property changes at one of them.
-/

namespace ProtoBridge.Lib

variable {a n : Nat} {P Q : Nat → Prop}

theorem card_filter_insert (ha : a < n) [DecidablePred P] [DecidablePred Q] (hold : ¬ P a)
    (hnew : Q a) (hsame : ∀ b, b ≠ a → (Q b ↔ P b)) :
    ((Finset.range n).filter Q).card = ((Finset.range n).filter P).card + 1 := by
  have hinsert : (Finset.range n).filter Q = insert a ((Finset.range n).filter P) := by
    ext b
    rw [Finset.mem_insert, Finset.mem_filter, Finset.mem_filter, Finset.mem_range]
    by_cases hb : b = a
    · rw [hb]
      exact iff_of_true ⟨ha, hnew⟩ (.inl rfl)
    · rw [hsame b hb]
      simp [hb]
  rw [hinsert, Finset.card_insert_of_notMem]
  intro hmem
  exact hold (Finset.mem_filter.mp hmem).2

theorem card_filter_same [DecidablePred P] [DecidablePred Q] (hold : ¬ P a) (hnew : ¬ Q a)
    (hsame : ∀ b, b ≠ a → (Q b ↔ P b)) :
    ((Finset.range n).filter Q).card = ((Finset.range n).filter P).card := by
  refine congrArg Finset.card (Finset.filter_congr fun b _ => ?_)
  by_cases hb : b = a
  · rw [hb]
    exact iff_of_false hnew hold
  · exact hsame b hb

theorem forall_of_card [DecidablePred P] (h : n ≤ ((Finset.range n).filter P).card)
    : ∀ b < n, P b := by
  have hall : (Finset.range n).filter P = Finset.range n :=
    Finset.eq_of_subset_of_card_le (Finset.filter_subset _ _) ((Finset.card_range n).le.trans h)
  intro b hb
  have hmem := Finset.mem_range.mpr hb
  rw [← hall] at hmem
  exact (Finset.mem_filter.mp hmem).2

end ProtoBridge.Lib
