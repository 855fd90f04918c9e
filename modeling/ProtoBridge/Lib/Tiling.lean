import ProtoBridge.Lib.Span

/-!
# Tilings

Pieces that follow one another without a gap: `Tiles a l b` says that the pieces `l`, given as
start and size, run from `a` to `b` in this order. Such pieces cover the range between exactly
once, and a byte tells which of them it lies in.
-/

namespace ProtoBridge.Lib

/-- The pieces run from `a` to `b`, none of them empty. -/
def Tiles : Nat → List (Nat × Nat) → Nat → Prop
  | a, [], b => a = b
  | a, q :: qs, b => q.1 = a ∧ 0 < q.2 ∧ Tiles (a + q.2) qs b

namespace Tiles

variable {a b c : Nat} {l l' : List (Nat × Nat)} {q : Nat × Nat}

theorem nil (a : Nat) : Tiles a [] a := rfl

theorem append (first : Tiles a l b) (rest : Tiles b l' c) : Tiles a (l ++ l') c := by
  induction l generalizing a with
  | nil =>
      obtain rfl : a = b := first
      exact rest
  | cons q l ih => exact ⟨first.1, first.2.1, ih first.2.2⟩

theorem snoc (first : Tiles a l b) (n : Nat) (some : 0 < n) : Tiles a (l ++ [(b, n)]) (b + n) :=
  first.append ⟨rfl, some, rfl⟩

theorem le (h : Tiles a l b) : a ≤ b := by
  induction l generalizing a with
  | nil => exact Nat.le_of_eq h
  | cons q l ih =>
      have rest := ih h.2.2
      omega

theorem mem (h : Tiles a l b) (hq : q ∈ l) : a ≤ q.1 ∧ 0 < q.2 ∧ q.1 + q.2 ≤ b := by
  induction l generalizing a with
  | nil => cases hq
  | cons p l ih =>
      obtain ⟨start, some, rest⟩ := h
      rcases List.mem_cons.1 hq with rfl | later
      · have rest_le := rest.le
        omega
      · have inside := ih rest later
        omega

theorem shift (h : Tiles a l b) (k : Nat) :
    Tiles (k + a) (l.map fun q => (k + q.1, q.2)) (k + b) := by
  induction l generalizing a with
  | nil => exact congrArg (k + ·) h
  | cons q l ih =>
      refine ⟨congrArg (k + ·) h.1, h.2.1, ?_⟩
      have rest := ih h.2.2
      rwa [← Nat.add_assoc] at rest

theorem eq_of_overlap {α : Type*} {f : α → Nat × Nat} {xs : List α} (h : Tiles a (xs.map f) b)
    {x y : α} (hx : x ∈ xs) (hy : y ∈ xs) {z : Nat} (inx : (f x).1 ≤ z ∧ z < (f x).1 + (f x).2)
    (iny : (f y).1 ≤ z ∧ z < (f y).1 + (f y).2) : x = y := by
  induction xs generalizing a with
  | nil => cases hx
  | cons w xs ih =>
      obtain ⟨start, -, rest⟩ := h
      rcases List.mem_cons.1 hx with rfl | xlater
      · rcases List.mem_cons.1 hy with rfl | ylater
        · rfl
        · have later := (rest.mem (List.mem_map_of_mem (f := f) ylater)).1
          omega
      · rcases List.mem_cons.1 hy with rfl | ylater
        · have later := (rest.mem (List.mem_map_of_mem (f := f) xlater)).1
          omega
        · exact ih rest xlater ylater

end Tiles

end ProtoBridge.Lib
