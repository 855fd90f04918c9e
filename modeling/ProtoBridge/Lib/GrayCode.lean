import Mathlib.Data.Nat.Bitwise

/-!
# The reflected Gray code

Its numbers below a power of two are those numbers in another order, in which neighbors differ in one bit,
and so do the last and the first.
-/

namespace ProtoBridge.Lib

/-- The reflected Gray code. -/
def gray (i : Nat) : Nat := i ^^^ (i >>> 1)

variable {a b i k : Nat}

theorem gray_div_two (i : Nat) : gray i / 2 = gray (i / 2) := by
  unfold gray
  rw [Nat.shiftRight_one, Nat.shiftRight_one, Nat.xor_div_two]

theorem gray_mod_two (i : Nat) : gray i % 2 = (i + i / 2) % 2 := by
  unfold gray
  rw [Nat.shiftRight_one, Nat.xor_mod_two_eq]

theorem gray_eq (i : Nat) : gray i = 2 * gray (i / 2) + (i + i / 2) % 2 := by
  rw [← gray_div_two, ← gray_mod_two, Nat.div_add_mod]

theorem gray_injective : Function.Injective gray := by
  intro a
  induction a using Nat.strongRecOn with
  | ind a ih =>
      intro b hsame
      have hhalf : gray (a / 2) = gray (b / 2) := by rw [← gray_div_two, ← gray_div_two, hsame]
      have hbit : (a + a / 2) % 2 = (b + b / 2) % 2 := by rw [← gray_mod_two, ← gray_mod_two, hsame]
      rcases Nat.eq_zero_or_pos a with rfl | hpos
      -- half of `b` has the code of zero, and so has half of that
      · induction b using Nat.strongRecOn with
        | ind b ihb =>
            rcases Nat.lt_or_ge b 2 with hsmall | hlarge
            · omega
            · have hzero := ihb (b / 2) (by omega) hhalf (by rw [← gray_div_two, ← gray_div_two, hhalf]) (by
                rw [← gray_mod_two, ← gray_mod_two, ← hhalf])
              omega
      · have := ih (a / 2) (by omega) hhalf
        omega

theorem gray_lt (hi : i < 2 ^ k) : gray i < 2 ^ k := by
  induction k generalizing i with
  | zero =>
      obtain rfl : i = 0 := by omega
      decide
  | succ k ih =>
      rw [pow_succ] at hi ⊢
      have hhalf := ih (i := i / 2) (by omega)
      rw [gray_eq]
      omega

theorem double_xor {x y c : Nat} (hc : c < 2) (h : x ^^^ y = 2 ^ k) :
    (2 * x + c) ^^^ (2 * y + c) = 2 ^ (k + 1) := by
  have hhalf : ((2 * x + c) ^^^ (2 * y + c)) / 2 = 2 ^ k := by
    rw [Nat.xor_div_two, ← h]
    congr 1 <;> omega
  have hbit : ((2 * x + c) ^^^ (2 * y + c)) % 2 = 0 := by
    rw [Nat.xor_mod_two_eq]
    omega
  rw [pow_succ]
  omega

theorem gray_succ (i : Nat) : ∃ bit, gray i ^^^ gray (i + 1) = 2 ^ bit := by
  induction i using Nat.strongRecOn with
  | ind i ih =>
      rcases Nat.mod_two_eq_zero_or_one i with heven | hodd
      · refine ⟨0, ?_⟩
        have hhalf : (gray i ^^^ gray (i + 1)) / 2 = 0 := by
          rw [Nat.xor_div_two, gray_div_two, gray_div_two, show (i + 1) / 2 = i / 2 by omega, Nat.xor_self]
        have hbit : (gray i ^^^ gray (i + 1)) % 2 = 1 := by
          rw [Nat.xor_mod_two_eq, Nat.add_mod, gray_mod_two, gray_mod_two]
          omega
        omega
      · obtain ⟨bit, hbit⟩ := ih (i / 2) (by omega)
        refine ⟨bit + 1, ?_⟩
        rw [gray_eq i, gray_eq (i + 1), show (i + 1) / 2 = i / 2 + 1 by omega,
          show (i + 1 + (i / 2 + 1)) % 2 = (i + i / 2) % 2 by omega]
        exact double_xor (Nat.mod_lt _ Nat.two_pos) hbit

theorem gray_last (k : Nat) : gray (2 ^ (k + 1) - 1) ^^^ gray 0 = 2 ^ k := by
  suffices hlast : gray (2 ^ (k + 1) - 1) = 2 ^ k by
    rw [hlast]
    exact Nat.xor_zero _
  induction k with
  | zero => decide
  | succ k ih =>
      have hpow : 2 ^ (k + 1 + 1) = 2 * 2 ^ (k + 1) := by rw [pow_succ, Nat.mul_comm]
      have hpos : 0 < 2 ^ k := Nat.two_pow_pos k
      have hpow' : 2 ^ (k + 1) = 2 * 2 ^ k := by rw [pow_succ, Nat.mul_comm]
      rw [gray_eq, show (2 ^ (k + 1 + 1) - 1) / 2 = 2 ^ (k + 1) - 1 by omega, ih]
      omega

end ProtoBridge.Lib
