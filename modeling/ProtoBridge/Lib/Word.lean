import Mathlib.Tactic.Ring

/-!
# Wrapping machine arithmetic on naturals

Counters of fixed width are naturals; the two operations below wrap as the
unsigned types of the source do. Each has the lemma that removes the wrap once
the bound is known, which is how every proof about a counter uses it.
-/

namespace ProtoBridge.Lib

/-- `a + b` in unsigned `w`-bit arithmetic. -/
def wadd (w a b : Nat) : Nat := (a + b) % 2 ^ w

/-- `a - b` in unsigned `w`-bit arithmetic. -/
def wsub (w a b : Nat) : Nat := (a + (2 ^ w - b % 2 ^ w)) % 2 ^ w

theorem wadd_eq {w a b : Nat} (h : a + b < 2 ^ w) : wadd w a b = a + b :=
  Nat.mod_eq_of_lt h

theorem wsub_eq {w a b : Nat} (hb : b ≤ a) (ha : a < 2 ^ w) : wsub w a b = a - b := by
  have hmod : b % 2 ^ w = b := Nat.mod_eq_of_lt (lt_of_le_of_lt hb ha)
  have hsum : a + (2 ^ w - b) = (a - b) + 2 ^ w := by omega
  rw [wsub, hmod, hsum, Nat.add_mod_right]
  exact Nat.mod_eq_of_lt (by omega)

end ProtoBridge.Lib
