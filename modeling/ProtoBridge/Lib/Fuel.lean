import Mathlib.Order.Basic
import Mathlib.Tactic.Common

/-!
# Fuel

Computations on a bounded number of steps. A run that is short of steps says so, and a run
with more steps either says the same as before or had been short: `Within`. A family that
grows in this order has one result, whatever the number of steps it is asked with.
-/

namespace ProtoBridge.Lib

universe u v

/-- Why a run gave no value: it failed, or it was short of steps. -/
inductive Halt (ε : Type v) where
  | failed (e : ε)
  | starved
  deriving DecidableEq

/-- A computation that may fail, on a bounded number of steps. -/
abbrev Fuelled (ε : Type v) (α : Type u) := Except (Halt ε) α

/-- `y` says what `x` says, unless `x` was short of steps. -/
def Within {ε : Type v} {α : Type u} (x y : Fuelled ε α) : Prop :=
  x = .error .starved ∨ x = y

namespace Within

variable {ε : Type v} {α β : Type u} {x y z : Fuelled ε α}

theorem refl (x : Fuelled ε α) : Within x x := .inr rfl

theorem starved (x : Fuelled ε α) : Within (.error .starved) x := .inl rfl

theorem trans (first : Within x y) (second : Within y z) : Within x z := by
  rcases first with rfl | rfl
  · exact .inl rfl
  · exact second

theorem eq (within : Within x y) (fed : x ≠ .error .starved) : x = y :=
  within.resolve_left fed

theorem bind {f g : α → Fuelled ε β} (first : Within x y) (rest : ∀ a, Within (f a) (g a)) :
    Within (x >>= f) (y >>= g) := by
  rcases first with rfl | rfl
  · exact .inl rfl
  · cases x with
    | ok a => exact rest a
    | error e => exact .inr rfl

end Within

theorem bind_fed {ε : Type v} {α β : Type u} {x : Fuelled ε α} {f : α → Fuelled ε β}
    (first : x ≠ .error .starved) (rest : ∀ a, x = .ok a → f a ≠ .error .starved) :
    (x >>= f) ≠ .error .starved := by
  cases x with
  | ok a => exact rest a rfl
  | error e =>
      intro starved
      apply first
      cases starved
      rfl

/-- A family that says no less with one step more. -/
def Grows {ε : Type v} {α : Type u} (f : Nat → Fuelled ε α) : Prop :=
  ∀ n, Within (f n) (f (n + 1))

namespace Grows

variable {ε : Type v} {α : Type u} {f : Nat → Fuelled ε α}

theorem le (grows : Grows f) {n m : Nat} (h : n ≤ m) : Within (f n) (f m) := by
  induction h with
  | refl => exact .refl _
  | step _ ih => exact ih.trans (grows _)

theorem agree (grows : Grows f) {n m : Nat} (hn : f n ≠ .error .starved)
    (hm : f m ≠ .error .starved) : f n = f m := by
  rcases Nat.le_total n m with h | h
  · exact (grows.le h).eq hn
  · exact ((grows.le h).eq hm).symm

theorem ok (grows : Grows f) {n m : Nat} {a : α} (h : n ≤ m) (hn : f n = .ok a) :
    f m = .ok a := by
  rw [← (grows.le h).eq (by simp [hn])]
  exact hn

end Grows

end ProtoBridge.Lib
