import Mathlib.Logic.Basic

/-!
# Outcomes

Rules of pre- and postconditions for computations that may fail: `Yields bad x Q` says that
`x` returns a value with `Q`, or fails for a reason that is not `bad`.
-/

namespace ProtoBridge.Lib

universe u v

/-- `x` returns a value with `Q`, or fails for a reason that is not `bad`. -/
def Yields {ε : Type v} {α : Type u} (bad : ε → Prop) (x : Except ε α) (Q : α → Prop) : Prop :=
  match x with
  | .ok a => Q a
  | .error e => ¬ bad e

namespace Yields

variable {ε : Type v} {α β : Type u} {bad : ε → Prop} {x : Except ε α} {Q Q' : α → Prop} {a : α}
  {e : ε}

theorem ok (h : Q a) : Yields bad (.ok a) Q := h

theorem error (h : ¬ bad e) : Yields bad (.error e) Q := h

theorem get (h : Yields bad x Q) (hx : x = .ok a) : Q a := by
  subst hx
  exact h

theorem mono (h : Yields bad x Q) (hQ : ∀ a, Q a → Q' a) : Yields bad x Q' := by
  cases x with
  | ok a => exact hQ a h
  | error e => exact h

theorem bind {f : α → Except ε β} {R : β → Prop} (h : Yields bad x Q)
    (hf : ∀ a, Q a → Yields bad (f a) R) : Yields bad (x >>= f) R := by
  cases x with
  | ok a => exact hf a h
  | error e => exact h

end Yields

end ProtoBridge.Lib
