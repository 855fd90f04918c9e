import Mathlib.Logic.Relation

/-!
# Machines that may abort

A simulation component is a machine: a set of initial states, a guard that says
which inputs a state accepts, and an execution function that either returns the
next state or aborts with an error. `Reachable` collects the states of every
run, `Inductive` is the one invariant rule every safety theorem goes through,
and `restrict` cuts a machine down to the runs whose inputs meet a condition.
-/

namespace ProtoBridge.Lib

open Relation

universe u

/-- A machine over states `S`, inputs `A` and abort reasons `E`. -/
structure Machine (S A E : Type*) where
  init : S → Prop
  enabled : S → A → Prop
  exec : S → A → Except E S

namespace Machine

variable {S A E : Type*} (M : Machine S A E)

/-- The states some finite run of enabled, non-aborting inputs ends in. -/
inductive Reachable : S → Prop
  | init {s} : M.init s → Reachable s
  | step {s a s'} : Reachable s → M.enabled s a → M.exec s a = .ok s' → Reachable s'

/-- `P` holds in every reachable state. -/
def Invariant (P : S → Prop) : Prop := ∀ s, M.Reachable s → P s

/-- `P` holds initially and every step keeps it. -/
structure Inductive (P : S → Prop) : Prop where
  init : ∀ s, M.init s → P s
  step : ∀ s a s', P s → M.enabled s a → M.exec s a = .ok s' → P s'

variable {M}

theorem Inductive.invariant {P : S → Prop} (h : M.Inductive P) : M.Invariant P := by
  intro s hreach
  induction hreach with
  | init hinit => exact h.init _ hinit
  | step _ hen hex ih => exact h.step _ _ _ ih hen hex

theorem Invariant.strengthen {P Q : S → Prop} (hQ : M.Invariant Q)
    (init : ∀ s, M.init s → P s)
    (step : ∀ s a s', Q s → P s → M.enabled s a → M.exec s a = .ok s' → P s') :
    M.Invariant P := by
  intro s hreach
  induction hreach with
  | init hinit => exact init _ hinit
  | step hr hen hex ih => exact step _ _ _ (hQ _ hr) ih hen hex

/-- The error `e` is raised by some enabled input of some reachable state. -/
def Aborts (M : Machine S A E) (e : E) : Prop :=
  ∃ s a, M.Reachable s ∧ M.enabled s a ∧ M.exec s a = .error e

/-- The runs whose every input meets `C` in the state it is given to. -/
def restrict (M : Machine S A E) (C : S → A → Prop) : Machine S A E :=
  { M with enabled := fun s a => M.enabled s a ∧ C s a }

theorem Reachable.of_restrict {C : S → A → Prop} {s : S}
    (h : (M.restrict C).Reachable s) : M.Reachable s := by
  induction h with
  | init hinit => exact .init hinit
  | step _ hen hex ih => exact .step ih hen.1 hex

theorem Reachable.restrict {C : S → A → Prop} {s : S} (h : M.Reachable s) (hC : ∀ s a, C s a) :
    (M.restrict C).Reachable s := by
  induction h with
  | init hinit => exact .init hinit
  | step _ hen hex ih => exact .step ih ⟨hen, hC _ _⟩ hex

/-- Executable check that a list of inputs is enabled at every point and ends
without aborting. -/
def runs (M : Machine S A E) [∀ s a, Decidable (M.enabled s a)] : S → List A → Option S
  | s, [] => some s
  | s, a :: as =>
      if M.enabled s a then
        match M.exec s a with
        | .ok s' => runs M s' as
        | .error _ => none
      else none

instance {C : S → A → Prop} [∀ s a, Decidable (M.enabled s a)] [∀ s a, Decidable (C s a)] (s : S)
    (a : A) : Decidable ((M.restrict C).enabled s a) :=
  inferInstanceAs (Decidable (M.enabled s a ∧ C s a))

theorem runs_cons [∀ s a, Decidable (M.enabled s a)] {as : List A} {s s' : S} {a : A}
    (hen : M.enabled s a) (hex : M.exec s a = .ok s') : M.runs s (a :: as) = M.runs s' as := by
  rw [runs, if_pos hen, hex]

theorem Reachable.of_runs [∀ s a, Decidable (M.enabled s a)] {as : List A} {s s' : S}
    (hs : M.Reachable s) (h : M.runs s as = some s') : M.Reachable s' := by
  induction as generalizing s with
  | nil =>
      simp only [runs, Option.some.injEq] at h
      exact h ▸ hs
  | cons a as ih =>
      simp only [runs] at h
      split at h
      · rename_i hen
        split at h
        · rename_i s1 hex
          exact ih (.step hs hen hex) h
        · exact absurd h (by simp)
      · exact absurd h (by simp)

/-- What an executable run from an initial state computes holds of a reachable
state. -/
theorem Reachable.exists_of_runs [∀ s a, Decidable (M.enabled s a)] {α : Type*} {f : S → α} {b : α}
    {as : List A} {s : S} (hs : M.init s) (h : (M.runs s as).map f = some b) :
    ∃ s', M.Reachable s' ∧ f s' = b := by
  obtain ⟨s', hrun, hf⟩ := Option.map_eq_some_iff.mp h
  exact ⟨s', .of_runs (.init hs) hrun, hf⟩

/-- Where each state short of `P` has a step that makes a measure smaller, some run comes to `P`. -/
theorem Reachable.exists_of_measure {P : S → Prop} (measure : S → Nat)
    (hstep : ∀ s, M.Reachable s → ¬ P s →
      ∃ a s', M.enabled s a ∧ M.exec s a = .ok s' ∧ measure s' < measure s)
    {s : S} (hs : M.Reachable s) : ∃ s', M.Reachable s' ∧ P s' := by
  induction hn : measure s using Nat.strongRecOn generalizing s with
  | ind n ih =>
      by_cases hP : P s
      · exact ⟨s, hs, hP⟩
      · obtain ⟨a, s', hen, hex, hless⟩ := hstep s hs hP
        exact ih (measure s') (hn ▸ hless) (.step hs hen hex) rfl

end Machine

theorem bind_eq_ok {ε : Type*} {α β : Type u} {x : Except ε α} {f : α → Except ε β} {b : β} :
    (x >>= f) = .ok b ↔ ∃ a, x = .ok a ∧ f a = .ok b := by
  cases x <;> simp [bind, Except.bind]

theorem bind_eq_error {ε : Type*} {α β : Type u} {x : Except ε α} {f : α → Except ε β} {e : ε} :
    (x >>= f) = .error e ↔ x = .error e ∨ ∃ a, x = .ok a ∧ f a = .error e := by
  cases x <;> simp [bind, Except.bind]

theorem star_preserves {α : Type*} {r : α → α → Prop} {P : α → Prop}
    (hstep : ∀ a b, P a → r a b → P b) {a b : α} (h : ReflTransGen r a b) (ha : P a) : P b := by
  induction h with
  | refl => exact ha
  | tail _ hr ih => exact hstep _ _ ih hr

end ProtoBridge.Lib
