import Mathlib.Data.List.Basic

/-!
# First-come first-served space

A pool of bounded space with a queue of requests. Requests are granted in order
of arrival, and one that does not fit holds back those behind it. What a grant
releases is a continuation; `pump_owes` says that none is lost or duplicated.
-/

namespace ProtoBridge.Lib

universe u

/-- Space in use and the requests waiting for more. -/
structure Pool (κ : Type u) where
  capacity : Nat
  used : Nat := 0
  waiting : List (Nat × κ) := []

namespace Pool

variable {κ : Type u}

/-- Grant from the front while the front fits: what is then in use, who still
waits, and whose turn has come. -/
def serve (capacity : Nat) : Nat → List (Nat × κ) → Nat × List (Nat × κ) × List κ
  | used, [] => (used, [], [])
  | used, (bytes, k) :: rest =>
      if bytes > capacity - used then (used, (bytes, k) :: rest, [])
      else
        let r := serve capacity (used + bytes) rest
        (r.1, r.2.1, k :: r.2.2)

/-- The pool after every grant that is possible now. -/
def pump (p : Pool κ) : Pool κ :=
  { p with
    used := (serve p.capacity p.used p.waiting).1
    waiting := (serve p.capacity p.used p.waiting).2.1 }

/-- The continuations those grants release, in order. -/
def granted (p : Pool κ) : List κ := (serve p.capacity p.used p.waiting).2.2

/-- A request joins the queue. -/
def request (p : Pool κ) (bytes : Nat) (k : κ) : Pool κ :=
  { p with waiting := p.waiting ++ [(bytes, k)] }

/-- Space comes back. -/
def release (p : Pool κ) (bytes : Nat) : Pool κ := { p with used := p.used - bytes }

/-- The continuations still owed. -/
def owed (p : Pool κ) : List κ := p.waiting.map Prod.snd

theorem serve_owes (capacity used : Nat) (waiting : List (Nat × κ)) :
    (serve capacity used waiting).2.2 ++ (serve capacity used waiting).2.1.map Prod.snd =
      waiting.map Prod.snd := by
  induction waiting generalizing used with
  | nil => rfl
  | cons q rest ih =>
      obtain ⟨bytes, k⟩ := q
      simp only [serve]
      split
      · rfl
      · simp only [List.cons_append, List.map_cons, ih]

theorem pump_owes (p : Pool κ) : p.granted ++ p.pump.owed = p.owed :=
  serve_owes _ _ _

@[simp] theorem owed_request (p : Pool κ) (bytes : Nat) (k : κ) :
    (p.request bytes k).owed = p.owed ++ [k] := by
  simp [owed, request]

end Pool

end ProtoBridge.Lib
