import ProtoBridge.Lib.Bag

/-!
# Sequential histories

An object with a state, and operations that return the state they find and leave
another one behind. A history lists the operations with what each returned. It is
`Legal` between two states when the operations, run one after the other, return
exactly that: the condition a linearization has to meet.
-/

namespace ProtoBridge.Lib

universe u v

variable {α : Type u} {β : Type v} (apply : α → β → β)

/-- Each operation returned the state the earlier ones left. -/
def Legal : β → List (α × β) → β → Prop
  | v, [], w => v = w
  | v, (a, returned) :: rest, w => returned = v ∧ Legal (apply a v) rest w

variable {apply} {v w : β} {h : List (α × β)}

theorem Legal.snoc (hl : Legal apply v h w) (a : α) : Legal apply v (h ++ [(a, w)]) (apply a w) := by
  induction h generalizing v with
  | nil =>
      cases hl
      exact ⟨rfl, rfl⟩
  | cons p rest ih => exact ⟨hl.1, ih hl.2⟩

/-! ## Justified entries -/

variable {ε : Type u} {Q : List ε → ε → Prop} {log : List ε} {e : ε}

/-- Every entry of a history satisfies `Q` of what was there before it. -/
def Justified (Q : List ε → ε → Prop) (log : List ε) : Prop :=
  ∀ pre e post, log = pre ++ e :: post → Q pre e

theorem Justified.nil : Justified Q [] := by
  intro pre e post h
  simp at h

theorem Justified.snoc (h : Justified Q log) (he : Q log e) : Justified Q (log ++ [e]) := by
  intro pre e' post heq
  rcases snoc_split heq with ⟨-, rfl, rfl⟩ | ⟨post', heq⟩
  · exact he
  · exact h pre e' post' heq

theorem Justified.append (h : Justified Q log) (more : List ε) (hfree : ∀ e ∈ more, ∀ pre, Q pre e) :
    Justified Q (log ++ more) := by
  induction more using List.reverseRecOn with
  | nil => rwa [List.append_nil]
  | append_singleton more e ih =>
      rw [← List.append_assoc]
      refine (ih fun e' he' => hfree e' (List.mem_append_left _ he')).snoc ?_
      exact hfree e (List.mem_append_right _ List.mem_cons_self) _

/-! ## Order of entries -/

variable {x y z : ε}

/-- An entry `x` stands before some entry `y`. -/
def Before (log : List ε) (x y : ε) : Prop := ∃ pre post, log = pre ++ y :: post ∧ x ∈ pre

/-- Some entry `y` stands between entries `x` and `z`. -/
def Between (log : List ε) (x y z : ε) : Prop :=
  ∃ pre post, log = pre ++ y :: post ∧ x ∈ pre ∧ z ∈ post

theorem before_snoc : Before (log ++ [e]) x y ↔ Before log x y ∨ e = y ∧ x ∈ log := by
  constructor
  · rintro ⟨pre, post, heq, hx⟩
    rcases snoc_split heq with ⟨-, rfl, rfl⟩ | ⟨post', heq⟩
    · exact .inr ⟨rfl, hx⟩
    · exact .inl ⟨pre, post', heq, hx⟩
  · rintro (⟨pre, post, rfl, hx⟩ | ⟨rfl, hx⟩)
    · exact ⟨pre, post ++ [e], by simp, hx⟩
    · exact ⟨log, [], rfl, hx⟩

theorem between_snoc : Between (log ++ [e]) x y z ↔ Between log x y z ∨ e = z ∧ Before log x y := by
  constructor
  · rintro ⟨pre, post, heq, hx, hz⟩
    rcases snoc_split heq with ⟨rfl, -, -⟩ | ⟨post', rfl⟩
    · cases hz
    · have hpost : post = post' ++ [e] := by
        simpa using heq.symm
      subst hpost
      rcases List.mem_append.mp hz with hz | hz
      · exact .inl ⟨pre, post', rfl, hx, hz⟩
      · exact .inr ⟨(List.mem_singleton.mp hz).symm, pre, post', rfl, hx⟩
  · rintro (⟨pre, post, rfl, hx, hz⟩ | ⟨rfl, pre, post, rfl, hx⟩)
    · exact ⟨pre, post ++ [e], by simp, hx, List.mem_append_left _ hz⟩
    · exact ⟨pre, post ++ [e], by simp, hx, by simp⟩

end ProtoBridge.Lib
