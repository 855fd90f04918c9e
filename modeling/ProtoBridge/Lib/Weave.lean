import Mathlib.Data.List.Induction

/-!
# Woven sequences

A sequence of keyed items is several chains woven together: the items of one key, in the
order in which they stand. `last` is the end of a chain; an item is either at the end of
its chain or just before another item of it.
-/

namespace ProtoBridge.Lib.Weave

variable {κ α : Type*} [DecidableEq κ] {log : List (κ × α)} {k k' : κ} {a : α} {i j : Nat}

/-- Where the items of a key stand. -/
def positions (log : List (κ × α)) (k : κ) : List Nat :=
  (List.range log.length).filter fun i => log[i]?.map Prod.fst = some k

/-- Where the last item of a key stands. -/
def last (log : List (κ × α)) (k : κ) : Option Nat := (positions log k).getLast?

theorem positions_append (log : List (κ × α)) (k k' : κ) (a : α) :
    positions (log ++ [(k', a)]) k =
      positions log k ++ if k' = k then [log.length] else [] := by
  have old : (List.range log.length).filter
      (fun i => (log ++ [(k', a)])[i]?.map Prod.fst = some k) = positions log k := by
    apply List.filter_congr
    intro i hi
    rw [List.getElem?_append_left (List.mem_range.mp hi)]
  rw [positions, List.length_append, List.length_singleton, List.range_succ, List.filter_append,
    old]
  congr 1
  simp [List.filter_cons]

@[simp] theorem last_nil : last ([] : List (κ × α)) k = none := rfl

@[simp] theorem last_append_self : last (log ++ [(k, a)]) k = some log.length := by
  simp [last, positions_append]

theorem last_append_ne (h : k' ≠ k) : last (log ++ [(k', a)]) k = last log k := by
  simp [last, positions_append, h]

theorem last_eq_some (h : last log k = some i) :
    i < log.length ∧ log[i]?.map Prod.fst = some k := by
  have mem := List.mem_of_getLast? h
  rw [positions, List.mem_filter, List.mem_range, decide_eq_true_eq] at mem
  exact mem

theorem last_lt (h : last log k = some i) : i < log.length := (last_eq_some h).1

theorem last_eq_none : last log k = none ↔ ∀ x ∈ log, x.1 ≠ k := by
  rw [last, List.getLast?_eq_none_iff, positions, List.filter_eq_nil_iff]
  constructor
  · intro h x hx same
    obtain ⟨i, hi, rfl⟩ := List.getElem_of_mem hx
    apply h i (List.mem_range.mpr hi)
    rw [List.getElem?_eq_getElem hi, decide_eq_true_eq]
    exact congrArg some same
  · intro h i hi same
    have hi := List.mem_range.mp hi
    rw [List.getElem?_eq_getElem hi, decide_eq_true_eq] at same
    exact h _ (List.getElem_mem hi) (Option.some.inj same)

theorem last_or_next (h : log[i]?.map Prod.fst = some k) :
    last log k = some i ∨
      ∃ j < log.length, log[j]?.map Prod.fst = some k ∧ i < j ∧
        last (log.take j) k = some i := by
  induction log using List.reverseRecOn with
  | nil => cases h
  | append_singleton log x ih =>
      obtain ⟨k', a⟩ := x
      rcases Nat.lt_trichotomy i log.length with hi | rfl | hi
      · rw [List.getElem?_append_left hi] at h
        rcases ih h with ends | ⟨j, hj, key, above, before⟩
        · by_cases same : k' = k
          · subst same
            right
            refine ⟨log.length, by simp, by simp, hi, ?_⟩
            rw [List.take_left]
            exact ends
          · left
            rw [last_append_ne same]
            exact ends
        · right
          refine ⟨j, by simp; omega, ?_, above, ?_⟩
          · rw [List.getElem?_append_left hj]
            exact key
          · rw [List.take_append_of_le_length (Nat.le_of_lt hj)]
            exact before
      · left
        simp only [List.getElem?_concat_length, Option.map_some, Option.some.injEq] at h
        subst h
        exact last_append_self
      · rw [List.getElem?_eq_none (by simp; omega)] at h
        cases h

end ProtoBridge.Lib.Weave
