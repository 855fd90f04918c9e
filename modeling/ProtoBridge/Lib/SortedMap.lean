import Mathlib.Order.Lattice
import ProtoBridge.Lib.UnorderedMap

/-!
# Ordered maps

A finite map kept as a list of entries in strictly increasing order of key, which
is what an ordered associative container is to code that walks it from the front.
The order is a field: a map that is out of order cannot be built.
-/

namespace ProtoBridge.Lib

/-- Entries in strictly increasing order of key. -/
structure SortedMap (κ α : Type*) [LinearOrder κ] where
  entries : List (κ × α)
  sorted : (entries.map Prod.fst).Pairwise (· < ·)

namespace SortedMap

variable {κ α : Type*} [LinearOrder κ] {m : SortedMap κ α} {k k' : κ} {v v' : α}

/-- The map with no entry. -/
def empty : SortedMap κ α := ⟨[], .nil⟩

/-- The value at `k`. -/
def find? (m : SortedMap κ α) (k : κ) : Option α := m.entries.lookup k

/-- How many entries there are. -/
def size (m : SortedMap κ α) : Nat := m.entries.length

/-- Write the entry of `k` into an ordered list. -/
def put (k : κ) (v : α) : List (κ × α) → List (κ × α)
  | [] => [(k, v)]
  | (k', v') :: rest =>
      if k < k' then (k, v) :: (k', v') :: rest
      else if k = k' then (k, v) :: rest
      else (k', v') :: put k v rest

theorem mem_keys_put {l : List (κ × α)} :
    k' ∈ (put k v l).map Prod.fst ↔ k' = k ∨ k' ∈ l.map Prod.fst := by
  induction l with
  | nil => simp [put]
  | cons x rest ih =>
      obtain ⟨a, w⟩ := x
      simp only [put]
      split
      · simp
      · split
        · rename_i _ heq
          subst heq
          simp
        · simp only [List.map_cons, List.mem_cons, ih]
          tauto

theorem sorted_put {l : List (κ × α)} (h : (l.map Prod.fst).Pairwise (· < ·)) :
    ((put k v l).map Prod.fst).Pairwise (· < ·) := by
  induction l with
  | nil => simp [put]
  | cons x rest ih =>
      obtain ⟨a, w⟩ := x
      obtain ⟨hhead, htail⟩ := List.pairwise_cons.mp h
      simp only [put]
      split
      · rename_i hlt
        refine List.pairwise_cons.mpr ⟨?_, h⟩
        intro b hb
        rcases List.mem_cons.mp hb with rfl | hb
        · exact hlt
        · exact hlt.trans (hhead b hb)
      · split
        · rename_i _ heq
          subst heq
          exact h
        · rename_i hnlt hne
          refine List.pairwise_cons.mpr ⟨?_, ih htail⟩
          intro b hb
          rcases mem_keys_put.mp hb with rfl | hb
          · exact lt_of_le_of_ne (not_lt.mp hnlt) (Ne.symm hne)
          · exact hhead b hb

/-- Write the entry of `k`, over the old one if there is one. -/
def set (m : SortedMap κ α) (k : κ) (v : α) : SortedMap κ α :=
  ⟨put k v m.entries, sorted_put m.sorted⟩

/-- Drop entries from the front while `p` holds of the front. -/
def trim (m : SortedMap κ α) (p : κ × α → Bool) : SortedMap κ α :=
  ⟨m.entries.dropWhile p, m.sorted.sublist ((List.dropWhile_sublist p).map Prod.fst)⟩

theorem find?_eq_some : m.find? k = some v ↔ (k, v) ∈ m.entries := lookup_eq_some (m.sorted.imp ne_of_lt)

theorem find?_eq_none : m.find? k = none ↔ k ∉ m.entries.map Prod.fst := by
  constructor
  · intro h hmem
    obtain ⟨⟨a, v⟩, hv, rfl⟩ := List.mem_map.mp hmem
    rw [find?_eq_some.mpr hv] at h
    exact absurd h (by simp)
  · intro h
    cases hf : m.find? k with
    | none => rfl
    | some v => exact absurd (List.mem_map_of_mem (find?_eq_some.mp hf)) h

theorem mem_put {l : List (κ × α)} (h : (l.map Prod.fst).Pairwise (· < ·)) {x : κ × α} :
    x ∈ put k v l ↔ x = (k, v) ∨ (x.1 ≠ k ∧ x ∈ l) := by
  induction l with
  | nil => simp [put]
  | cons y rest ih =>
      obtain ⟨a, w⟩ := y
      obtain ⟨head, tail⟩ := List.pairwise_cons.mp h
      have above : ∀ z ∈ rest, a < z.1 := fun z hz => head z.1 (List.mem_map_of_mem hz)
      simp only [put]
      split
      · rename_i before
        constructor
        · intro hx
          rcases List.mem_cons.mp hx with rfl | old
          · exact .inl rfl
          · right
            refine ⟨?_, old⟩
            rintro rfl
            rcases List.mem_cons.mp old with rfl | later
            · exact lt_irrefl _ before
            · exact lt_asymm before (above x later)
        · rintro (rfl | ⟨-, hx⟩)
          · exact List.mem_cons_self
          · exact List.mem_cons_of_mem _ hx
      · split
        · rename_i _ same
          subst same
          simp only [List.mem_cons]
          constructor
          · rintro (rfl | later)
            · exact .inl rfl
            · exact .inr ⟨(above x later).ne', .inr later⟩
          · rintro (rfl | ⟨other, rfl | later⟩)
            · exact .inl rfl
            · exact absurd rfl other
            · exact .inr later
        · rename_i _ other
          simp only [List.mem_cons, ih tail]
          constructor
          · rintro (rfl | rfl | ⟨ne, later⟩)
            · exact .inr ⟨fun same => other same.symm, .inl rfl⟩
            · exact .inl rfl
            · exact .inr ⟨ne, .inr later⟩
          · rintro (rfl | ⟨ne, rfl | later⟩)
            · exact .inr (.inl rfl)
            · exact .inl rfl
            · exact .inr (.inr ⟨ne, later⟩)

theorem find?_set : (m.set k v).find? k' = if k' = k then some v else m.find? k' := by
  apply Option.ext
  intro w
  rw [find?_eq_some, set, mem_put m.sorted]
  split
  · rename_i same
    subst same
    simp [eq_comm]
  · rename_i other
    simp [other, find?_eq_some]

theorem mem_put_of_fresh {l : List (κ × α)} (hk : k ∉ l.map Prod.fst) {x : κ × α} :
    x ∈ put k v l ↔ x = (k, v) ∨ x ∈ l := by
  induction l with
  | nil => simp [put]
  | cons y rest ih =>
      obtain ⟨a, w⟩ := y
      simp only [List.map_cons, List.mem_cons, not_or] at hk
      simp only [put, if_neg hk.1]
      split
      · simp
      · simp only [List.mem_cons, ih hk.2]
        tauto

theorem length_put_of_fresh {l : List (κ × α)} (hk : k ∉ l.map Prod.fst) :
    (put k v l).length = l.length + 1 := by
  induction l with
  | nil => rfl
  | cons y rest ih =>
      obtain ⟨a, w⟩ := y
      simp only [List.map_cons, List.mem_cons, not_or] at hk
      simp only [put, if_neg hk.1]
      split
      · rfl
      · simp [ih hk.2]

theorem put_front (rest : List (κ × α)) : put k v' ((k, v) :: rest) = (k, v') :: rest := by
  simp [put]

theorem front_of_le (hk : m.find? k = some v) (hle : ∀ x ∈ m.entries, k ≤ x.1) :
    ∃ rest, m.entries = (k, v) :: rest := by
  have hmem := find?_eq_some.mp hk
  have hsorted := m.sorted
  cases hl : m.entries with
  | nil =>
      rw [hl] at hmem
      exact absurd hmem (by simp)
  | cons x rest =>
      rw [hl] at hmem hle hsorted
      rcases List.mem_cons.mp hmem with rfl | hrest
      · exact ⟨rest, rfl⟩
      · -- `x` would be both at most and at least `k`
        have hlt := (List.pairwise_cons.mp hsorted).1 k (List.mem_map_of_mem hrest)
        exact absurd (hle x (by simp)) (not_le.mpr hlt)

/-! ## Ranges -/

theorem takeWhile_lt {l : List (κ × α)} (h : (l.map Prod.fst).Pairwise (· < ·)) (k : κ) :
    l.takeWhile (fun e => e.1 < k) = l.filter fun e => e.1 < k := by
  induction l with
  | nil => rfl
  | cons x rest ih =>
      obtain ⟨head, tail⟩ := List.pairwise_cons.mp h
      by_cases hx : x.1 < k
      · rw [List.takeWhile_cons_of_pos (by simpa using hx), List.filter_cons_of_pos (by simpa using hx),
          ih tail]
      · rw [List.takeWhile_cons_of_neg (by simpa using hx), eq_comm, List.filter_eq_nil_iff]
        intro y hy hlt
        replace hlt : y.1 < k := by simpa using hlt
        rcases List.mem_cons.mp hy with rfl | hlater
        · exact hx hlt
        · exact hx ((head y.1 (List.mem_map_of_mem hlater)).trans hlt)

theorem dropWhile_lt {l : List (κ × α)} (h : (l.map Prod.fst).Pairwise (· < ·)) (k : κ) :
    l.dropWhile (fun e => e.1 < k) = l.filter fun e => k ≤ e.1 := by
  induction l with
  | nil => rfl
  | cons x rest ih =>
      obtain ⟨head, tail⟩ := List.pairwise_cons.mp h
      by_cases hx : x.1 < k
      · rw [List.dropWhile_cons_of_pos (by simpa using hx), ih tail,
          List.filter_cons_of_neg (by simpa using hx)]
      · rw [List.dropWhile_cons_of_neg (by simpa using hx), eq_comm, List.filter_eq_self]
        intro y hy
        rcases List.mem_cons.mp hy with rfl | hlater
        · simpa using hx
        · simpa using (not_lt.mp hx).trans (head y.1 (List.mem_map_of_mem hlater)).le

/-- Where the first key that is not below `k` is. -/
def lowerBound (m : SortedMap κ α) (k : κ) : Nat := (m.entries.takeWhile fun e => e.1 < k).length

theorem take_lowerBound (m : SortedMap κ α) (k : κ) :
    m.entries.take (m.lowerBound k) = m.entries.filter fun e => e.1 < k := by
  rw [← takeWhile_lt m.sorted]
  exact (List.prefix_iff_eq_take.mp (List.takeWhile_prefix _)).symm

theorem drop_lowerBound (m : SortedMap κ α) (k : κ) :
    m.entries.drop (m.lowerBound k) = m.entries.filter fun e => k ≤ e.1 := by
  rw [← dropWhile_lt m.sorted]
  have happ := List.takeWhile_append_dropWhile (p := fun e : κ × α => decide (e.1 < k)) (l := m.entries)
  conv_lhs => rw [← happ]
  exact List.drop_left

theorem lowerBound_mono (m : SortedMap κ α) (h : k ≤ k') : m.lowerBound k ≤ m.lowerBound k' := by
  unfold lowerBound
  rw [takeWhile_lt m.sorted, takeWhile_lt m.sorted]
  refine List.Sublist.length_le (List.monotone_filter_right m.entries fun e he => ?_)
  simpa using (show e.1 < k by simpa using he).trans_le h

/-- Drop the entries from one place to another. -/
def eraseRange (m : SortedMap κ α) (first last : Nat) (h : first ≤ last) : SortedMap κ α :=
  ⟨m.entries.take first ++ m.entries.drop last, by
    refine m.sorted.sublist (List.Sublist.map Prod.fst ?_)
    conv_rhs => rw [← List.take_append_drop first m.entries]
    exact (List.Sublist.refl _).append (List.drop_sublist_drop_left _ h)⟩

theorem mem_eraseRange (hle : m.lowerBound k ≤ m.lowerBound k') {x : κ × α} :
    x ∈ (m.eraseRange _ _ hle).entries ↔ x ∈ m.entries ∧ (x.1 < k ∨ k' ≤ x.1) := by
  unfold eraseRange
  rw [List.mem_append, take_lowerBound, drop_lowerBound, List.mem_filter, List.mem_filter]
  simp only [decide_eq_true_eq]
  tauto

theorem find?_eraseRange (hle : m.lowerBound k ≤ m.lowerBound k') (x : κ) :
    (m.eraseRange _ _ hle).find? x = if k ≤ x ∧ x < k' then none else m.find? x := by
  apply Option.ext
  intro w
  rw [find?_eq_some, mem_eraseRange]
  split
  · rename_i hin
    refine ⟨?_, fun h => nomatch h⟩
    rintro ⟨-, hbelow | habove⟩
    · exact absurd hin.1 (not_le.mpr hbelow)
    · exact absurd hin.2 (not_lt.mpr habove)
  · rename_i hout
    rw [find?_eq_some]
    refine ⟨fun h => h.1, fun h => ⟨h, ?_⟩⟩
    by_contra hin
    rw [not_or, not_lt, not_le] at hin
    exact hout hin

end SortedMap

end ProtoBridge.Lib
