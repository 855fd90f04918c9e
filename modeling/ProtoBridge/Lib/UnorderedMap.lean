import Mathlib.Data.List.Nodup
import Mathlib.Data.List.Perm.Basic

/-!
# Unordered maps

A finite map kept as a list of entries with distinct keys, in the order in which an
iteration meets them. That no key stands twice is a field. An insertion may leave the
entries in any order, as a hash table that grows does; what a lookup finds does not
depend on it.
-/

namespace ProtoBridge.Lib

theorem lookup_eq_some {κ α : Type*} [DecidableEq κ] {l : List (κ × α)} {k : κ} {v : α}
    (hl : (l.map Prod.fst).Nodup) : l.lookup k = some v ↔ (k, v) ∈ l := by
  constructor
  · intro h
    obtain ⟨l₁, l₂, heq, -⟩ := List.lookup_eq_some_iff.mp h
    rw [heq]
    simp
  · intro h
    have hsome : (l.lookup k).isSome := by
      rw [List.lookup_isSome_iff]
      exact ⟨_, h, by simp⟩
    obtain ⟨w, hw⟩ := Option.isSome_iff_exists.mp hsome
    obtain ⟨l₁, l₂, heq, -⟩ := List.lookup_eq_some_iff.mp hw
    have hmem : (k, w) ∈ l := by rw [heq]; simp
    rw [hw, show w = v from congrArg Prod.snd (List.inj_on_of_nodup_map hl hmem h rfl)]

/-- Where a table puts its entries when one is added: anywhere. -/
structure Layout (α : Type*) where
  place : List α → List α
  perm : ∀ l, (place l).Perm l

/-- The new entry comes last. -/
def Layout.last {α : Type*} : Layout α :=
  ⟨fun l => l.tail ++ l.head?.toList, fun l => by cases l <;> simp [List.perm_append_singleton]⟩

/-- Entries with distinct keys, in the order of iteration. -/
structure UnorderedMap (κ α : Type*) where
  entries : List (κ × α)
  nodup : (entries.map Prod.fst).Nodup

namespace UnorderedMap

variable {κ α : Type*} [DecidableEq κ] {m : UnorderedMap κ α} {k k' : κ} {v v' : α} {f : α → α}
  {layout : Layout (κ × α)}

/-- The map with no entry. -/
def empty : UnorderedMap κ α := ⟨[], .nil⟩

/-- The value at `k`. -/
def find? (m : UnorderedMap κ α) (k : κ) : Option α := m.entries.lookup k

/-- The keys, in the order of iteration. -/
def keys (m : UnorderedMap κ α) : List κ := m.entries.map Prod.fst

/-- How many entries there are. -/
def size (m : UnorderedMap κ α) : Nat := m.entries.length

/-- Drop the entry of `k`. -/
def erase (m : UnorderedMap κ α) (k : κ) : UnorderedMap κ α :=
  ⟨m.entries.filter fun e => e.1 ≠ k, (m.nodup.sublist (List.filter_sublist.map Prod.fst))⟩

/-- Add an entry, unless its key is there already. -/
def emplace (m : UnorderedMap κ α) (layout : Layout (κ × α)) (k : κ) (v : α) : UnorderedMap κ α :=
  if h : k ∈ m.keys then m
  else
    ⟨layout.place ((k, v) :: m.entries),
      ((layout.perm _).map Prod.fst).nodup_iff.mpr (List.nodup_cons.mpr ⟨h, m.nodup⟩)⟩

/-- Change the value at `k` where it stands. -/
def update (m : UnorderedMap κ α) (k : κ) (f : α → α) : UnorderedMap κ α :=
  ⟨m.entries.map fun e => if e.1 = k then (e.1, f e.2) else e, by
    have hkeys : (m.entries.map fun e => if e.1 = k then (e.1, f e.2) else e).map Prod.fst
        = m.entries.map Prod.fst := by
      rw [List.map_map]
      apply List.map_congr_left
      intro e _
      simp only [Function.comp]
      split <;> rfl
    rw [hkeys]
    exact m.nodup⟩

/-- Write the entry of `k`, over the old one if there is one. -/
def set (m : UnorderedMap κ α) (layout : Layout (κ × α)) (k : κ) (v : α) : UnorderedMap κ α :=
  if k ∈ m.keys then m.update k fun _ => v else m.emplace layout k v

theorem find?_eq_some : m.find? k = some v ↔ (k, v) ∈ m.entries := lookup_eq_some m.nodup

theorem mem_keys : k ∈ m.keys ↔ ∃ v, m.find? k = some v := by
  rw [keys, List.mem_map]
  constructor
  · rintro ⟨⟨a, v⟩, hmem, rfl⟩
    exact ⟨v, find?_eq_some.mpr hmem⟩
  · rintro ⟨v, hv⟩
    exact ⟨(k, v), find?_eq_some.mp hv, rfl⟩

theorem find?_eq_none : m.find? k = none ↔ k ∉ m.keys := by
  rw [mem_keys]
  cases m.find? k <;> simp

theorem find?_congr {m' : UnorderedMap κ α} (h : ∀ v, (k, v) ∈ m.entries ↔ (k', v) ∈ m'.entries) :
    m.find? k = m'.find? k' := by
  apply Option.ext
  intro v
  rw [find?_eq_some, find?_eq_some, h]

@[simp] theorem find?_empty : (empty : UnorderedMap κ α).find? k = none := rfl

theorem find?_erase : (m.erase k).find? k' = if k' = k then none else m.find? k' := by
  split
  · rename_i heq
    subst heq
    rw [find?_eq_none]
    simp [keys, erase]
  · rename_i hne
    apply find?_congr
    intro v
    simp [erase, hne]

theorem find?_emplace (hk : m.find? k = none) :
    (m.emplace layout k v).find? k' = if k' = k then some v else m.find? k' := by
  have hentries : (m.emplace layout k v).entries = layout.place ((k, v) :: m.entries) := by
    rw [emplace, dif_neg (find?_eq_none.mp hk)]
  split
  · rename_i heq
    subst heq
    rw [find?_eq_some, hentries, (layout.perm _).mem_iff]
    exact List.mem_cons_self
  · rename_i hne
    apply find?_congr
    intro w
    rw [hentries, (layout.perm _).mem_iff]
    simp [hne]

theorem find?_update :
    (m.update k f).find? k' = if k' = k then (m.find? k').map f else m.find? k' := by
  have hmem : ∀ v, (k', v) ∈ (m.update k f).entries ↔
      ∃ w, (k', w) ∈ m.entries ∧ v = if k' = k then f w else w := by
    intro v
    simp only [update, List.mem_map, Prod.exists]
    constructor
    · rintro ⟨a, w, hw, heq⟩
      split at heq <;> rename_i hak
      · cases heq
        exact ⟨w, hw, (if_pos hak).symm⟩
      · cases heq
        exact ⟨v, hw, (if_neg hak).symm⟩
    · rintro ⟨w, hw, rfl⟩
      refine ⟨k', w, hw, ?_⟩
      split <;> rfl
  apply Option.ext
  intro v
  rw [find?_eq_some, hmem]
  split
  · rename_i heq
    subst heq
    rw [Option.map_eq_some_iff]
    simp only [← find?_eq_some, eq_comm]
  · simp [← find?_eq_some]

theorem mem_keys_set : k' ∈ (m.set layout k v).keys ↔ k' = k ∨ k' ∈ m.keys := by
  rw [set]
  split
  · rename_i old
    rw [mem_keys, find?_update]
    split
    · rename_i same
      subst same
      obtain ⟨w, hw⟩ := mem_keys.mp old
      simp [hw]
    · rename_i other
      simp [mem_keys, other]
  · rename_i fresh
    rw [mem_keys, find?_emplace (find?_eq_none.mpr fresh)]
    split
    · rename_i same
      simp [same]
    · rename_i other
      simp [mem_keys, other]

theorem size_erase : (m.erase k).size = if (m.find? k).isSome then m.size - 1 else m.size := by
  have hcount : (m.erase k).size + m.keys.count k = m.size := by
    have hsplit := List.length_eq_countP_add_countP (fun e : κ × α => decide (e.1 ≠ k)) (l := m.entries)
    rw [size, size, hsplit, erase, List.countP_eq_length_filter, keys, List.count, List.countP_map]
    congr 1
    apply List.countP_congr
    intro e _
    simp
  split
  · rename_i hsome
    obtain ⟨v, hv⟩ := Option.isSome_iff_exists.mp hsome
    have hone : m.keys.count k = 1 := List.count_eq_one_of_mem m.nodup (mem_keys.mpr ⟨v, hv⟩)
    omega
  · rename_i hnone
    rw [List.count_eq_zero_of_not_mem (find?_eq_none.mp (by simpa using hnone))] at hcount
    omega

theorem size_emplace (hk : m.find? k = none) : (m.emplace layout k v).size = m.size + 1 := by
  rw [size, emplace, dif_neg (find?_eq_none.mp hk), (layout.perm ((k, v) :: m.entries)).length_eq]
  rfl

end UnorderedMap

end ProtoBridge.Lib
