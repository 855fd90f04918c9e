import Mathlib.Data.List.AList
import Mathlib.Data.List.Induction

/-!
# Tables written in a loop

A table starts with a default and is written entry by entry; a later entry replaces
an earlier one with the same key. The last section is about tables of unique keys whose
entries leave again.
-/

namespace ProtoBridge.Lib

variable {κ β : Type*} [DecidableEq κ]

/-- The table behind the writes. -/
def tableOf (default : κ → β) (writes : List (κ × β)) : κ → β :=
  writes.foldl (fun t w => Function.update t w.1 w.2) default

theorem tableOf_snoc (default : κ → β) (writes : List (κ × β)) (w : κ × β) :
    tableOf default (writes ++ [w]) = Function.update (tableOf default writes) w.1 w.2 := by
  rw [tableOf, List.foldl_append]
  rfl

theorem tableOf_eq {default : κ → β} {writes : List (κ × β)} {k : κ} {v : β}
    (hmem : (k, v) ∈ writes) (hagree : ∀ v', (k, v') ∈ writes → v' = v) :
    tableOf default writes k = v := by
  induction writes using List.reverseRecOn with
  | nil => cases hmem
  | append_singleton writes w ih =>
      rw [tableOf_snoc]
      by_cases hk : k = w.1
      · rw [hk, Function.update_self]
        exact hagree w.2 (List.mem_append_right _ (by rw [hk]; exact List.mem_cons_self))
      · rw [Function.update_of_ne hk]
        refine ih ?_ fun v' hv' => hagree v' (List.mem_append_left _ hv')
        rcases List.mem_append.mp hmem with hold | hnew
        · exact hold
        · rw [List.mem_singleton] at hnew
          exact absurd (congrArg Prod.fst hnew) hk

/-! ## Entries that leave -/

theorem entries_erase {m : AList (fun _ : κ => β)} {key : κ} {i : β}
    (h : m.lookup key = some i) : m.entries.Perm (⟨key, i⟩ :: (m.erase key).entries) := by
  have hmem : (⟨key, i⟩ : Sigma fun _ : κ => β) ∈ m.entries := AList.mem_lookup_iff.mp h
  obtain ⟨b, before, after, -, hentries, herase⟩ := List.exists_of_kerase (List.mem_keys_of_mem hmem)
  have hb : m.lookup key = some b := AList.mem_lookup_iff.mpr (by rw [hentries]; simp)
  rw [h] at hb
  cases hb
  change m.entries.Perm (⟨key, i⟩ :: m.entries.kerase key)
  rw [herase, hentries]
  exact List.perm_middle

end ProtoBridge.Lib
