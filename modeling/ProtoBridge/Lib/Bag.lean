import Mathlib.Algebra.BigOperators.Group.Finset.Basic

/-!
# Sums over indexed stores

A store is a function from indices to cells, summed over the indices in use.
Updating one cell changes the sum by that cell's contribution only; the lemmas
say so without subtraction, as balances. The second half does the same for
lists whose elements come and go at a position.
-/

namespace ProtoBridge.Lib

open Function (update update_of_ne update_self)

section Store

variable {ι α M : Type*} [DecidableEq ι] [AddCommMonoid M] {s : Finset ι} {f : ι → α} {i : ι} {a : α}

theorem update_eq {j : ι} {b : α} (h : update f i a j = b) : j = i ∧ a = b ∨ j ≠ i ∧ f j = b := by
  by_cases hj : j = i
  · subst hj
    exact .inl ⟨rfl, update_self j a f ▸ h⟩
  · exact .inr ⟨hj, update_of_ne hj a f ▸ h⟩

theorem update_same {β : Type*} (g : α → β) (h : g a = g (f i)) (j : ι) :
    g (update f i a j) = g (f j) := by
  by_cases hj : j = i
  · rw [hj, update_self, h]
  · rw [update_of_ne hj]

theorem sum_update_balance (g : ι → α → M) (hi : i ∈ s) :
    ∑ j ∈ s, g j (update f i a j) + g i (f i) = ∑ j ∈ s, g j (f j) + g i a := by
  have hrest : ∑ j ∈ s.erase i, g j (update f i a j) = ∑ j ∈ s.erase i, g j (f j) := by
    refine Finset.sum_congr rfl fun j hj => ?_
    rw [update_of_ne (Finset.ne_of_mem_erase hj)]
  rw [← Finset.add_sum_erase _ _ hi, ← Finset.add_sum_erase s (fun j => g j (f j)) hi, hrest,
    update_self]
  ac_rfl

theorem sum_update_same (g : ι → α → M) (h : g i a = g i (f i)) :
    ∑ j ∈ s, g j (update f i a j) = ∑ j ∈ s, g j (f j) := by
  refine Finset.sum_congr rfl fun j _ => ?_
  by_cases hj : j = i
  · subst hj
    rw [update_self, h]
  · rw [update_of_ne hj]

end Store

theorem balance_frame {M : Type*} [AddCommMonoid M] {a a' b b' : M} (h : a + b = a' + b')
    (x : M) : a + x + b = a' + x + b' := by
  rw [add_right_comm, h, add_right_comm]

section Lists

variable {α : Type*} {M : Type*} [AddCommMonoid M]

theorem coe_eraseIdx_add {l : List α} {i : Nat} {a : α} (h : l[i]? = some a) :
    ((l.eraseIdx i : List α) : Multiset α) + {a} = (l : Multiset α) := by
  induction l generalizing i with
  | nil => simp at h
  | cons b l ih =>
      cases i with
      | zero =>
          simp only [List.getElem?_cons_zero, Option.some.injEq] at h
          subst h
          rw [List.eraseIdx_cons_zero, add_comm, Multiset.singleton_add, Multiset.cons_coe]
      | succ i =>
          simp only [List.getElem?_cons_succ] at h
          rw [List.eraseIdx_cons_succ, ← Multiset.cons_coe, ← Multiset.cons_coe,
            Multiset.cons_add, ih h]

theorem sum_eraseIdx_add (g : α → M) {l : List α} {i : Nat} {a : α} (h : l[i]? = some a) :
    ((l.eraseIdx i).map g).sum + g a = (l.map g).sum := by
  have hmap := congrArg (fun m : Multiset α => (m.map g).sum) (coe_eraseIdx_add h)
  simpa using hmap

theorem sum_filter_of_zero (g : α → M) (p : α → Bool) {l : List α}
    (h : ∀ a ∈ l, p a = false → g a = 0) : ((l.filter p).map g).sum = (l.map g).sum := by
  induction l with
  | nil => rfl
  | cons a l ih =>
      have hl := ih fun b hb => h b (List.mem_cons_of_mem a hb)
      cases hp : p a with
      | true => simp [hp, hl]
      | false => simp [hp, hl, h a List.mem_cons_self hp]

theorem mem_sum_map {β : Type*} {g : α → Multiset β} {l : List α} {b : β} :
    b ∈ (l.map g).sum ↔ ∃ a ∈ l, b ∈ g a := by
  induction l with
  | nil => simp
  | cons a l ih => simp [ih]

theorem countP_lt_countP {p q : α → Bool} {l : List α} {a : α} (hpq : ∀ x ∈ l, p x = true → q x = true)
    (ha : a ∈ l) (hq : q a = true) (hp : p a = false) : l.countP p < l.countP q := by
  induction l with
  | nil => cases ha
  | cons b l ih =>
      have hl : ∀ x ∈ l, p x = true → q x = true := fun x hx => hpq x (List.mem_cons_of_mem b hx)
      rcases List.mem_cons.mp ha with rfl | hal
      · have := List.countP_mono_left hl
        rw [List.countP_cons_of_neg (by simp [hp]), List.countP_cons_of_pos hq]
        omega
      · have := ih hl hal
        have hb := hpq b List.mem_cons_self
        rw [List.countP_cons, List.countP_cons]
        split <;> split <;> simp_all
        omega

theorem sum_replace {κ : Type*} [DecidableEq κ] (g : α → M) (key : α → κ) {l : List α} {a b : α}
    (hnd : (l.map key).Nodup) (ha : a ∈ l) :
    ((l.map fun x => if key x = key a then b else x).map g).sum + g a = (l.map g).sum + g b := by
  induction l with
  | nil => cases ha
  | cons c l ih =>
      rw [List.map_cons, List.nodup_cons] at hnd
      rcases List.mem_cons.mp ha with rfl | hl
      · have hrest : l.map (fun x => if key x = key a then b else x) = l := by
          have hid : ∀ x ∈ l, (if key x = key a then b else x) = id x := fun x hx => by
            have hne : key x ≠ key a := fun he => hnd.1 (he ▸ List.mem_map_of_mem hx)
            rw [if_neg hne, id]
          rw [List.map_congr_left hid, List.map_id]
        simp only [List.map_cons, ↓reduceIte, List.sum_cons, hrest]
        ac_rfl
      · have hne : key c ≠ key a := fun he => hnd.1 (he ▸ List.mem_map_of_mem hl)
        simp only [List.map_cons, hne, ↓reduceIte, List.sum_cons]
        rw [add_assoc, ih hnd.2 hl, add_assoc]

theorem sum_remove {κ : Type*} [DecidableEq κ] (g : α → M) (key : α → κ) {l : List α} {a : α}
    (hnd : (l.map key).Nodup) (ha : a ∈ l) :
    ((l.filter fun x => key x ≠ key a).map g).sum + g a = (l.map g).sum := by
  induction l with
  | nil => cases ha
  | cons c l ih =>
      rw [List.map_cons, List.nodup_cons] at hnd
      rcases List.mem_cons.mp ha with rfl | hl
      · have hrest : l.filter (fun x => key x ≠ key a) = l := by
          refine List.filter_eq_self.mpr fun x hx => ?_
          have hne : key x ≠ key a := fun he => hnd.1 (he ▸ List.mem_map_of_mem hx)
          simpa using hne
        rw [List.filter_cons_of_neg (by simp), hrest, List.map_cons, List.sum_cons, add_comm]
      · have hne : key c ≠ key a := fun he => hnd.1 (he ▸ List.mem_map_of_mem hl)
        rw [List.filter_cons_of_pos (by simpa using hne), List.map_cons, List.map_cons, List.sum_cons,
          List.sum_cons, add_assoc, ih hnd.2 hl]

end Lists

theorem filterMap_snoc {β : Type*} (f : α → Option β) (l : List α) (a : α) :
    (l ++ [a]).filterMap f = l.filterMap f ++ (f a).toList := by
  cases h : f a <;> simp [h]

@[simp] theorem filterMap_singleton {β : Type*} (f : α → Option β) (a : α) :
    Multiset.filterMap f {a} = ((f a).toList : Multiset β) := by
  cases h : f a with
  | none => exact Multiset.filterMap_cons_none _ 0 h
  | some b => exact Multiset.filterMap_cons_some f _ 0 h

theorem exists_of_forall₂ {β : Type*} {R : α → β → Prop} {as : List α} {bs : List β} {b : β}
    (h : List.Forall₂ R as bs) (hb : b ∈ bs) : ∃ a ∈ as, R a b := by
  induction h with
  | nil => cases hb
  | cons hr _ ih =>
      rcases List.mem_cons.mp hb with rfl | hb
      · exact ⟨_, List.mem_cons_self, hr⟩
      · obtain ⟨a, ha, hab⟩ := ih hb
        exact ⟨a, List.mem_cons_of_mem _ ha, hab⟩

theorem snoc_split {l pre post : List α} {a b : α} (h : l ++ [b] = pre ++ a :: post) :
    (post = [] ∧ l = pre ∧ b = a) ∨ ∃ post', l = pre ++ a :: post' := by
  rcases List.eq_nil_or_concat post with rfl | ⟨post', c, rfl⟩
  · obtain ⟨hl, hlast⟩ := List.append_inj' h rfl
    exact .inl ⟨rfl, hl, List.singleton_inj.mp hlast⟩
  · rw [List.concat_eq_append, ← List.cons_append, ← List.append_assoc] at h
    exact .inr ⟨post', (List.append_inj' h rfl).1⟩

end ProtoBridge.Lib
