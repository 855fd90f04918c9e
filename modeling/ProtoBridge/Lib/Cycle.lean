import Mathlib.Dynamics.PeriodicPts.Defs

/-!
# Cycles through the numbers below a bound

A map of the numbers below `n` whose iterates lead from each of them to each other
one is a single cycle: from any start the first `n` iterates are all numbers below
`n`, each once, and the next one is the start.
-/

namespace ProtoBridge.Lib

variable {n : Nat} {f next : Nat → Nat}

theorem exists_of_injective (hlt : ∀ a < n, f a < n) (hinj : ∀ a < n, ∀ b < n, f a = f b → a = b) :
    ∀ b < n, ∃ a < n, f a = b := by
  have hsurj : Set.SurjOn f (Finset.range n) (Finset.range n) := by
    refine Finset.surjOn_of_injOn_of_card_le f ?_ ?_ le_rfl
    · intro a ha
      exact Finset.mem_coe.mpr (Finset.mem_range.mpr (hlt a (Finset.mem_range.mp ha)))
    · intro a ha b hb
      exact hinj a (Finset.mem_range.mp ha) b (Finset.mem_range.mp hb)
  intro b hb
  obtain ⟨a, ha, rfl⟩ := hsurj (Finset.mem_coe.mpr (Finset.mem_range.mpr hb))
  exact ⟨a, Finset.mem_range.mp ha, rfl⟩

theorem injective_of_exists (hlt : ∀ a < n, f a < n) (hsurj : ∀ b < n, ∃ a < n, f a = b) :
    ∀ a < n, ∀ b < n, f a = f b → a = b := by
  have hinj : Set.InjOn f (Finset.range n) := by
    refine Finset.injOn_of_surjOn_of_card_le f ?_ ?_ le_rfl
    · intro a ha
      exact Finset.mem_coe.mpr (Finset.mem_range.mpr (hlt a (Finset.mem_range.mp ha)))
    · intro b hb
      obtain ⟨a, ha, rfl⟩ := hsurj b (Finset.mem_range.mp hb)
      exact ⟨a, Finset.mem_coe.mpr (Finset.mem_range.mpr ha), rfl⟩
  intro a ha b hb
  exact hinj (Finset.mem_coe.mpr (Finset.mem_range.mpr ha)) (Finset.mem_coe.mpr (Finset.mem_range.mpr hb))

theorem map_perm_range (hlt : ∀ a < n, f a < n) (hinj : ∀ a < n, ∀ b < n, f a = f b → a = b) :
    ((List.range n).map f).Perm (List.range n) := by
  have hnodup : ((List.range n).map f).Nodup := by
    refine List.Nodup.map_on ?_ List.nodup_range
    intro a ha b hb
    exact hinj a (List.mem_range.mp ha) b (List.mem_range.mp hb)
  refine (hnodup.subperm ?_).perm_of_length_le (by simp)
  intro b hb
  obtain ⟨a, ha, rfl⟩ := List.mem_map.mp hb
  exact List.mem_range.mpr (hlt a (List.mem_range.mp ha))

theorem find?_range_of_injective {a : Nat} (hinj : ∀ a < n, ∀ b < n, f a = f b → a = b) (ha : a < n) :
    (List.range n).find? (fun b => f b = f a) = some a := by
  cases hfind : (List.range n).find? fun b => f b = f a with
  | none => exact (List.find?_eq_none.mp hfind a (List.mem_range.mpr ha) (decide_eq_true rfl)).elim
  | some b =>
      have hfits := List.find?_some hfind
      rw [hinj b (List.mem_range.mp (List.mem_of_find?_eq_some hfind)) a ha (of_decide_eq_true hfits)]

/-- `next` is one cycle through all numbers below `n`. -/
structure OneCycle (n : Nat) (next : Nat → Nat) : Prop where
  lt : ∀ a < n, next a < n
  reach : ∀ a < n, ∀ b < n, ∃ k, next^[k] a = b

namespace OneCycle

variable {a i j k : Nat}

theorem iterate_lt (h : OneCycle n next) (ha : a < n) (k : Nat) : next^[k] a < n := by
  induction k with
  | zero => exact ha
  | succ k ih =>
      rw [Function.iterate_succ_apply']
      exact h.lt _ ih

theorem injective (h : OneCycle n next) : ∀ a < n, ∀ b < n, next a = next b → a = b := by
  refine injective_of_exists h.lt fun b hb => ?_
  obtain ⟨k, hk⟩ := h.reach (next b) (h.lt b hb) b hb
  refine ⟨next^[k] b, h.iterate_lt hb k, ?_⟩
  rw [← Function.iterate_succ_apply' next, Function.iterate_succ_apply]
  exact hk

theorem cancel (h : OneCycle n next) (ha : a < n) (heq : next^[i + k] a = next^[j + k] a) :
    next^[i] a = next^[j] a := by
  induction k with
  | zero => exact heq
  | succ k ih =>
      rw [← Nat.add_assoc, ← Nat.add_assoc, Function.iterate_succ_apply',
        Function.iterate_succ_apply'] at heq
      exact ih (h.injective _ (h.iterate_lt ha _) _ (h.iterate_lt ha _) heq)

theorem le_of_return (h : OneCycle n next) (ha : a < n) (hk : 0 < k) (hreturn : next^[k] a = a) :
    n ≤ k := by
  have hcover : Finset.range n ⊆ (Finset.range k).image fun i => next^[i] a := by
    intro b hb
    obtain ⟨i, rfl⟩ := h.reach a ha b (Finset.mem_range.mp hb)
    refine Finset.mem_image.mpr ⟨i % k, Finset.mem_range.mpr (Nat.mod_lt i hk), ?_⟩
    exact Function.IsPeriodicPt.iterate_mod_apply hreturn i
  calc n = (Finset.range n).card := (Finset.card_range n).symm
    _ ≤ ((Finset.range k).image fun i => next^[i] a).card := Finset.card_le_card hcover
    _ ≤ (Finset.range k).card := Finset.card_image_le
    _ = k := Finset.card_range k

theorem iterate_injective (h : OneCycle n next) (ha : a < n) (hi : i < n) (hj : j < n)
    (heq : next^[i] a = next^[j] a) : i = j := by
  rcases Nat.lt_trichotomy i j with hlt | heq' | hlt
  · have hreturn : next^[j - i] a = a := by
      refine h.cancel (i := j - i) (j := 0) (k := i) ha ?_
      rw [Nat.sub_add_cancel hlt.le, Nat.zero_add, heq]
    have := h.le_of_return ha (by omega) hreturn
    omega
  · exact heq'
  · have hreturn : next^[i - j] a = a := by
      refine h.cancel (i := i - j) (j := 0) (k := j) ha ?_
      rw [Nat.sub_add_cancel hlt.le, Nat.zero_add, heq]
    have := h.le_of_return ha (by omega) hreturn
    omega

theorem iterate_ne (h : OneCycle n next) (ha : a < n) (hk : k + 1 < n) : next^[k + 1] a ≠ a := by
  intro hreturn
  have := h.le_of_return ha (Nat.succ_pos k) hreturn
  omega

theorem note (h : OneCycle n next) (ha : a < n) (hk : k < n) {table : Nat → Nat}
    (htable : ∀ i < k, table (next^[i] a) = i) :
    ∀ i < k + 1, Function.update table (next^[k] a) k (next^[i] a) = i := by
  intro i hi
  by_cases hik : i = k
  · rw [hik, Function.update_self]
  · rw [Function.update_of_ne fun heq => hik (h.iterate_injective ha (by omega) hk heq)]
    exact htable i (by omega)

theorem exists_iterate (h : OneCycle n next) (ha : a < n) : ∀ b < n, ∃ k < n, next^[k] a = b :=
  exists_of_injective (fun k _ => h.iterate_lt ha k) fun _ hi _ hj => h.iterate_injective ha hi hj

theorem iterate_self (h : OneCycle n next) (ha : a < n) : next^[n] a = a := by
  obtain ⟨k, hk, heq⟩ := h.exists_iterate ha _ (h.iterate_lt ha n)
  rcases Nat.eq_zero_or_pos k with rfl | hpos
  · exact heq.symm
  · have hcancel : next^[k - 1] a = next^[n - 1] a := by
      refine h.cancel (k := 1) ha ?_
      rw [Nat.sub_add_cancel hpos, Nat.sub_add_cancel (by omega), heq]
    have := h.iterate_injective ha (by omega) (by omega) hcancel
    omega

theorem congr (h : OneCycle n next) (heq : ∀ a < n, f a = next a) : OneCycle n f := by
  have hiterate : ∀ a < n, ∀ k, f^[k] a = next^[k] a := by
    intro a ha k
    induction k with
    | zero => rfl
    | succ k ih =>
        rw [Function.iterate_succ_apply', Function.iterate_succ_apply', ih,
          heq _ (h.iterate_lt ha k)]
  refine ⟨fun a ha => (heq a ha).symm ▸ h.lt a ha, ?_⟩
  intro a ha b hb
  obtain ⟨k, hk⟩ := h.reach a ha b hb
  exact ⟨k, (hiterate a ha k).trans hk⟩

theorem image (h : OneCycle n next) {place : Nat → Nat} {around : Nat → Nat}
    (hlt : ∀ a < n, place a < n) (hsurj : ∀ b < n, ∃ a < n, place a = b)
    (haround : ∀ a < n, around (place a) = place (next a)) : OneCycle n around := by
  have hiterate : ∀ a < n, ∀ k, around^[k] (place a) = place (next^[k] a) := by
    intro a ha k
    induction k with
    | zero => rfl
    | succ k ih =>
        rw [Function.iterate_succ_apply', Function.iterate_succ_apply', ih,
          haround _ (h.iterate_lt ha k)]
  constructor
  · intro b hb
    obtain ⟨a, ha, rfl⟩ := hsurj b hb
    rw [haround a ha]
    exact hlt _ (h.lt a ha)
  · intro b hb b' hb'
    obtain ⟨a, ha, rfl⟩ := hsurj b hb
    obtain ⟨a', ha', rfl⟩ := hsurj b' hb'
    obtain ⟨k, rfl⟩ := h.reach a ha a' ha'
    exact ⟨k, hiterate a ha k⟩

theorem inverse (h : OneCycle n next) {prev : Nat → Nat} (hprev : ∀ a < n, prev (next a) = a) :
    OneCycle n prev := by
  have hback : ∀ a < n, ∀ k, prev^[k] (next^[k] a) = a := by
    intro a ha k
    induction k with
    | zero => rfl
    | succ k ih =>
        rw [Function.iterate_succ_apply' next, Function.iterate_succ_apply prev,
          hprev _ (h.iterate_lt ha k)]
        exact ih
  constructor
  · intro b hb
    obtain ⟨a, ha, rfl⟩ := exists_of_injective h.lt h.injective b hb
    rw [hprev a ha]
    exact ha
  · intro a ha b hb
    obtain ⟨k, rfl⟩ := h.reach b hb a ha
    exact ⟨k, hback b hb k⟩

theorem next_eq_iff (h : OneCycle n next) (ha : a < n) {i : Nat} (hi : i < n) :
    next (next^[i] a) = a ↔ i + 1 = n := by
  rw [← Function.iterate_succ_apply' next]
  constructor
  · intro hreturn
    have := h.le_of_return ha (Nat.succ_pos i) hreturn
    omega
  · rintro rfl
    exact h.iterate_self ha

end OneCycle

theorem oneCycle_succ (hpos : 0 < n) : OneCycle n fun a => (a + 1) % n := by
  have hiterate : ∀ a < n, ∀ k, (fun a => (a + 1) % n)^[k] a = (a + k) % n := by
    intro a ha k
    induction k with
    | zero => exact (Nat.mod_eq_of_lt ha).symm
    | succ k ih => rw [Function.iterate_succ_apply', ih, Nat.mod_add_mod, Nat.add_assoc]
  refine ⟨fun a _ => Nat.mod_lt _ hpos, ?_⟩
  intro a ha b hb
  refine ⟨n - a + b, ?_⟩
  rw [hiterate a ha, ← Nat.add_assoc, Nat.add_sub_cancel' ha.le, Nat.add_mod_left,
    Nat.mod_eq_of_lt hb]

end ProtoBridge.Lib
