import ProtoBridge.Lib.History

/-!
# Topological order by counting edges

The queue algorithm that takes nodes without open dependencies one at a time. A
node may name a dependency more than once; every mention is an edge of its own.
If the algorithm gets through all nodes, their order puts each node behind its
dependencies, so that the dependencies have no cycle.
-/

namespace ProtoBridge.Lib.Kahn

/-- The edges into each node that are still open, and the nodes that are ready. -/
structure State where
  degree : Nat → Nat
  queue : List Nat

/-- One edge into `v` is done with. -/
def relax (s : State) (v : Nat) : State where
  degree := Function.update s.degree v (s.degree v - 1)
  queue := if s.degree v - 1 = 0 then s.queue ++ [v] else s.queue

/-- The nodes taken from the queue, in order. -/
def run (successors : Nat → List Nat) : Nat → State → List Nat
  | 0, _ => []
  | fuel + 1, s =>
      match s.queue with
      | [] => []
      | u :: rest => u :: run successors fuel ((successors u).foldl relax { s with queue := rest })

variable {successors deps : Nat → List Nat} {s : State} {taken edges : List Nat}

/-- After taking some nodes, with some edges of the last one left to do. -/
structure Wave (deps : Nat → List Nat) (taken edges : List Nat) (s : State) : Prop where
  degree : ∀ v, s.degree v = (deps v).countP (· ∉ taken) + edges.count v
  zero : ∀ v ∈ taken ++ s.queue, s.degree v = 0
  nodup : (taken ++ s.queue).Nodup

variable {fuel n v : Nat} {rank : Nat → Nat}

theorem Wave.relax (h : Wave deps taken (v :: edges) s) :
    Wave deps taken edges (Kahn.relax s v) := by
  have hv := h.degree v
  rw [List.count_cons_self] at hv
  -- a node with an open edge is neither taken nor ready
  have hnew : v ∉ taken ++ s.queue := fun hmem => by
    have := h.zero v hmem
    omega
  refine ⟨?_, ?_, ?_⟩
  · intro w
    simp only [Kahn.relax, Function.update_apply]
    split
    · rename_i hw
      rw [hw]
      omega
    · rename_i hw
      rw [h.degree w, List.count_cons_of_ne (Ne.symm hw)]
  · intro w hw
    simp only [Kahn.relax, Function.update_apply] at hw ⊢
    split
    · rename_i hwv
      rw [hwv] at hw
      by_contra hne
      rw [if_neg hne] at hw
      exact hnew hw
    · rename_i hwv
      split at hw
      · rw [← List.append_assoc, List.mem_append, List.mem_singleton] at hw
        exact h.zero w (hw.resolve_right hwv)
      · exact h.zero w hw
  · simp only [Kahn.relax]
    split
    · rw [← List.append_assoc]
      exact List.nodup_append.mpr ⟨h.nodup, List.nodup_singleton v, fun a ha b hb hab => by
        rw [List.mem_singleton] at hb
        exact hnew (hb ▸ hab ▸ ha)⟩
    · exact h.nodup

theorem Wave.relaxAll (h : Wave deps taken edges s) : Wave deps taken [] (edges.foldl Kahn.relax s) := by
  induction edges generalizing s with
  | nil => exact h
  | cons v edges ih => exact ih h.relax

theorem Wave.take (hedges : ∀ u v, (successors u).count v = (deps v).count u) {u : Nat}
    {rest : List Nat} (h : Wave deps taken [] s) (hqueue : s.queue = u :: rest) :
    Wave deps (taken ++ [u]) (successors u) { s with queue := rest } ∧ ∀ d ∈ deps u, d ∈ taken := by
  have hnodup := h.nodup
  rw [hqueue] at hnodup
  have hu : u ∉ taken := fun hmem =>
    (List.nodup_append.mp hnodup).2.2 u hmem u List.mem_cons_self rfl
  have hmem : ∀ v, v ∈ (taken ++ [u]) ++ rest ↔ v ∈ taken ++ s.queue := by
    intro v
    rw [hqueue, List.append_assoc, List.singleton_append]
  refine ⟨⟨?_, ?_, ?_⟩, ?_⟩
  · intro v
    rw [h.degree v, List.count_nil, add_zero, hedges]
    -- the edges from `u` were open and are the ones to do now
    induction deps v with
    | nil => rfl
    | cons d ds ih =>
        by_cases hd : d = u
        · subst hd
          rw [List.countP_cons_of_pos (by simpa using hu), List.countP_cons_of_neg (by simp),
            List.count_cons_self]
          omega
        · rw [List.count_cons_of_ne hd]
          by_cases hdt : d ∈ taken
          · rw [List.countP_cons_of_neg (by simpa using hdt),
              List.countP_cons_of_neg (by simp [hdt])]
            exact ih
          · rw [List.countP_cons_of_pos (by simpa using hdt),
              List.countP_cons_of_pos (by simp [hdt, hd])]
            omega
  · intro v hv
    exact h.zero v ((hmem v).mp hv)
  · rw [List.append_assoc, List.singleton_append]
    exact hnodup
  · intro d hd
    have hzero := h.zero u (by rw [hqueue]; simp)
    rw [h.degree u, List.count_nil, add_zero, List.countP_eq_zero] at hzero
    simpa using hzero d hd

theorem run_ordered (hedges : ∀ u v, (successors u).count v = (deps v).count u) {fuel : Nat}
    (h : Wave deps taken [] s) (htaken : Justified (fun pre v => ∀ d ∈ deps v, d ∈ pre) taken) :
    (taken ++ run successors fuel s).Nodup ∧
      Justified (fun pre v => ∀ d ∈ deps v, d ∈ pre) (taken ++ run successors fuel s) := by
  induction fuel generalizing s taken with
  | zero =>
      rw [run, List.append_nil]
      exact ⟨(List.nodup_append.mp h.nodup).1, htaken⟩
  | succ fuel ih =>
      rw [run]
      split
      · rw [List.append_nil]
        exact ⟨(List.nodup_append.mp h.nodup).1, htaken⟩
      · rename_i u rest hqueue
        obtain ⟨hwave, hdeps⟩ := h.take hedges hqueue
        have hnext := ih hwave.relaxAll (htaken.snoc hdeps)
        rw [List.append_assoc, List.singleton_append] at hnext
        exact hnext

theorem mem_relaxAll (h : v ∈ (edges.foldl relax s).queue) : v ∈ s.queue ∨ v ∈ edges := by
  induction edges generalizing s with
  | nil => exact .inl h
  | cons w edges ih =>
      rcases ih h with h | h
      · simp only [relax] at h
        split at h
        · rcases List.mem_append.mp h with h | h
          · exact .inl h
          · exact .inr (List.mem_cons.mpr (.inl (List.mem_singleton.mp h)))
        · exact .inl h
      · exact .inr (List.mem_cons_of_mem w h)

theorem mem_run (h : v ∈ run successors fuel s) : v ∈ s.queue ∨ ∃ u, v ∈ successors u := by
  induction fuel generalizing s with
  | zero => cases h
  | succ fuel ih =>
      rw [run] at h
      split at h
      · cases h
      · rename_i u rest hqueue
        rcases List.mem_cons.mp h with rfl | h
        · exact .inl (by rw [hqueue]; exact List.mem_cons_self)
        · rcases ih h with h | h
          · rcases mem_relaxAll h with h | h
            · exact .inl (by rw [hqueue]; exact List.mem_cons_of_mem u h)
            · exact .inr ⟨u, h⟩
          · exact .inr h

theorem exists_rank (hedges : ∀ u v, (successors u).count v = (deps v).count u)
    (h : Wave deps [] [] s) (hqueue : ∀ v ∈ s.queue, v < n) (hsucc : ∀ u, ∀ v ∈ successors u, v < n)
    (hall : (run successors fuel s).length = n) :
    ∃ rank : Nat → Nat, ∀ v < n, ∀ d ∈ deps v, rank d < rank v := by
  obtain ⟨hnodup, hordered⟩ := @run_ordered _ _ _ _ hedges fuel h Justified.nil
  rw [List.nil_append] at hnodup hordered
  have hbound : ∀ v ∈ run successors fuel s, v < n := by
    intro v hv
    rcases mem_run hv with hv | ⟨u, hv⟩
    · exact hqueue v hv
    · exact hsucc u v hv
  refine ⟨fun v => (run successors fuel s).idxOf v, ?_⟩
  intro v hv d hd
  have hmem : v ∈ run successors fuel s := by
    have hperm : (run successors fuel s).Perm (List.range n) := by
      refine (List.subperm_of_subset hnodup fun w hw => List.mem_range.mpr (hbound w hw)).perm_of_length_le ?_
      rw [List.length_range, hall]
    exact hperm.mem_iff.mpr (List.mem_range.mpr hv)
  obtain ⟨pre, post, hsplit⟩ := List.append_of_mem hmem
  have hdpre := hordered pre v post hsplit d hd
  have hvpre : v ∉ pre := by
    rw [hsplit] at hnodup
    intro hvp
    exact (List.nodup_append.mp hnodup).2.2 v hvp v List.mem_cons_self rfl
  simp only [hsplit]
  rw [List.idxOf_append_of_mem hdpre, List.idxOf_append_of_notMem hvpre]
  have := List.idxOf_lt_length_of_mem hdpre
  omega

/-! ## Ranks and cycles -/

theorem acyclic_of_rank (hdeps : ∀ v, ∀ d ∈ deps v, v < n)
    (hrank : ∀ v < n, ∀ d ∈ deps v, rank d < rank v) (v : Nat) :
    ¬ Relation.TransGen (fun d v => d ∈ deps v) v v := by
  intro hcycle
  have hup : ∀ u w, Relation.TransGen (fun d v => d ∈ deps v) u w → rank u < rank w := by
    intro u w h
    induction h with
    | single h => exact hrank _ (hdeps _ _ h) _ h
    | tail _ h ih => exact ih.trans (hrank _ (hdeps _ _ h) _ h)
  exact lt_irrefl _ (hup v v hcycle)

theorem exists_rank_of_acyclic (hdeps : ∀ v < n, ∀ d ∈ deps v, d < n)
    (hacyclic : ∀ v, ¬ Relation.TransGen (fun d v => d ∈ deps v) v v) :
    ∃ rank : Nat → Nat, ∀ v < n, ∀ d ∈ deps v, rank d < rank v := by
  classical
  let before : Nat → Finset Nat := fun v =>
    (Finset.range n).filter fun u => Relation.TransGen (fun d v => d ∈ deps v) u v
  refine ⟨fun v => (before v).card, ?_⟩
  intro v hv d hd
  apply Finset.card_lt_card
  refine Finset.ssubset_iff_of_subset ?_ |>.mpr ⟨d, ?_, ?_⟩
  · intro u hu
    obtain ⟨hun, hud⟩ := Finset.mem_filter.mp hu
    exact Finset.mem_filter.mpr ⟨hun, hud.tail hd⟩
  · exact Finset.mem_filter.mpr ⟨Finset.mem_range.mpr (hdeps v hv d hd), .single hd⟩
  · intro hself
    exact hacyclic d (Finset.mem_filter.mp hself).2

/-! ## All nodes are taken -/

/-- No node below `n` without open edges has been forgotten. -/
def Prompt (n : Nat) (taken : List Nat) (s : State) : Prop :=
  ∀ v < n, s.degree v = 0 → v ∈ taken ++ s.queue

theorem Prompt.relaxAll (h : Prompt n taken s) : Prompt n taken (edges.foldl relax s) := by
  induction edges generalizing s with
  | nil => exact h
  | cons v edges ih =>
      refine ih fun w hw hzero => ?_
      have hgrow : ∀ x, x ∈ taken ++ s.queue → x ∈ taken ++ (relax s v).queue := by
        intro x hx
        simp only [relax]
        split
        · rw [← List.append_assoc]
          exact List.mem_append_left _ hx
        · exact hx
      simp only [relax, Function.update_apply] at hzero
      split at hzero
      · rename_i hwv
        simp only [relax, hzero, if_pos]
        rw [hwv]
        simp
      · exact hgrow w (h w hw hzero)

/-- The dependencies can be ranked: every node is taken in the end. -/
theorem mem_run_of_rank (hedges : ∀ u v, (successors u).count v = (deps v).count u)
    (hsucc : ∀ u, ∀ v ∈ successors u, v < n) (hdeps : ∀ v, ∀ d ∈ deps v, d < n)
    (hrank : ∀ v < n, ∀ d ∈ deps v, rank d < rank v) (h : Wave deps taken [] s)
    (hprompt : Prompt n taken s) (hbound : ∀ v ∈ taken ++ s.queue, v < n)
    (hfuel : n < taken.length + fuel) : ∀ v < n, v ∈ taken ++ run successors fuel s := by
  induction fuel generalizing s taken with
  | zero =>
      -- no more nodes can have been taken than there are
      exfalso
      have hsub : taken.Subperm (List.range n) := List.subperm_of_subset (List.nodup_append.mp h.nodup).1
        fun v hv => List.mem_range.mpr (hbound v (List.mem_append_left _ hv))
      have := hsub.length_le
      rw [List.length_range] at this
      omega
  | succ fuel ih =>
      rw [run]
      split
      · rename_i hqueue
        have hall : ∀ m, ∀ v < n, rank v < m → v ∈ taken := by
          intro m
          induction m with
          | zero =>
              intro v _ hv
              omega
          | succ m ihm =>
              intro v hv hlt
              have hzero : s.degree v = 0 := by
                rw [h.degree v, List.count_nil, add_zero, List.countP_eq_zero]
                intro d hd
                have := ihm d (hdeps v d hd) (by have := hrank v hv d hd; omega)
                simpa using this
              have hmem := hprompt v hv hzero
              rwa [hqueue, List.append_nil] at hmem
        intro v hv
        rw [List.append_nil]
        exact hall (rank v + 1) v hv (Nat.lt_succ_self _)
      · rename_i u rest hqueue
        obtain ⟨hwave, -⟩ := h.take hedges hqueue
        have hsame : ∀ v, v ∈ (taken ++ [u]) ++ rest ↔ v ∈ taken ++ s.queue := by
          intro v
          rw [hqueue, List.append_assoc, List.singleton_append]
        have hprompt' : Prompt n (taken ++ [u]) { s with queue := rest } := fun v hv hzero =>
          (hsame v).mpr (hprompt v hv hzero)
        have hnext := ih hwave.relaxAll hprompt'.relaxAll ?_ ?_
        · rw [List.append_assoc, List.singleton_append] at hnext
          exact hnext
        · intro v hv
          rcases List.mem_append.mp hv with hv | hv
          · exact hbound v ((hsame v).mp (List.mem_append_left _ hv))
          · rcases mem_relaxAll hv with hv | hv
            · exact hbound v ((hsame v).mp (List.mem_append_right _ hv))
            · exact hsucc u v hv
        · rw [List.length_append, List.length_singleton]
          omega

theorem length_run (hedges : ∀ u v, (successors u).count v = (deps v).count u)
    (hsucc : ∀ u, ∀ v ∈ successors u, v < n) (hdeps : ∀ v, ∀ d ∈ deps v, d < n)
    (hrank : ∀ v < n, ∀ d ∈ deps v, rank d < rank v) (h : Wave deps [] [] s)
    (hprompt : Prompt n [] s) (hbound : ∀ v ∈ s.queue, v < n) (hfuel : n < fuel)
    : (run successors fuel s).length = n := by
  have hmem : ∀ v < n, v ∈ [] ++ run successors fuel s :=
    mem_run_of_rank hedges hsucc hdeps hrank h hprompt hbound (by rw [List.length_nil]; omega)
  obtain ⟨hnodup, -⟩ := @run_ordered _ _ _ _ hedges fuel h Justified.nil
  rw [List.nil_append] at hmem hnodup
  have hperm : (run successors fuel s).Perm (List.range n) := by
    refine (List.perm_ext_iff_of_nodup hnodup List.nodup_range).mpr fun v => ?_
    rw [List.mem_range]
    refine ⟨fun hv => ?_, hmem v⟩
    rcases mem_run hv with hv | ⟨u, hv⟩
    · exact hbound v hv
    · exact hsucc u v hv
  rw [hperm.length_eq, List.length_range]

end ProtoBridge.Lib.Kahn
