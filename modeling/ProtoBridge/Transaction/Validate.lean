import ProtoBridge.Transaction.Graph

/-!
# Graphs that pass the checks

`validate` accepts the graphs with thresholds and durations in order, dependencies on other
nodes that form no cycle, and one completion node that every node leads to: `Acceptable` says
so without queues and counts. A graph whose nodes depend on earlier nodes only is the common
case.
-/

namespace ProtoBridge.Transaction

open Lib

namespace Graph

variable {g : Graph} {c u v : Nat}

/-- A chain of dependencies leads from `c` back to a node. -/
inductive Feeds (g : Graph) (c : Nat) : Nat → Prop
  | self : Feeds g c c
  | step {u v : Nat} : Feeds g c u → v ∈ g.deps u → Feeds g c v

/-- What a graph needs to pass the checks. -/
structure WellBuilt (g : Graph) : Prop where
  earlier : ∀ v < g.size, ∀ d ∈ g.deps v, d < v
  threshold : ∀ v < g.size, (g.node v).type = .wait →
    (g.node v).targetBytes ≠ 0 ∨ (g.node v).targetEvents ≠ 0
  duration : ∀ v < g.size, (g.node v).type = .delay → 0 ≤ (g.node v).delay
  completion : ∃ c < g.size, (∀ v < g.size, (g.node v).type = .complete ↔ v = c) ∧
    ∀ v < g.size, g.Feeds c v

/-- `u` is followed by `v`. -/
def Edge (g : Graph) (u v : Nat) : Prop := v ∈ g.successors u

/-- `u` is a dependency of `v`. -/
def DependsOn (g : Graph) (u v : Nat) : Prop := u ∈ g.deps v

/-- What the checks are for. -/
structure Acceptable (g : Graph) : Prop where
  threshold : ∀ v < g.size, (g.node v).type = .wait →
    (g.node v).targetBytes ≠ 0 ∨ (g.node v).targetEvents ≠ 0
  duration : ∀ v < g.size, (g.node v).type = .delay → 0 ≤ (g.node v).delay
  known : ∀ v < g.size, ∀ d ∈ g.deps v, d < g.size ∧ d ≠ v
  acyclic : ∀ v, ¬ Relation.TransGen g.DependsOn v v
  completion : ∃ c < g.size, (∀ v < g.size, (g.node v).type = .complete ↔ v = c) ∧
    ∀ v < g.size, Relation.ReflTransGen g.Edge v c

theorem mem_successors : v ∈ g.successors u ↔ u ∈ g.deps v := by
  rw [← List.count_pos_iff, ← List.count_pos_iff, count_successors]

theorem lt_of_deps (h : u ∈ g.deps v) : v < g.size := by
  by_contra hv
  rw [deps_of_le (Nat.le_of_not_lt hv)] at h
  cases h

theorem feeds_iff : g.Feeds c v ↔ Relation.ReflTransGen g.Edge v c := by
  constructor
  · intro h
    induction h with
    | self => exact .refl
    | step _ hv ih => exact .head (mem_successors.mpr hv) ih
  · intro h
    induction h using Relation.ReflTransGen.head_induction_on with
    | refl => exact .self
    | head hstep _ ih => exact .step ih (mem_successors.mp hstep)

/-! ## Marking backwards -/

/-- The nodes below `n` without a mark. -/
def unmarked (n : Nat) (m : Nat → Bool) : Finset Nat := (Finset.range n).filter fun v => m v = false

/-- Every marked node is still queued or has its dependencies marked. -/
def Marked (g : Graph) (s : (Nat → Bool) × List Nat) : Prop :=
  ∀ u, s.1 u = true → u ∈ s.2 ∨ ∀ d ∈ g.deps u, s.1 d = true

/-- What marking some dependencies does. -/
structure Marks (n : Nat) (ds : List Nat) (s s' : (Nat → Bool) × List Nat) : Prop where
  marked : ∀ d ∈ ds, s'.1 d = true
  keep : ∀ u, s.1 u = true → s'.1 u = true
  queue : ∀ u, s'.1 u = true → s.1 u = true ∨ u ∈ s'.2
  grow : ∀ u ∈ s.2, u ∈ s'.2
  fuel : (unmarked n s'.1).card + s'.2.length = (unmarked n s.1).card + s.2.length

variable {fuel n : Nat} {s : (Nat → Bool) × List Nat}

theorem marks_mark {d : Nat} (hd : d < n) (s : (Nat → Bool) × List Nat)
    : Marks n [d] s (mark s d) := by
  unfold mark
  split
  · rename_i hmarked
    refine ⟨?_, fun _ h => h, fun u hu => .inl hu, fun _ h => h, rfl⟩
    intro d' hd'
    rw [List.mem_singleton.mp hd']
    exact hmarked
  · rename_i hmarked
    have hfalse : s.1 d = false := by simpa using hmarked
    refine ⟨?_, ?_, ?_, ?_, ?_⟩
    · intro d' hd'
      dsimp only
      rw [List.mem_singleton.mp hd', Function.update_self]
    · intro u hu
      dsimp only
      rw [Function.update_apply]
      split
      · rfl
      · exact hu
    · intro u hu
      dsimp only at hu
      rw [Function.update_apply] at hu
      split at hu
      · rename_i hud
        exact .inr (by rw [hud]; simp)
      · exact .inl hu
    · exact fun u hu => List.mem_append_left _ hu
    · have herase : unmarked n (Function.update s.1 d true) = (unmarked n s.1).erase d := by
        ext u
        simp only [unmarked, Finset.mem_filter, Finset.mem_erase, Function.update_apply]
        by_cases hud : u = d <;> simp [hud]
      have hmem : d ∈ unmarked n s.1 := Finset.mem_filter.mpr ⟨Finset.mem_range.mpr hd, hfalse⟩
      have hpos := Finset.card_pos.mpr ⟨d, hmem⟩
      rw [herase, Finset.card_erase_of_mem hmem, List.length_append, List.length_singleton]
      omega

theorem marks_foldl {ds : List Nat} (hds : ∀ d ∈ ds, d < n) (s : (Nat → Bool) × List Nat) :
    Marks n ds s (ds.foldl mark s) := by
  induction ds generalizing s with
  | nil => exact ⟨fun d hd => (List.not_mem_nil hd).elim, fun _ h => h, fun _ h => .inl h, fun _ h => h, rfl⟩
  | cons d ds ih =>
      have hone := marks_mark (hds d List.mem_cons_self) s
      have hrest := ih (fun d hd => hds d (List.mem_cons_of_mem _ hd)) (mark s d)
      refine ⟨?_, ?_, ?_, ?_, hrest.fuel.trans hone.fuel⟩
      · intro d' hd'
        rcases List.mem_cons.mp hd' with rfl | hd'
        · exact hrest.keep d' (hone.marked d' List.mem_cons_self)
        · exact hrest.marked d' hd'
      · exact fun u hu => hrest.keep u (hone.keep u hu)
      · intro u hu
        rcases hrest.queue u hu with hu | hu
        · exact (hone.queue u hu).imp_right (hrest.grow u)
        · exact .inr hu
      · exact fun u hu => hrest.grow u (hone.grow u hu)

theorem reachesLoop_closed (hknown : ∀ v, ∀ d ∈ g.deps v, d < g.size) (h : g.Marked s)
    (hfuel : (unmarked g.size s.1).card + s.2.length < fuel) :
    (∀ u, s.1 u = true → g.reachesLoop fuel s u = true) ∧
      ∀ u, g.reachesLoop fuel s u = true → ∀ d ∈ g.deps u, g.reachesLoop fuel s d = true := by
  induction fuel generalizing s with
  | zero => omega
  | succ fuel ih =>
      cases hqueue : s.2 with
      | nil =>
        simp only [reachesLoop, hqueue]
        refine ⟨fun _ hu => hu, fun u hu => (h u hu).resolve_left ?_⟩
        rw [hqueue]
        exact List.not_mem_nil
      | cons id rest =>
        simp only [reachesLoop, hqueue]
        have hmarks := marks_foldl (hknown id) (s.1, rest)
        have hnext : g.Marked ((g.deps id).foldl mark (s.1, rest)) := by
          intro u hu
          rcases hmarks.queue u hu with hold | hnew
          · rcases h u hold with hin | hdone
            · rw [hqueue] at hin
              rcases List.mem_cons.mp hin with rfl | hin
              · exact .inr hmarks.marked
              · exact .inl (hmarks.grow u hin)
            · exact .inr fun d hd => hmarks.keep d (hdone d hd)
          · exact .inl hnew
        have hless := hmarks.fuel
        rw [hqueue, List.length_cons] at hfuel
        obtain ⟨hkeep, hclosed⟩ := ih hnext (by dsimp only at hless; omega)
        exact ⟨fun u hu => hkeep u (hmarks.keep u hu), hclosed⟩

/-- Only nodes with a property of the first ones that passes to dependencies are marked. -/
theorem reachesLoop_sound {P : Nat → Prop} (hstep : ∀ u, P u → ∀ d ∈ g.deps u, P d)
    (hmarks : ∀ u, s.1 u = true → P u) (hqueue : ∀ u ∈ s.2, P u) :
    ∀ u, g.reachesLoop fuel s u = true → P u := by
  have hmark : ∀ (ds : List Nat) (s : (Nat → Bool) × List Nat), (∀ d ∈ ds, P d) →
      (∀ u, s.1 u = true → P u) → (∀ u ∈ s.2, P u) →
      (∀ u, (ds.foldl mark s).1 u = true → P u) ∧ ∀ u ∈ (ds.foldl mark s).2, P u := by
    intro ds
    induction ds with
    | nil => exact fun s _ hmarks hqueue => ⟨hmarks, hqueue⟩
    | cons d ds ih =>
        intro s hds hmarks hqueue
        have hd := hds d List.mem_cons_self
        refine ih (mark s d) (fun d' hd' => hds d' (List.mem_cons_of_mem _ hd')) ?_ ?_
        · intro u hu
          unfold mark at hu
          split at hu
          · exact hmarks u hu
          · dsimp only at hu
            by_cases hud : u = d
            · rw [hud]
              exact hd
            · rw [Function.update_of_ne hud] at hu
              exact hmarks u hu
        · intro u hu
          unfold mark at hu
          split at hu
          · exact hqueue u hu
          · rcases List.mem_append.mp hu with hu | hu
            · exact hqueue u hu
            · rw [List.mem_singleton.mp hu]
              exact hd
  induction fuel generalizing s with
  | zero => exact hmarks
  | succ fuel ih =>
      cases hq : s.2 with
      | nil =>
          simp only [reachesLoop, hq]
          exact hmarks
      | cons id rest =>
          simp only [reachesLoop, hq]
          have hid : P id := hqueue id (by rw [hq]; exact List.mem_cons_self)
          obtain ⟨hmarks', hqueue'⟩ := hmark (g.deps id) (s.1, rest) (hstep id hid) hmarks
            fun u hu => hqueue u (by rw [hq]; exact List.mem_cons_of_mem _ hu)
          exact ih hmarks' hqueue'

theorem reachesCompletion_iff (hknown : ∀ v, ∀ d ∈ g.deps v, d < g.size) (hc : c < g.size)
    (hcompletions : g.completions = [g.node c]) (v : Nat) :
    g.reachesCompletion v = true ↔ g.Feeds c v := by
  have hreach : g.reachesCompletion = g.reachesLoop (g.size + 1) (fun v => v == c, [c]) := by
    rw [reachesCompletion, hcompletions]
    simp only [List.getLast?_singleton, Option.map_some, Option.getD_some, node_id hc]
  have hmarked : g.Marked (fun v => v == c, [c]) := by
    intro u hu
    have huc : u = c := by simpa using hu
    exact .inl (by rw [huc]; exact List.mem_cons_self)
  have hfuel : (unmarked g.size fun v => v == c).card + [c].length < g.size + 1 := by
    have hsub : unmarked g.size (fun v => v == c) = (Finset.range g.size).erase c := by
      ext u
      simp only [unmarked, Finset.mem_filter, Finset.mem_erase, beq_eq_false_iff_ne]
      exact and_comm
    have hmem := Finset.mem_range.mpr hc
    rw [hsub, Finset.card_erase_of_mem hmem, Finset.card_range, List.length_singleton]
    omega
  rw [hreach]
  constructor
  · refine reachesLoop_sound (fun u hu d hd => .step hu hd) ?_ ?_ v
    · intro u hu
      rw [show u = c by simpa using hu]
      exact .self
    · intro u hu
      rw [List.mem_singleton.mp hu]
      exact .self
  · intro h
    obtain ⟨hkeep, hclosed⟩ := reachesLoop_closed hknown hmarked hfuel
    induction h with
    | self => exact hkeep c (beq_self_eq_true c)
    | step _ hw ih => exact hclosed _ ih _ hw

/-! ## The checks -/

theorem forM_eq_ok {α ε : Type} {f : α → Except ε Unit} {l : List α} (h : ∀ a ∈ l, f a = .ok ()) :
    l.forM f = .ok () := by
  induction l with
  | nil => rfl
  | cons a l ih =>
      change (f a >>= fun _ => l.forM f) = _
      exact bind_eq_ok.mpr ⟨(), h a List.mem_cons_self,
        ih fun b hb => h b (List.mem_cons_of_mem a hb)⟩

/-- What the checks of one node establish. -/
theorem checkNode_eq_ok (hv : v < g.size) : g.checkNode (g.node v) = .ok () ↔
    ((g.node v).type = .wait → (g.node v).targetBytes ≠ 0 ∨ (g.node v).targetEvents ≠ 0) ∧
      ((g.node v).type = .delay → 0 ≤ (g.node v).delay) ∧ ∀ d ∈ g.deps v, d < g.size ∧ d ≠ v := by
  unfold checkNode
  rw [if_neg (by rw [node_id hv]; omega), node_id hv]
  constructor
  · intro h
    split at h
    · cases h
    · rename_i hthreshold
      split at h
      · cases h
      · rename_i hduration
        refine ⟨?_, ?_, ?_⟩
        · intro hwait
          by_contra hno
          simp only [ne_eq, not_or, not_not] at hno
          exact hthreshold ⟨hwait, hno⟩
        · intro hdelay
          by_contra hneg
          exact hduration ⟨hdelay, by omega⟩
        · intro d hd
          have hdep := forM_ok h d hd
          unfold checkDependency at hdep
          split at hdep
          · cases hdep
          · rename_i hknown
            split at hdep
            · cases hdep
            · rename_i hself
              exact ⟨by omega, hself⟩
  · rintro ⟨hthreshold, hduration, hdeps⟩
    rw [if_neg, if_neg]
    · refine forM_eq_ok fun d hd => ?_
      obtain ⟨hknown, hself⟩ := hdeps d hd
      unfold checkDependency
      rw [if_neg (by omega), if_neg hself]
    · rintro ⟨hdelay, hneg⟩
      have := hduration hdelay
      omega
    · rintro ⟨hwait, hbytes, hevents⟩
      rcases hthreshold hwait with hne | hne
      · exact hne hbytes
      · exact hne hevents

theorem completions_eq_singleton (hc : c < g.size) : g.completions = [g.node c] ↔
    ∀ v < g.size, (g.node v).type = .complete ↔ v = c := by
  have hmap : g.completions =
      ((List.range g.size).filter fun v => (g.node v).type = .complete).map g.node := by
    rw [Graph.completions, nodes_eq, List.filter_map]
    rfl
  have hnodup : ((List.range g.size).filter fun v => (g.node v).type = .complete).Nodup :=
    List.nodup_range.filter _
  have hmem : ∀ v, v ∈ (List.range g.size).filter (fun v => (g.node v).type = .complete) ↔
      v < g.size ∧ (g.node v).type = .complete := by
    intro v
    rw [List.mem_filter, List.mem_range, decide_eq_true_iff]
  constructor
  · intro h v hv
    rw [hmap] at h
    obtain ⟨w, hw, hnode⟩ := List.map_eq_singleton_iff.mp h
    have hwc : w = c := by
      have hwmem : w ∈ (List.range g.size).filter (fun v => (g.node v).type = .complete) := by
        rw [hw]
        exact List.mem_singleton_self w
      have hid := congrArg Node.id hnode
      rwa [node_id ((hmem w).mp hwmem).1, node_id hc] at hid
    subst hwc
    have hiff := hmem v
    rw [hw, List.mem_singleton] at hiff
    exact ⟨fun htype => hiff.mpr ⟨hv, htype⟩, fun heq => (hiff.mp heq).2⟩
  · intro h
    have hfilter : (List.range g.size).filter (fun v => (g.node v).type = .complete) = [c] := by
      refine List.perm_singleton.mp ((List.perm_ext_iff_of_nodup hnodup (List.nodup_singleton c)).mpr
        fun v => ?_)
      rw [hmem, List.mem_singleton]
      constructor
      · rintro ⟨hv, htype⟩
        exact (h v hv).mp htype
      · rintro rfl
        exact ⟨hc, (h v hc).mpr rfl⟩
    rw [hmap, hfilter, List.map_singleton]

theorem wave_start (g : Graph) : Kahn.Wave g.deps [] [] g.start := by
  refine ⟨?_, ?_, ?_⟩
  · intro v
    simp [start]
  · intro v hv
    simpa [start] using (List.mem_filter.mp hv).2
  · exact (List.nodup_range).filter _

theorem length_visited (hknown : ∀ v, ∀ d ∈ g.deps v, d < g.size) :
    g.visited.length = g.size ↔ ∀ v, ¬ Relation.TransGen g.DependsOn v v := by
  have hqueue : ∀ v ∈ g.start.queue, v < g.size := by
    intro v hv
    exact List.mem_range.mp (List.mem_filter.mp hv).1
  constructor
  · intro h
    obtain ⟨rank, hrank⟩ := Kahn.exists_rank g.count_successors g.wave_start hqueue
      (fun u v hv => lt_of_mem_successors hv) h
    exact Kahn.acyclic_of_rank (fun v d hd => lt_of_deps hd) hrank
  · intro h
    obtain ⟨rank, hrank⟩ := Kahn.exists_rank_of_acyclic (fun v _ => hknown v) h
    refine Kahn.length_run g.count_successors (fun u v hv => lt_of_mem_successors hv) hknown hrank
      g.wave_start ?_ hqueue (Nat.lt_succ_self _)
    intro v hv hzero
    exact List.mem_filter.mpr ⟨List.mem_range.mpr hv, by simpa [start] using hzero⟩

/-- What `validate` accepts, check by check. -/
theorem validate_eq_ok : g.validate = .ok () ↔
    (∀ v < g.size, g.checkNode (g.node v) = .ok ()) ∧ (∃ c < g.size, g.completions = [g.node c]) ∧
      g.visited.length = g.size ∧ ∀ v < g.size, g.reachesCompletion v = true := by
  have hshape : g.checkShape = .ok () ↔ g.completions.length = 1 ∧ g.visited.length = g.size ∧
      ∀ v < g.size, g.reachesCompletion v = true := by
    unfold checkShape
    constructor
    · intro h
      split at h
      · cases h
      · rename_i hone
        split at h
        · cases h
        · rename_i hvisited
          split at h
          · cases h
          · rename_i hreach
            simp only [List.any_eq_true, List.mem_range, Bool.not_eq_true', not_exists, not_and,
              Bool.not_eq_false] at hreach
            exact ⟨not_not.mp hone, not_not.mp hvisited, hreach⟩
    · rintro ⟨hone, hvisited, hreach⟩
      rw [if_neg (not_not.mpr hone), if_neg (not_not.mpr hvisited), if_neg]
      simp only [List.any_eq_true, List.mem_range, Bool.not_eq_true', not_exists, not_and,
        Bool.not_eq_false]
      exact hreach
  have hsingle : g.completions.length = 1 ↔ ∃ c < g.size, g.completions = [g.node c] := by
    constructor
    · intro h
      obtain ⟨node, hnode⟩ := List.length_eq_one_iff.mp h
      have hmem : node ∈ g.completions := by
        rw [hnode]
        exact List.mem_singleton_self node
      obtain ⟨i, hi, rfl⟩ := List.getElem_of_mem (List.mem_of_mem_filter hmem)
      exact ⟨i, hi, by rw [hnode, node_eq hi]⟩
    · rintro ⟨c, -, hc⟩
      rw [hc]
      rfl
  rw [← hsingle, ← hshape]
  unfold Graph.validate
  constructor
  · intro h
    split at h
    · cases h
    · obtain ⟨_, hnodes, hrest⟩ := bind_eq_ok.mp h
      exact ⟨fun v hv => forM_ok hnodes _ (node_mem hv), hrest⟩
  · rintro ⟨hnodes, hrest⟩
    have hne : g.nodes ≠ [] := by
      intro hnil
      have hone := (hshape.mp hrest).1
      rw [completions, hnil] at hone
      cases hone
    rw [if_neg hne]
    refine bind_eq_ok.mpr ⟨(), forM_eq_ok ?_, hrest⟩
    intro node hnode
    obtain ⟨i, hi, rfl⟩ := List.getElem_of_mem hnode
    rw [← node_eq hi]
    exact hnodes i hi

theorem acceptable_of_validate (h : g.validate = .ok ()) : g.Acceptable := by
  obtain ⟨hnodes, ⟨c, hc, hcompletions⟩, hvisited, hreach⟩ := validate_eq_ok.mp h
  have hchecked := fun v hv => (checkNode_eq_ok hv).mp (hnodes v hv)
  have hknown : ∀ v, ∀ d ∈ g.deps v, d < g.size := fun v d hd =>
    ((hchecked v (lt_of_deps hd)).2.2 d hd).1
  refine ⟨fun v hv => (hchecked v hv).1, fun v hv => (hchecked v hv).2.1,
    fun v hv => (hchecked v hv).2.2, (length_visited hknown).mp hvisited,
    c, hc, (completions_eq_singleton hc).mp hcompletions, ?_⟩
  intro v hv
  exact feeds_iff.mp ((reachesCompletion_iff hknown hc hcompletions v).mp (hreach v hv))

theorem Acceptable.validate (h : g.Acceptable) : g.validate = .ok () := by
  obtain ⟨c, hc, hone, hreach⟩ := h.completion
  have hcompletions := (completions_eq_singleton hc).mpr hone
  have hknown : ∀ v, ∀ d ∈ g.deps v, d < g.size := fun v d hd => (h.known v (lt_of_deps hd) d hd).1
  refine validate_eq_ok.mpr ⟨?_, ⟨c, hc, hcompletions⟩, (length_visited hknown).mpr h.acyclic, ?_⟩
  · intro v hv
    exact (checkNode_eq_ok hv).mpr ⟨h.threshold v hv, h.duration v hv, h.known v hv⟩
  · intro v hv
    exact (reachesCompletion_iff hknown hc hcompletions v).mpr (feeds_iff.mpr (hreach v hv))

theorem Acceptable.last (h : g.Acceptable) (hv : v < g.size) :
    g.successors v = [] ↔ (g.node v).type = .complete := by
  obtain ⟨c, hc, hone, hreach⟩ := h.completion
  rw [hone v hv]
  constructor
  · intro hnil
    rcases (hreach v hv).cases_head with heq | ⟨w, hw, -⟩
    · exact heq
    · rw [Edge, hnil] at hw
      cases hw
  · rintro rfl
    refine List.eq_nil_iff_forall_not_mem.mpr fun w hw => h.acyclic v ?_
    -- an edge out of the completion node would close a cycle
    have hback : Relation.ReflTransGen g.DependsOn w v :=
      (hreach w (lt_of_mem_successors hw)).lift id fun _ _ hedge => mem_successors.mp hedge
    exact .head' (mem_successors.mp hw) hback

/-- **Validation is exact.** -/
theorem validate_exact (g : Graph) : (g.validate = .ok () ↔ g.Acceptable) ∧
    (g.validate = .ok () → ∀ v < g.size, g.successors v = [] ↔ (g.node v).type = .complete) :=
  ⟨⟨acceptable_of_validate, Acceptable.validate⟩, fun h _ hv => (acceptable_of_validate h).last hv⟩

/-! ## Nodes that depend on earlier ones -/

theorem WellBuilt.acceptable (h : g.WellBuilt) : g.Acceptable := by
  obtain ⟨c, hc, hone, hfeeds⟩ := h.completion
  refine ⟨h.threshold, h.duration, ?_, ?_, c, hc, hone, fun v hv => feeds_iff.mp (hfeeds v hv)⟩
  · intro v hv d hd
    have := h.earlier v hv d hd
    omega
  · exact Kahn.acyclic_of_rank (fun v d hd => lt_of_deps hd) h.earlier

theorem WellBuilt.validate (h : g.WellBuilt) : g.validate = .ok () := h.acceptable.validate

end Graph

end ProtoBridge.Transaction
