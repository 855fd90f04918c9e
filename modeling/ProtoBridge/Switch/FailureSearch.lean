import ProtoBridge.Lib.Breadth
import ProtoBridge.Switch.FailureAware

/-!
# The search of the failure-aware routes

The search goes from a destination, as a node next to the switches it is attached to, to all switches. A
switch is one step closer than its distance in this graph.
-/

namespace ProtoBridge.Switch

open Lib

namespace Cluster

/-- A link that is up leads from a switch to another one. -/
def UpLink (c : Cluster) (a b : Nat) : Prop :=
  a < c.numSwitches ∧ ∃ p q, c.switchPortIsUp a p = true ∧ c.peer a p = .switch b q

/-- An endpoint is attached to a switch at a port that is up. -/
def AttachedUp (c : Cluster) (e a : Nat) : Prop :=
  ∃ p, (a, p) ∈ c.attachments e ∧ c.switchPortIsUp a p = true

/-- Links that are up lead from a switch in `k` steps to one that an endpoint is attached to. -/
inductive Leads (c : Cluster) (e : Nat) : Nat → Nat → Prop
  | here {a} : c.AttachedUp e a → Leads c e a 0
  | link {a b k} : c.UpLink a b → Leads c e b k → Leads c e a (k + 1)

/-- A switch is joined to an endpoint by links that are up. -/
def Joined (c : Cluster) (e a : Nat) : Prop := ∃ k, c.Leads e a k

/-- The distance of a switch from an endpoint is the fewest steps. -/
structure Nearest (c : Cluster) (e a k : Nat) : Prop where
  leads : c.Leads e a k
  least : ∀ j, c.Leads e a j → k ≤ j

variable {c : Cluster} {a b d k p : Nat}

theorem switchPortIsUp_iff : c.switchPortIsUp a p = true ↔ p < c.numPorts a ∧ c.linkUp a p = true := by
  unfold switchPortIsUp
  rw [Bool.and_eq_true, decide_eq_true_iff]

theorem mem_adjacency {edge : RouteEdge} : edge ∈ c.adjacency a ↔
    edge.outputPort < c.numPorts a ∧ ∃ q, c.peer a edge.outputPort = .switch edge.nextSwitch q := by
  unfold adjacency
  rw [List.mem_filterMap]
  constructor
  · rintro ⟨port, hport, hsome⟩
    split at hsome
    · rename_i next q hpeer
      cases hsome
      exact ⟨List.mem_range.mp hport, q, hpeer⟩
    · cases hsome
  · rintro ⟨hport, q, hpeer⟩
    refine ⟨edge.outputPort, List.mem_range.mpr hport, ?_⟩
    rw [hpeer]

theorem UpLink.symm (h : c.Wf) (hlink : c.UpLink a b) : c.UpLink b a := by
  obtain ⟨ha, p, q, hup, hpeer⟩ := hlink
  obtain ⟨hp, hlinkUp⟩ := switchPortIsUp_iff.mp hup
  obtain ⟨hb, hq, hback, hsame⟩ := h.link a ha p hp b q hpeer
  exact ⟨hb, q, p, switchPortIsUp_iff.mpr ⟨hq, hsame.trans hlinkUp⟩, hback⟩

theorem AttachedUp.lt (h : c.Wf) (hd : d < c.numEndpoints) (hattached : c.AttachedUp d a) :
    a < c.numSwitches := by
  obtain ⟨p, hmem, -⟩ := hattached
  exact ((h.attached d hd a p).mp hmem).1

theorem Leads.lt (h : c.Wf) (hd : d < c.numEndpoints) (hleads : c.Leads d a k) : a < c.numSwitches := by
  cases hleads with
  | here hattached => exact hattached.lt h hd
  | link hlink _ => exact hlink.1

/-! ## The graph -/

/-- The relation of the graph: from the destination to its switches, and along the links. -/
def Next (c : Cluster) (d : Nat) : Option Nat → Option Nat → Prop
  | none, some a => c.AttachedUp d a
  | some a, some b => c.UpLink a b
  | _, none => False

/-- The graph of a destination. -/
def graph (c : Cluster) (d : Nat) : SimpleGraph (Option Nat) := SimpleGraph.fromRel (c.Next d)

theorem graph_none_adj : (c.graph d).Adj none (some a) ↔ c.AttachedUp d a := by
  rw [graph, SimpleGraph.fromRel_adj]
  constructor
  · rintro ⟨-, h | h⟩
    · exact h
    · cases h
  · exact fun h => ⟨(Option.some_ne_none a).symm, .inl h⟩

theorem graph_some_adj (h : c.Wf) : (c.graph d).Adj (some a) (some b) ↔ a ≠ b ∧ c.UpLink a b := by
  rw [graph, SimpleGraph.fromRel_adj, Ne, Option.some_inj]
  constructor
  · rintro ⟨hne, hlink | hlink⟩
    · exact ⟨hne, hlink⟩
    · exact ⟨hne, hlink.symm h⟩
  · exact fun ⟨hne, hlink⟩ => ⟨hne, .inl hlink⟩

theorem Leads.dist_le (h : c.Wf) (hleads : c.Leads d a k) :
    (c.graph d).Reachable none (some a) ∧ (c.graph d).dist none (some a) ≤ k + 1 := by
  induction hleads with
  | here hattached =>
      have hadj := graph_none_adj.mpr hattached
      exact ⟨hadj.reachable, (SimpleGraph.dist_eq_one_iff_adj.mpr hadj).le⟩
  | @link a b k hlink _ ih =>
      obtain ⟨hreach, hdist⟩ := ih
      by_cases hsame : b = a
      · rw [← hsame]
        exact ⟨hreach, by omega⟩
      · have hadj := (graph_some_adj (d := d) h).mpr ⟨hsame, hlink.symm h⟩
        have hnext := dist_adj_le hreach hadj
        exact ⟨hreach.trans hadj.reachable, by omega⟩

theorem leads_of_dist (h : c.Wf) (hreach : (c.graph d).Reachable none (some a))
    (hdist : (c.graph d).dist none (some a) = k + 1) : c.Leads d a k := by
  induction k generalizing a with
  | zero =>
      obtain ⟨w, hadj, hbefore, hcloser⟩ := exists_adj_dist hreach (Option.some_ne_none a).symm
      have hw : none = w := hbefore.dist_eq_zero_iff.mp (by omega)
      rw [← hw] at hadj
      exact .here (graph_none_adj.mp hadj)
  | succ k ih =>
      obtain ⟨w, hadj, hbefore, hcloser⟩ := exists_adj_dist hreach (Option.some_ne_none a).symm
      cases w with
      | none =>
          rw [SimpleGraph.dist_self] at hcloser
          omega
      | some b =>
          exact .link (((graph_some_adj h).mp hadj).2.symm h) (ih hbefore (by omega))

theorem nearest_iff (h : c.Wf) : c.Nearest d a k ↔
    (c.graph d).Reachable none (some a) ∧ (c.graph d).dist none (some a) = k + 1 := by
  constructor
  · intro hnear
    obtain ⟨hreach, hle⟩ := hnear.leads.dist_le h
    refine ⟨hreach, ?_⟩
    have hpos := hreach.pos_dist_of_ne (Option.some_ne_none a).symm
    have hleast := hnear.least _ (leads_of_dist h hreach (Nat.sub_add_cancel hpos).symm)
    omega
  · rintro ⟨hreach, hdist⟩
    refine ⟨leads_of_dist h hreach hdist, fun j hj => ?_⟩
    obtain ⟨-, hle⟩ := hj.dist_le h
    omega

end Cluster

/-! ## The search -/

namespace Search

variable {c : Cluster} {G : SimpleGraph (Option Nat)} {done found : List (Option Nat)} {u : Option Nat}
  {s : Search} {b d k : Nat}

/-- The distances are noted for the switches found. -/
def Labelled (G : SimpleGraph (Option Nat)) (found : List (Option Nat)) (s : Search) : Prop :=
  ∀ a k, s.distance a = some k ↔ some a ∈ found ∧ G.dist none (some a) = k + 1

/-- What the search has found while it looks at the neighbors of `u`. -/
def seen (done : List (Option Nat)) (u : Option Nat) (s : Search) : List (Option Nat) :=
  done ++ u :: s.work.map some

/-- The search while it looks at the neighbors of `u`, which are found at distance `k`. -/
structure Scanning (G : SimpleGraph (Option Nat)) (done : List (Option Nat)) (u : Option Nat) (k : Nat)
    (s : Search) : Prop where
  front : Front G none done (u :: s.work.map some)
  labels : Labelled G (seen done u s) s
  depth : G.dist none u = k

theorem Labelled.not_mem (h : Labelled G found s) (hreach : ∀ v ∈ found, G.Reachable none v)
    (hnone : s.distance b = none) : some b ∉ found := by
  intro hmem
  have hpos := (hreach _ hmem).pos_dist_of_ne (Option.some_ne_none b).symm
  have hfound := (h b (G.dist none (some b) - 1)).mpr ⟨hmem, (Nat.sub_add_cancel hpos).symm⟩
  rw [hnone] at hfound
  cases hfound

theorem Scanning.discover (h : Scanning G done u k s) (hadj : G.Adj u (some b))
    (hnone : s.distance b = none) : Scanning G done u k (s.found b k) := by
  have hnew : some b ∉ done ++ u :: s.work.map some := h.labels.not_mem h.front.reach hnone
  have hdist := h.front.dist_found hadj hnew
  have hwork : (s.found b k).work.map some = s.work.map some ++ [some b] := List.map_append
  have hseen : seen done u (s.found b k) = seen done u s ++ [some b] := by
    unfold seen
    rw [hwork]
    simp
  refine ⟨?_, ?_, h.depth⟩
  · rw [hwork]
    exact h.front.discover hadj hnew
  · intro a j
    rw [hseen, List.mem_append, List.mem_singleton, Option.some_inj]
    show Function.update s.distance b (some k) a = some j ↔ _
    by_cases hab : a = b
    · rw [hab, Function.update_self, Option.some_inj, hdist, h.depth]
      constructor
      · rintro rfl
        exact ⟨.inr rfl, rfl⟩
      · exact fun hj => Nat.succ_injective hj.2
    · rw [Function.update_of_ne hab, h.labels]
      exact ⟨fun hold => ⟨.inl hold.1, hold.2⟩, fun hnow => ⟨hnow.1.resolve_right hab, hnow.2⟩⟩

/-- A loop over some neighbors of `u` finds those that it tests to be up. -/
theorem Scanning.loop {α : Type} {l : List α} {f : Search → α → Search} (node : α → Nat) (Up : α → Prop)
    (hadj : ∀ x ∈ l, Up x → u = some (node x) ∨ G.Adj u (some (node x)))
    (hf : ∀ s, Scanning G done u k s → ∀ x ∈ l, f s x = s.found (node x) k ∧ Up x ∧
      s.distance (node x) = none ∨ f s x = s ∧ (Up x → s.distance (node x) ≠ none))
    (h : Scanning G done u k s) :
    Scanning G done u k (l.foldl f s) ∧
      (∀ x ∈ l, Up x → some (node x) ∈ seen done u (l.foldl f s)) ∧
      ∀ v ∈ seen done u s, v ∈ seen done u (l.foldl f s) := by
  induction l generalizing s with
  | nil => exact ⟨h, (fun _ hmem => nomatch hmem), fun _ hv => hv⟩
  | cons x l ih =>
      have hrest := fun y hy => hadj y (List.mem_cons_of_mem x hy)
      have hrest' := fun s hs y hy => hf s hs y (List.mem_cons_of_mem x hy)
      rw [List.foldl_cons]
      rcases hf s h x List.mem_cons_self with ⟨hfound, hup, hnone⟩ | ⟨hsame, hknown⟩
      · have hnew : G.Adj u (some (node x)) := by
          rcases hadj x List.mem_cons_self hup with hself | hnew
          · -- the switch itself is found already
            have hmem : some (node x) ∈ seen done u s := by
              unfold seen
              rw [← hself]
              exact List.mem_append_right _ List.mem_cons_self
            exact absurd hmem (h.labels.not_mem h.front.reach hnone)
          · exact hnew
        rw [hfound]
        obtain ⟨hscan, hall, hkeep⟩ := ih hrest hrest' (h.discover hnew hnone)
        have hmono : ∀ v, v ∈ seen done u s ∨ v = some (node x) → v ∈ seen done u (s.found (node x) k) := by
          intro v hv
          unfold seen at hv ⊢
          rw [show (s.found (node x) k).work.map some = s.work.map some ++ [some (node x)] from
            List.map_append]
          simp only [List.mem_append, List.mem_cons, List.not_mem_nil, or_false] at hv ⊢
          tauto
        refine ⟨hscan, ?_, fun v hv => hkeep v (hmono v (.inl hv))⟩
        intro y hy hyup
        rcases List.mem_cons.mp hy with rfl | hlater
        · exact hkeep _ (hmono _ (.inr rfl))
        · exact hall y hlater hyup
      · rw [hsame]
        obtain ⟨hscan, hall, hkeep⟩ := ih hrest hrest' h
        refine ⟨hscan, ?_, hkeep⟩
        intro y hy hyup
        rcases List.mem_cons.mp hy with rfl | hlater
        · obtain ⟨j, hj⟩ := Option.ne_none_iff_exists'.mp (hknown hyup)
          exact hkeep _ ((h.labels _ _).mp hj).1
        · exact hall y hlater hyup

/-- The search between two switches. -/
structure Between (c : Cluster) (d : Nat) (done : List (Option Nat)) (s : Search) : Prop where
  front : Front (c.graph d) none done (s.work.map some)
  labels : Labelled (c.graph d) (done ++ s.work.map some) s
  root : none ∈ done

theorem Scanning.behind (h : Scanning (c.graph d) done u k s) (hroot : none ∈ done ++ [u])
    (hall : ∀ w, (c.graph d).Adj u w → w ∈ seen done u s) : Between c d (done ++ [u]) s := by
  refine ⟨h.front.pop hall, ?_, hroot⟩
  have hsame : (done ++ [u]) ++ s.work.map some = seen done u s := by
    unfold seen
    simp
  rw [hsame]
  exact h.labels

theorem between_seed (c : Cluster) (d : Nat) : Between c d [none] (seed c d) := by
  have hstart : Scanning (c.graph d) [] none 0 {} := by
    refine ⟨Front.start _ _, ?_, SimpleGraph.dist_self⟩
    intro a k
    constructor
    · intro h
      cases h
    · rintro ⟨hmem, -⟩
      unfold seen at hmem
      simp at hmem
  have hround : ∀ s, Scanning (c.graph d) [] none 0 s → ∀ x ∈ c.attachments d,
      (if c.switchPortIsUp x.1 x.2 ∧ s.distance x.1 = none then s.found x.1 0 else s) = s.found x.1 0 ∧
          c.switchPortIsUp x.1 x.2 = true ∧ s.distance x.1 = none ∨
        (if c.switchPortIsUp x.1 x.2 ∧ s.distance x.1 = none then s.found x.1 0 else s) = s ∧
          (c.switchPortIsUp x.1 x.2 = true → s.distance x.1 ≠ none) := by
    intro s _ x _
    by_cases hx : c.switchPortIsUp x.1 x.2 = true ∧ s.distance x.1 = none
    · exact .inl ⟨if_pos hx, hx.1, hx.2⟩
    · exact .inr ⟨if_neg hx, fun hup hnone => hx ⟨hup, hnone⟩⟩
  obtain ⟨hscan, hall, -⟩ := Scanning.loop Prod.fst (fun x => c.switchPortIsUp x.1 x.2 = true)
    (fun x hx hup => .inr (Cluster.graph_none_adj.mpr ⟨x.2, hx, hup⟩)) hround hstart
  refine hscan.behind List.mem_cons_self ?_
  intro w hadj
  cases w with
  | none => exact absurd hadj ((c.graph d).irrefl)
  | some a =>
      obtain ⟨p, hmem, hup⟩ := Cluster.graph_none_adj.mp hadj
      exact hall (a, p) hmem hup

/-- A round of the search. -/
theorem Between.expand (h : Between c d done s) (hc : c.Wf) {current : Nat} {rest : List Nat}
    (hd : d < c.numEndpoints) (hwork : s.work = current :: rest) :
    Between c d (done ++ [some current]) (expand c current { s with work := rest }) := by
  obtain ⟨hfront, hlabels, hroot⟩ := h
  rw [hwork, List.map_cons] at hfront hlabels
  have hmem : some current ∈ done ++ some current :: rest.map some :=
    List.mem_append_right _ List.mem_cons_self
  have hpos := (hfront.reach _ hmem).pos_dist_of_ne (Option.some_ne_none current).symm
  obtain ⟨k, hk⟩ : ∃ k, (c.graph d).dist none (some current) = k + 1 :=
    ⟨_, (Nat.sub_add_cancel hpos).symm⟩
  have hstart : Scanning (c.graph d) done (some current) (k + 1) { s with work := rest } :=
    ⟨hfront, hlabels, hk⟩
  have hlt : current < c.numSwitches :=
    (Cluster.leads_of_dist hc (hfront.reach _ hmem) hk).lt hc hd
  have hround : ∀ s, Scanning (c.graph d) done (some current) (k + 1) s → ∀ x ∈ c.adjacency current,
      (if ¬ c.switchPortIsUp current x.outputPort ∨ s.distance x.nextSwitch ≠ none then s
        else s.found x.nextSwitch ((s.distance current).getD 0 + 1)) = s.found x.nextSwitch (k + 1) ∧
          c.switchPortIsUp current x.outputPort = true ∧ s.distance x.nextSwitch = none ∨
        (if ¬ c.switchPortIsUp current x.outputPort ∨ s.distance x.nextSwitch ≠ none then s
          else s.found x.nextSwitch ((s.distance current).getD 0 + 1)) = s ∧
          (c.switchPortIsUp current x.outputPort = true → s.distance x.nextSwitch ≠ none) := by
    intro s hs x _
    by_cases hx : ¬ c.switchPortIsUp current x.outputPort = true ∨ s.distance x.nextSwitch ≠ none
    · exact .inr ⟨if_pos hx, fun hup => hx.resolve_left (not_not.mpr hup)⟩
    · have hcurrent : s.distance current = some k :=
        (hs.labels current k).mpr ⟨List.mem_append_right _ List.mem_cons_self, hk⟩
      rw [not_or, not_not, not_not] at hx
      left
      rw [if_neg (by rw [not_or, not_not, not_not]; exact hx), hcurrent]
      exact ⟨rfl, hx⟩
  have hadj : ∀ x ∈ c.adjacency current, c.switchPortIsUp current x.outputPort = true →
      some current = some x.nextSwitch ∨ (c.graph d).Adj (some current) (some x.nextSwitch) := by
    intro x hx hup
    obtain ⟨hport, q, hpeer⟩ := Cluster.mem_adjacency.mp hx
    by_cases hself : current = x.nextSwitch
    · exact .inl (congrArg some hself)
    · exact .inr ((Cluster.graph_some_adj hc).mpr ⟨hself, hlt, _, q, hup, hpeer⟩)
  obtain ⟨hscan, hall, hkeep⟩ := Scanning.loop RouteEdge.nextSwitch
    (fun x => c.switchPortIsUp current x.outputPort = true) hadj hround hstart
  refine hscan.behind (List.mem_append_left _ hroot) ?_
  intro w hw
  cases w with
  | none => exact List.mem_append_left _ hroot
  | some b =>
      obtain ⟨-, -, p, q, hup, hpeer⟩ := (Cluster.graph_some_adj hc).mp hw
      have hport := (Cluster.switchPortIsUp_iff.mp hup).1
      exact hall ⟨b, p⟩ (Cluster.mem_adjacency.mpr ⟨hport, q, hpeer⟩) hup

theorem Between.length_le (h : Between c d done s) (hc : c.Wf) (hd : d < c.numEndpoints) :
    done.length + s.work.length ≤ c.numSwitches + 1 := by
  have hsub : done ++ s.work.map some ⊆ none :: (List.range c.numSwitches).map some := by
    intro v hv
    cases v with
    | none => exact List.mem_cons_self
    | some a =>
        have hreach := h.front.reach _ hv
        have hpos := hreach.pos_dist_of_ne (Option.some_ne_none a).symm
        have hleads := Cluster.leads_of_dist hc hreach (Nat.sub_add_cancel hpos).symm
        exact List.mem_cons_of_mem _ (List.mem_map_of_mem (List.mem_range.mpr (hleads.lt hc hd)))
  have hle := (h.front.nodup.subperm hsub).length_le
  rwa [List.length_append, List.length_map, List.length_cons, List.length_map, List.length_range] at hle

theorem Between.run (h : Between c d done s) (hc : c.Wf) (hd : d < c.numEndpoints) {rounds : Nat}
    (hrounds : c.numSwitches < rounds + done.length) :
    ∃ done', Between c d done' (Search.run c rounds s) ∧ (Search.run c rounds s).work = [] := by
  induction rounds generalizing done s with
  | zero =>
      have hle := h.length_le hc hd
      exact ⟨done, h, List.length_eq_zero_iff.mp (show s.work.length = 0 by omega)⟩
  | succ rounds ih =>
      unfold Search.run
      split
      · rename_i hwork
        exact ⟨done, h, hwork⟩
      · rename_i current rest hwork
        refine ih (h.expand hc hd hwork) ?_
        rw [List.length_append, List.length_singleton]
        omega

end Search

theorem distances_eq_some {c : Cluster} (hc : c.Wf) {d a k : Nat} (hd : d < c.numEndpoints) :
    distances c d a = some k ↔ c.Nearest d a k := by
  obtain ⟨done, hend, hwork⟩ := (Search.between_seed c d).run hc hd
    (show c.numSwitches < c.numSwitches + [(none : Option Nat)].length from Nat.lt_succ_self _)
  have hlabels := hend.labels
  have hfront := hend.front
  unfold distances
  rw [hwork, List.map_nil] at hlabels hfront
  rw [List.append_nil] at hlabels
  rw [hlabels, Cluster.nearest_iff hc]
  refine and_congr_left fun _ => ⟨fun hmem => hfront.reach _ (List.mem_append_left _ hmem), ?_⟩
  exact fun hreach => hfront.mem_of_reachable hreach

theorem distances_eq_none {c : Cluster} (hc : c.Wf) {d a : Nat} (hd : d < c.numEndpoints) :
    distances c d a = none ↔ ¬ c.Joined d a := by
  constructor
  · rintro hnone ⟨k, hleads⟩
    obtain ⟨hreach, -⟩ := hleads.dist_le hc
    have hpos := hreach.pos_dist_of_ne (Option.some_ne_none a).symm
    have hnear := (Cluster.nearest_iff hc).mpr ⟨hreach, (Nat.sub_add_cancel hpos).symm⟩
    rw [(distances_eq_some hc hd).mpr hnear] at hnone
    cases hnone
  · intro hapart
    cases hdist : distances c d a with
    | none => rfl
    | some k => exact absurd ⟨k, ((distances_eq_some hc hd).mp hdist).leads⟩ hapart

end ProtoBridge.Switch
