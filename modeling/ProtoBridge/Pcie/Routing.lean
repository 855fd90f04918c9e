import ProtoBridge.Lib.Breadth
import ProtoBridge.Pcie.Route

/-!
# Routing reaches every target

`Route` is a breadth-first search that remembers the first port of each path.
`route_begins` says that the port it returns begins a shortest path. The search
reads nothing but ports and their ends (`route_congr`).
-/

namespace ProtoBridge.Pcie

open Lib Fabric

/-! ## The graph of a topology -/

/-- The links of a topology. -/
def Fabric.Topo.graph (t : Topo) : SimpleGraph Nat :=
  SimpleGraph.fromRel fun a b => ∃ p ∈ t.ports a, t.dst p = b

section Search

variable {t : Topo} {s g : Nat}

theorem graph_adj (h : t.Wf) {a b : Nat} : t.graph.Adj a b ↔ ∃ p ∈ t.ports a, t.dst p = b := by
  rw [Fabric.Topo.graph, SimpleGraph.fromRel_adj]
  constructor
  · rintro ⟨-, forth | ⟨p, hp, rfl⟩⟩
    · exact forth
    · -- Links come in opposite pairs.
      obtain ⟨lt, rfl⟩ := (h.mem_ports b p).1 hp
      exact ⟨t.reverse p, (h.mem_ports _ _).2 ⟨h.rev_lt p lt, h.rev_src p lt⟩, h.rev_dst p lt⟩
  · rintro ⟨p, hp, rfl⟩
    obtain ⟨lt, rfl⟩ := (h.mem_ports a p).1 hp
    exact ⟨h.irrefl p lt, .inl ⟨p, hp, rfl⟩⟩

/-- The port `p` of `s` begins a shortest path to `n`. -/
structure Begins (t : Topo) (s n p : Nat) : Prop where
  mem : p ∈ t.ports s
  reach : t.graph.Reachable (t.dst p) n
  dist : t.graph.dist (t.dst p) n + 1 = t.graph.dist s n

/-- What the search has noted at the nodes it found. -/
structure Labels (t : Topo) (s : Nat) (found : List Nat) (first : Nat → Option Nat) : Prop where
  found : ∀ n, n = s ∨ (first n).isSome ↔ n ∈ found
  leads : ∀ n p, first n = some p → Begins t s n p

theorem Begins.extend (h : t.Wf) {done q : List Nat} {u p : Nat} {first : Nat → Option Nat}
    (front : Front t.graph s done (u :: q)) (labels : Labels t s (done ++ u :: q) first)
    (hp : p ∈ t.ports u) (new : t.dst p ∉ done ++ u :: q) :
    ∃ x, (if u = s then some p else first u) = some x ∧ Begins t s (t.dst p) x := by
  have adj : t.graph.Adj u (t.dst p) := (graph_adj h).2 ⟨p, hp, rfl⟩
  have far := front.dist_found adj new
  by_cases here : u = s
  · subst here
    refine ⟨p, if_pos rfl, hp, SimpleGraph.Reachable.refl _, ?_⟩
    rw [far, SimpleGraph.dist_self, SimpleGraph.dist_self]
  · have isSome := ((labels.found u).2 (by simp)).resolve_left here
    obtain ⟨x, hx⟩ := Option.isSome_iff_exists.1 isSome
    have leads := labels.leads u x hx
    refine ⟨x, by rw [if_neg here, hx], leads.mem, leads.reach.trans adj.reachable, ?_⟩
    have before := leads.dist
    have upper := dist_adj_le leads.reach adj
    have first_adj : t.graph.Adj s (t.dst x) := (graph_adj h).2 ⟨x, leads.mem, rfl⟩
    have triangle := first_adj.reachable.dist_triangle_left (t.dst p)
    rw [SimpleGraph.dist_eq_one_iff_adj.2 first_adj] at triangle
    omega

/-- One node of the search: all its neighbours are found, or the target is. -/
theorem scanPorts_spec (h : t.Wf) {done : List Nat} {u : Nat} : ∀ (ps : List Nat)
    (first : Nat → Option Nat) (q : List Nat), Front t.graph s done (u :: q) →
    Labels t s (done ++ u :: q) first → g ∉ done ++ u :: q → (∀ p ∈ ps, p ∈ t.ports u) →
    match t.scanPorts s g u ps first q with
    | .ok (first', q') => Front t.graph s done (u :: q') ∧ Labels t s (done ++ u :: q') first' ∧
        g ∉ done ++ u :: q' ∧ (∀ p ∈ ps, t.dst p ∈ done ++ u :: q') ∧
        ∀ n ∈ done ++ u :: q, n ∈ done ++ u :: q'
    | .error hop => ∃ p, hop = some p ∧ Begins t s g p := by
  intro ps
  induction ps with
  | nil =>
      intro first q front labels missing _
      exact ⟨front, labels, missing, by simp, fun n hn => hn⟩
  | cons p ps ih =>
      intro first q front labels missing hps
      have hps' : ∀ x ∈ ps, x ∈ t.ports u := fun x hx => hps x (List.mem_cons_of_mem p hx)
      simp only [Topo.scanPorts]
      by_cases seen : t.dst p = s ∨ (first (t.dst p)).isSome
      · simp only [if_pos seen]
        have rest := ih first q front labels missing hps'
        cases scan : t.scanPorts s g u ps first q with
        | error hop =>
            rw [scan] at rest
            exact rest
        | ok r =>
            rw [scan] at rest
            obtain ⟨front', labels', missing', all, keeps⟩ := rest
            refine ⟨front', labels', missing', fun x hx => ?_, keeps⟩
            rcases List.mem_cons.1 hx with rfl | later
            · exact keeps _ ((labels.found _).1 seen)
            · exact all x later
      · simp only [if_neg seen]
        have hp := hps p List.mem_cons_self
        have new : t.dst p ∉ done ++ u :: q := fun found => seen ((labels.found _).2 found)
        obtain ⟨x, hop, leads⟩ := Begins.extend h front labels hp new
        by_cases target : t.dst p = g
        · simp only [if_pos target]
          exact ⟨x, hop, target ▸ leads⟩
        · simp only [if_neg target]
          have same : done ++ u :: (q ++ [t.dst p]) = (done ++ u :: q) ++ [t.dst p] := by simp
          have front' := front.discover ((graph_adj h).2 ⟨p, hp, rfl⟩) new
          have labels' : Labels t s (done ++ u :: (q ++ [t.dst p]))
              (Function.update first (t.dst p) (if u = s then some p else first u)) := by
            constructor
            · intro n
              rw [same, List.mem_append, List.mem_singleton, ← labels.found]
              by_cases this : n = t.dst p
              · subst this
                simp [hop]
              · rw [Function.update_of_ne this]
                simp [this]
            · intro n y hy
              by_cases this : n = t.dst p
              · subst this
                rw [Function.update_self, hop] at hy
                cases hy
                exact leads
              · rw [Function.update_of_ne this] at hy
                exact labels.leads n y hy
          have missing' : g ∉ done ++ u :: (q ++ [t.dst p]) := by
            rw [same, List.mem_append, List.mem_singleton]
            rintro (old | rfl)
            · exact missing old
            · exact target rfl
          have rest := ih _ _ front' labels' missing' hps'
          cases scan : t.scanPorts s g u ps
              (Function.update first (t.dst p) (if u = s then some p else first u))
              (q ++ [t.dst p]) with
          | error hop' =>
              rw [scan] at rest
              exact rest
          | ok r =>
              rw [scan] at rest
              obtain ⟨front'', labels'', missing'', all, keeps⟩ := rest
              refine ⟨front'', labels'', missing'', fun y hy => ?_, fun n hn => ?_⟩
              · rcases List.mem_cons.1 hy with rfl | later
                · exact keeps _ (by simp)
                · exact all y later
              · apply keeps
                rw [same]
                exact List.mem_append_left _ hn

theorem reachable_lt (h : t.Wf) {n : Nat} (hs : s < t.numNodes) (reach : t.graph.Reachable s n) :
    n < t.numNodes := by
  by_cases here : s = n
  · exact here ▸ hs
  · obtain ⟨w, adj, -, -⟩ := exists_adj_dist reach here
    obtain ⟨p, hp, rfl⟩ := (graph_adj h).1 adj
    exact h.dst_lt ((h.mem_ports _ _).1 hp).1

/-- The search finds a target that can be reached. -/
theorem search_spec (h : t.Wf) (hs : s < t.numNodes) (reach : t.graph.Reachable s g) :
    ∀ (fuel : Nat) (first : Nat → Option Nat) (done q : List Nat), Front t.graph s done q →
    Labels t s (done ++ q) first → g ∉ done ++ q → t.numNodes < fuel + done.length →
    ∃ p, t.search s g fuel first q = some p ∧ Begins t s g p := by
  intro fuel
  induction fuel with
  | zero =>
      intro first done q front labels missing enough
      -- Every node enters the queue once.
      have sub : (done ++ q) ⊆ List.range t.numNodes := by
        intro n hn
        exact List.mem_range.2 (reachable_lt h hs (front.reach n hn))
      have few := (front.nodup.subperm sub).length_le
      rw [List.length_append, List.length_range] at few
      omega
  | succ fuel ih =>
      intro first done q front labels missing enough
      cases q with
      | nil =>
          rw [List.append_nil] at missing
          exact absurd (front.mem_of_reachable reach) missing
      | cons u q =>
          have scan := scanPorts_spec h (g := g) (t.ports u) first q front labels missing
            fun _ hp => hp
          simp only [Topo.search]
          cases result : t.scanPorts s g u (t.ports u) first q with
          | error hop =>
              rw [result] at scan
              exact scan
          | ok r =>
              obtain ⟨first', q'⟩ := r
              rw [result] at scan
              obtain ⟨front', labels', missing', all, -⟩ := scan
              have same : (done ++ [u]) ++ q' = done ++ u :: q' := by simp
              apply ih first' (done ++ [u]) q'
              · apply front'.pop
                intro w adj
                obtain ⟨p, hp, rfl⟩ := (graph_adj h).1 adj
                exact all p hp
              · rw [same]
                exact labels'
              · rw [same]
                exact missing'
              · rw [List.length_append, List.length_singleton]
                omega

theorem route_begins (h : t.Wf) (ne : s ≠ g) (reach : t.graph.Reachable s g) :
    ∃ p, t.route s g = some p ∧ Begins t s g p := by
  have hs : s < t.numNodes := by
    obtain ⟨w, adj, -, -⟩ := exists_adj_dist reach.symm ne.symm
    obtain ⟨p, hp, rfl⟩ := (graph_adj h).1 adj
    exact h.dst_lt ((h.mem_ports _ _).1 hp).1
  apply search_spec h hs reach (t.numNodes + 1) (fun _ => none) [] [s] (Front.start _ _)
  · constructor
    · simp
    · intro n p hp
      cases hp
  · simpa using ne.symm
  · simp

/-! ## What the search reads -/

theorem scanPorts_congr {t' : Topo} (hdst : t'.dst = t.dst) {u : Nat} (ps : List Nat)
    (first : Nat → Option Nat) (q : List Nat) :
    t'.scanPorts s g u ps first q = t.scanPorts s g u ps first q := by
  induction ps generalizing first q with
  | nil => rfl
  | cons p ps ih => simp only [Topo.scanPorts, hdst, ih]

theorem search_congr {t' : Topo} (hports : t'.ports = t.ports) (hdst : t'.dst = t.dst)
    {fuel fuel' : Nat} (enough : fuel ≤ fuel') {first : Nat → Option Nat} {q : List Nat} {p : Nat}
    (found : t.search s g fuel first q = some p) : t'.search s g fuel' first q = some p := by
  induction fuel generalizing fuel' first q with
  | zero => cases found
  | succ fuel ih =>
      obtain ⟨fuel', rfl⟩ : ∃ k, fuel' = k + 1 := ⟨fuel' - 1, by omega⟩
      cases q with
      | nil => cases found
      | cons u q =>
          simp only [Topo.search, hports, scanPorts_congr hdst] at found ⊢
          cases scan : t.scanPorts s g u (t.ports u) first q with
          | error hop =>
              rw [scan] at found
              exact found
          | ok r =>
              rw [scan] at found
              exact ih (by omega) found

theorem route_congr {t' : Topo} (hports : t'.ports = t.ports) (hdst : t'.dst = t.dst)
    (more : t.numNodes ≤ t'.numNodes) {p : Nat} (found : t.route s g = some p) :
    t'.route s g = some p :=
  search_congr hports hdst (by omega) found

end Search

end ProtoBridge.Pcie
