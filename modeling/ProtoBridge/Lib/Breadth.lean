import Mathlib.Combinatorics.SimpleGraph.Metric

/-!
# Breadth-first search

`Front G s done queue` is the invariant of a breadth-first search from `s`, over any graph: the
vertices found so far are those of `done` and `queue`, those of `done` have no undiscovered
neighbour, and `queue` is sorted by distance, over at most two levels. A vertex that is found
from the head of the queue is then one step further away than the head (`dist_found`), and a
search that ends has found everything (`mem_of_reachable`).
-/

namespace ProtoBridge.Lib

open SimpleGraph

variable {V : Type*} {G : SimpleGraph V} {s u v w : V}

theorem exists_adj_dist (reach : G.Reachable s v) (ne : s ≠ v) :
    ∃ w, G.Adj w v ∧ G.Reachable s w ∧ G.dist s w + 1 = G.dist s v := by
  obtain ⟨p, length⟩ := reach.exists_walk_length_eq_dist
  have nonempty : ¬ p.Nil := Walk.not_nil_of_ne ne
  have adj := p.adj_penultimate nonempty
  have shorter := dist_le p.dropLast
  have one : G.dist p.penultimate v = 1 := dist_eq_one_iff_adj.2 adj
  have triangle := (Walk.reachable p.dropLast).dist_triangle_left v
  have drop := p.length_dropLast_add_one nonempty
  exact ⟨p.penultimate, adj, p.dropLast.reachable, by omega⟩

theorem dist_adj_le (reach : G.Reachable s u) (adj : G.Adj u v) :
    G.dist s v ≤ G.dist s u + 1 := by
  have triangle := reach.dist_triangle_left v
  rwa [dist_eq_one_iff_adj.2 adj] at triangle

/-- The state of a breadth-first search from `s`. -/
structure Front (G : SimpleGraph V) (s : V) (done queue : List V) : Prop where
  source : s ∈ done ++ queue
  nodup : (done ++ queue).Nodup
  reach : ∀ v ∈ done ++ queue, G.Reachable s v
  closed : ∀ v ∈ done, ∀ w, G.Adj v w → w ∈ done ++ queue
  sorted : queue.Pairwise fun v w => G.dist s v ≤ G.dist s w
  near : ∀ v ∈ queue, ∀ w ∈ queue, G.dist s w ≤ G.dist s v + 1

namespace Front

variable {done queue : List V}

theorem start (G : SimpleGraph V) (s : V) : Front G s [] [s] := by
  constructor
  · simp
  · simp
  · simp
  · simp
  · simp
  · simp

theorem head_le (h : Front G s done (u :: queue)) (hv : v ∈ u :: queue) :
    G.dist s u ≤ G.dist s v := by
  rcases List.mem_cons.1 hv with rfl | later
  · exact Nat.le_refl _
  · exact (List.pairwise_cons.1 h.sorted).1 v later

theorem mem_of_dist_le (h : Front G s done (u :: queue)) :
    ∀ n v, G.Reachable s v → G.dist s v = n → n ≤ G.dist s u → v ∈ done ++ u :: queue := by
  intro n
  induction n with
  | zero =>
      intro v reach dist _
      obtain rfl := reach.dist_eq_zero_iff.1 dist
      exact h.source
  | succ n ih =>
      intro v reach dist le
      have ne : s ≠ v := by
        rintro rfl
        rw [dist_self] at dist
        omega
      -- The step before is nearer than the head, so it was processed.
      obtain ⟨w, adj, reach', before⟩ := exists_adj_dist reach ne
      have found := ih w reach' (by omega) (by omega)
      rcases List.mem_append.1 found with processed | queued
      · exact h.closed w processed v adj
      · have far := h.head_le queued
        omega

theorem dist_found (h : Front G s done (u :: queue)) (adj : G.Adj u v)
    (new : v ∉ done ++ u :: queue) : G.dist s v = G.dist s u + 1 := by
  have reach : G.Reachable s u := h.reach u (by simp)
  have le := dist_adj_le reach adj
  by_contra nearer
  exact new (h.mem_of_dist_le _ v (reach.trans adj.reachable) rfl (by omega))

theorem discover (h : Front G s done (u :: queue)) (adj : G.Adj u v)
    (new : v ∉ done ++ u :: queue) : Front G s done (u :: (queue ++ [v])) := by
  have dist := h.dist_found adj new
  have head : ∀ w ∈ u :: queue, G.dist s u ≤ G.dist s w := fun w hw => h.head_le hw
  have same : done ++ u :: (queue ++ [v]) = (done ++ u :: queue) ++ [v] := by simp
  have split : ∀ w, w ∈ u :: (queue ++ [v]) ↔ w ∈ u :: queue ∨ w = v := by
    intro w
    simp [or_assoc]
  constructor
  · rw [same]
    exact List.mem_append_left _ h.source
  · rw [same]
    exact h.nodup.append (List.nodup_singleton v) (List.disjoint_singleton.2 new)
  · intro w hw
    rw [same] at hw
    rcases List.mem_append.1 hw with old | new
    · exact h.reach w old
    · obtain rfl := List.mem_singleton.1 new
      exact (h.reach u (by simp)).trans adj.reachable
  · intro w hw x hx
    rw [same]
    exact List.mem_append_left _ (h.closed w hw x hx)
  · have order : u :: (queue ++ [v]) = (u :: queue) ++ [v] := rfl
    rw [order, List.pairwise_append]
    refine ⟨h.sorted, List.pairwise_singleton _ _, ?_⟩
    intro w hw x hx
    obtain rfl := List.mem_singleton.1 hx
    rw [dist]
    exact h.near u List.mem_cons_self w hw
  · intro w hw x hx
    rcases (split w).1 hw with oldw | rfl
    · rcases (split x).1 hx with oldx | rfl
      · exact h.near w oldw x oldx
      · have far := head w oldw
        omega
    · rcases (split x).1 hx with oldx | rfl
      · have near := h.near u List.mem_cons_self x oldx
        omega
      · exact Nat.le_succ _

theorem pop (h : Front G s done (u :: queue))
    (all : ∀ w, G.Adj u w → w ∈ done ++ u :: queue) : Front G s (done ++ [u]) queue := by
  have same : (done ++ [u]) ++ queue = done ++ u :: queue := by simp
  constructor
  · rw [same]
    exact h.source
  · rw [same]
    exact h.nodup
  · rw [same]
    exact h.reach
  · intro v hv w adj
    rw [same]
    rcases List.mem_append.1 hv with old | new
    · exact h.closed v old w adj
    · obtain rfl := List.mem_singleton.1 new
      exact all w adj
  · exact h.sorted.of_cons
  · intro v hv w hw
    exact h.near v (List.mem_cons_of_mem u hv) w (List.mem_cons_of_mem u hw)

theorem mem_of_reachable (h : Front G s done []) (reach : G.Reachable s v) : v ∈ done := by
  have walk : ∀ a b, G.Walk a b → a ∈ done → b ∈ done := by
    intro a b p
    induction p with
    | nil => exact id
    | cons adj _ ih =>
        intro ha
        exact ih (by simpa using h.closed _ ha _ adj)
  obtain ⟨p⟩ := reach
  exact walk s v p (by simpa using h.source)

end Front

end ProtoBridge.Lib
