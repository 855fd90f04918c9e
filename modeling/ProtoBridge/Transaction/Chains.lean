import ProtoBridge.Lib.Weave
import ProtoBridge.Transaction.Protocol

/-!
# Graphs woven of chains

A graph to which every node was added behind the last node of its chain. `Woven` says so
of a log of keyed nodes: the nodes are those of the log, and each depends on the node
before it in its chain and on nothing else. Completed behind the ends of all chains, such a
graph is valid as soon as its waits and delays are (`Woven.validate_iff`).
-/

namespace ProtoBridge.Transaction

open Lib Lib.Weave

/-- The graph consists of the nodes of the log, chain by chain. -/
structure Graph.Woven (g : Graph) (log : List (Nat × Node)) : Prop where
  size : g.size = log.length
  node : ∀ i (h : i < log.length), g.node i =
    { log[i].2 with id := i, dependencies := (last (log.take i) log[i].1).toList }

namespace Graph.Woven

variable {g : Graph} {log : List (Nat × Node)} {k i c : Nat} {node : Node} {finals : List Nat}
  {kind : Dependency}

theorem empty : Graph.empty.Woven [] where
  size := rfl
  node _ h := absurd h (Nat.not_lt_zero _)

theorem push (h : g.Woven log) :
    (g.addNode { node with dependencies := (last log k).toList }).Woven (log ++ [(k, node)]) := by
  constructor
  · rw [size_addNode, h.size, List.length_append, List.length_singleton]
  · intro i hi
    rw [List.length_append, List.length_singleton] at hi
    rcases Nat.lt_succ_iff_lt_or_eq.mp hi with old | rfl
    · rw [node_addNode_lt (by rw [h.size]; exact old), h.node i old,
        List.take_append_of_le_length (Nat.le_of_lt old), List.getElem_append_left old]
    · have new := node_addNode_self g { node with dependencies := (last log k).toList }
      rw [h.size] at new
      rw [new, List.take_left, List.getElem_concat_length rfl]

theorem deps (h : g.Woven log) (hi : i < log.length) :
    g.deps i = (last (log.take i) log[i].1).toList := by
  rw [Graph.deps, h.node i hi]

theorem earlier (h : g.Woven log) (hi : i < log.length) : ∀ d ∈ g.deps i, d < i := by
  intro d hd
  rw [h.deps hi, Option.mem_toList] at hd
  have := last_lt hd
  rw [List.length_take] at this
  omega

/-! ## Completion -/

/-- What the completion node waits for: the ends of all chains. -/
structure Ends (log : List (Nat × Node)) (finals : List Nat) : Prop where
  mem : ∀ k i, last log k = some i → i ∈ finals
  lt : ∀ i ∈ finals, i < log.length

theorem node_complete_lt (h : g.Woven log) (hi : i < log.length) :
    (g.addCompletion finals kind).node i = g.node i := by
  rw [addCompletion, node_addNode_lt (by rw [h.size]; exact hi)]

theorem node_complete_self (h : g.Woven log) : (g.addCompletion finals kind).node log.length =
    { id := log.length, type := .complete, dependencies := finals, dependency := kind } := by
  have last := node_addNode_self g
    { type := .complete, dependencies := finals, dependency := kind }
  rw [h.size] at last
  exact last

theorem size_complete (h : g.Woven log) :
    (g.addCompletion finals kind).size = log.length + 1 := by
  rw [addCompletion, size_addNode, h.size]

/-- Every node of a chain leads to the completion node. The induction is on the nodes that
come after it. -/
theorem feeds_complete (h : g.Woven log) (ends : Ends log finals) {v : Nat}
    (hv : v < log.length) : (g.addCompletion finals kind).Feeds log.length v := by
  rcases last_or_next (k := log[v].1) (by rw [List.getElem?_eq_getElem hv]; rfl) with
    final | ⟨j, hj, key, above, before⟩
  · apply Feeds.step .self
    rw [Graph.deps, h.node_complete_self]
    exact ends.mem _ v final
  · apply Feeds.step (h.feeds_complete ends hj)
    rw [List.getElem?_eq_getElem hj] at key
    have same : log[j].1 = log[v].1 := Option.some.inj key
    rw [Graph.deps, h.node_complete_lt hj]
    show v ∈ g.deps j
    rw [h.deps hj, same, before]
    exact List.mem_singleton_self v
termination_by log.length - v

/-- A woven graph with its completion node passes the checks iff every wait has a threshold and
no delay is negative. -/
theorem validate_iff (h : g.Woven log) (kind : Dependency) (ends : Ends log finals)
    (plain : ∀ x ∈ log, x.2.type ≠ .complete) :
    (g.addCompletion finals kind).validate = .ok () ↔ ∀ x ∈ log,
      (x.2.type = .wait → x.2.targetBytes ≠ 0 ∨ x.2.targetEvents ≠ 0) ∧
        (x.2.type = .delay → 0 ≤ x.2.delay) := by
  have old : ∀ i (hi : i < log.length), (g.addCompletion finals kind).node i =
      { log[i].2 with id := i, dependencies := (last (log.take i) log[i].1).toList } := by
    intro i hi
    rw [h.node_complete_lt hi, h.node i hi]
  constructor
  · intro ok x hx
    have accepted := (validate_exact _).1.mp ok
    obtain ⟨i, hi, rfl⟩ := List.getElem_of_mem hx
    have inside : i < (g.addCompletion finals kind).size := by
      rw [h.size_complete]
      omega
    have threshold := accepted.threshold i inside
    have duration := accepted.duration i inside
    rw [old i hi] at threshold duration
    exact ⟨threshold, duration⟩
  · intro good
    apply WellBuilt.validate
    refine ⟨fun v hv => ?_, fun v hv => ?_, fun v hv => ?_, log.length, ?_, fun v hv => ?_,
      fun v hv => ?_⟩
    all_goals rw [h.size_complete] at *
    · rcases Nat.lt_succ_iff_lt_or_eq.mp hv with below | rfl
      · rw [Graph.deps, h.node_complete_lt below]
        exact h.earlier below
      · rw [Graph.deps, h.node_complete_self]
        exact ends.lt
    · rcases Nat.lt_succ_iff_lt_or_eq.mp hv with below | rfl
      · rw [old v below]
        exact (good _ (List.getElem_mem below)).1
      · rw [h.node_complete_self]
        intro isWait
        cases isWait
    · rcases Nat.lt_succ_iff_lt_or_eq.mp hv with below | rfl
      · rw [old v below]
        exact (good _ (List.getElem_mem below)).2
      · rw [h.node_complete_self]
        intro isDelay
        cases isDelay
    · exact Nat.lt_succ_self _
    · rcases Nat.lt_succ_iff_lt_or_eq.mp hv with below | rfl
      · rw [old v below]
        have chained := plain _ (List.getElem_mem below)
        constructor
        · intro isComplete
          exact absurd isComplete chained
        · rintro rfl
          exact absurd below (Nat.lt_irrefl _)
      · rw [h.node_complete_self]
        exact ⟨fun _ => rfl, fun _ => rfl⟩
    · rcases Nat.lt_succ_iff_lt_or_eq.mp hv with below | rfl
      · exact h.feeds_complete ends below
      · exact .self

end Graph.Woven

end ProtoBridge.Transaction
