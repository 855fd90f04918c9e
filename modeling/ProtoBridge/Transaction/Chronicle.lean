import ProtoBridge.Transaction.Consistency

/-!
# The history of a transaction

`Chronicle` says what the recorded events tell about the state: how often a node
left or completed, which action callbacks are due, and what each event rests on.
`Sound` joins it with the bookkeeping; every function of the executor keeps it.
-/

namespace ProtoBridge.Transaction

open Lib
open Function (update update_apply update_of_ne update_self)

/-- The event takes a node out of PENDING. -/
def Obs.leaves (id : Nat) : Obs → Bool
  | .moved i .pending _ => i == id
  | _ => false

/-- The event takes a node to COMPLETED. -/
def Obs.completes (id : Nat) : Obs → Bool
  | .moved i _ .completed => i == id
  | _ => false

/-- The action callback that was called. -/
def Obs.acted? : Obs → Option (Nat × Action)
  | .acted id action => some (id, action)
  | _ => none

/-- The action node that left PENDING. -/
def Obs.starts? (g : Graph) : Obs → Option (Nat × Action)
  | .moved i .pending _ =>
      if (g.node i).type = .action then some (i, (g.node i).action) else none
  | _ => none

/-- A node was completed. -/
def Completed (log : List Obs) (id : Nat) : Prop := ∃ e ∈ log, e.completes id = true

/-- The dependencies of a node were satisfied. -/
def Met (g : Graph) (log : List Obs) (id : Nat) : Prop :=
  match (g.node id).dependency with
  | .all => ∀ d ∈ g.deps id, Completed log d
  | .any => g.deps id = [] ∨ ∃ d ∈ g.deps id, Completed log d

/-- What an event rests on: a node leaves PENDING when its dependencies are satisfied, a wait
for a single action is active before the action's callback runs, and the completion callback
runs behind the completion node. -/
def Allowed (g : Graph) (log : List Obs) : Obs → Prop
  | .moved id old _ => old = .pending → Met g log id
  | .acted id _ => ∀ w < g.size, (g.node w).type = .wait → g.deps w ≠ [] →
      (∀ d ∈ g.deps w, d = id) → .moved w .pending .active ∈ log
  | .notified => ∃ c < g.size, (g.node c).type = .complete ∧ Completed log c

namespace Executor

variable {σ σ' : Executor} {due more : List (Nat × Action)} {id : Nat}

/-- What the history tells; `due` are the actions whose callbacks have not been called. -/
structure Chronicle (due : List (Nat × Action)) (σ : Executor) : Prop where
  leaves : ∀ id, σ.log.countP (Obs.leaves id) = if σ.stateOf id = .pending then 0 else 1
  completes : ∀ id, σ.log.countP (Obs.completes id) = if σ.stateOf id = .completed then 1 else 0
  acts : σ.log.filterMap Obs.acted? ++ due = σ.log.filterMap (Obs.starts? σ.graph)
  allowed : Justified (Allowed σ.graph) σ.log
  notified : σ.log.count .notified = if σ.completionNotified then 1 else 0
  timed : ∀ id, σ.stateOf id = .active →
    (σ.graph.node id).type = .wait ∨ (σ.graph.node id).type = .delay
  activated : ∀ id, (σ.graph.node id).type = .wait → σ.stateOf id ≠ .pending →
    .moved id .pending .active ∈ σ.log

theorem Chronicle.completed_iff (h : Chronicle due σ) (id : Nat) :
    Completed σ.log id ↔ σ.stateOf id = .completed := by
  have hcount := h.completes id
  rw [Completed, ← List.countP_pos_iff]
  split at hcount
  · rename_i hs
    simp [hs, hcount]
  · rename_i hs
    simp [hs, hcount]

theorem Chronicle.met_iff (h : Chronicle due σ) (id : Nat) :
    Met σ.graph σ.log id ↔ σ.Satisfied id := by
  unfold Met Satisfied
  cases (σ.graph.node id).dependency <;> simp only [h.completed_iff]

theorem Chronicle.congr (h : Chronicle due σ) (hgraph : σ'.graph = σ.graph)
    (hstate : ∀ j, σ'.stateOf j = σ.stateOf j) (hlog : σ'.log = σ.log)
    (hnotified : σ'.completionNotified = σ.completionNotified) : Chronicle due σ' := by
  refine ⟨?_, ?_, ?_, ?_, ?_, ?_, ?_⟩
  · simpa only [hlog, hstate] using h.leaves
  · simpa only [hlog, hstate] using h.completes
  · simpa only [hlog, hgraph] using h.acts
  · simpa only [hlog, hgraph] using h.allowed
  · simpa only [hlog, hnotified] using h.notified
  · simpa only [hstate, hgraph] using h.timed
  · simpa only [hstate, hgraph, hlog] using h.activated

theorem Requeued.chronicle (h : Requeued σ σ') (hc : Chronicle due σ) : Chronicle due σ' :=
  hc.congr h.graph_eq h.stateOf_eq (by rw [h.rest]) (by rw [h.rest])

/-- A node changes its state once more. -/
theorem Chronicle.move (h : Chronicle due σ) {new : NodeState} (hgraph : σ'.graph = σ.graph)
    (hlog : σ'.log = σ.log ++ [.moved id (σ.stateOf id) new]) (hstate : σ'.stateOf id = new)
    (hother : ∀ j, j ≠ id → σ'.stateOf j = σ.stateOf j)
    (hnotified : σ'.completionNotified = σ.completionNotified)
    (hold : σ.stateOf id ≠ .completed) (hnew : new ≠ .pending)
    (hmet : σ.stateOf id = .pending → σ.Satisfied id)
    (htimed : new = .active → (σ.graph.node id).type = .wait ∨ (σ.graph.node id).type = .delay)
    (hwait : (σ.graph.node id).type = .wait → σ.stateOf id = .pending → new = .active)
    (hmore : more = if σ.stateOf id = .pending ∧ (σ.graph.node id).type = .action then
      [(id, (σ.graph.node id).action)] else []) : Chronicle (due ++ more) σ' := by
  refine ⟨?_, ?_, ?_, ?_, ?_, ?_, ?_⟩
  -- leaves: only node `id` may leave PENDING
  · intro j
    have hj := h.leaves j
    rw [hlog, List.countP_append, List.countP_singleton, hj]
    by_cases hji : j = id
    · subst hji
      rw [hstate, if_neg hnew]
      cases hs : σ.stateOf j <;> simp [Obs.leaves]
    · rw [hother j hji]
      have hno : Obs.leaves j (.moved id (σ.stateOf id) new) = false := by
        cases σ.stateOf id <;> simp [Obs.leaves, Ne.symm hji]
      simp [hno]
  -- completes: only node `id` may complete
  · intro j
    have hj := h.completes j
    rw [hlog, List.countP_append, List.countP_singleton, hj]
    by_cases hji : j = id
    · subst hji
      rw [hstate, if_neg hold]
      cases new <;> simp [Obs.completes]
    · rw [hother j hji]
      have hno : Obs.completes j (.moved id (σ.stateOf id) new) = false := by
        cases new <;> simp [Obs.completes, Ne.symm hji]
      simp [hno]
  -- acts: an ACTION starts when it leaves PENDING
  · rw [hlog, hgraph, filterMap_snoc, filterMap_snoc, ← h.acts, hmore]
    simp only [Obs.acted?, Option.toList_none, List.append_nil, List.append_assoc]
    cases hs : σ.stateOf id
    · by_cases ha : (σ.graph.node id).type = .action <;> simp [Obs.starts?, ha]
    · simp [Obs.starts?]
    · simp [Obs.starts?]
  · rw [hlog, hgraph]
    refine h.allowed.snoc fun hp => ?_
    exact (h.met_iff id).mpr (hmet hp)
  · rw [hlog, hnotified, List.count_append, h.notified]
    simp
  · intro j hj
    rw [hgraph]
    by_cases hji : j = id
    · rw [hji] at hj ⊢
      exact htimed (hstate.symm.trans hj)
    · rw [hother j hji] at hj
      exact h.timed j hj
  -- activated: a WAIT that leaves PENDING is active
  · intro j hj hs
    rw [hgraph] at hj
    rw [hlog, List.mem_append, List.mem_singleton]
    by_cases hji : j = id
    · subst hji
      by_cases hp : σ.stateOf j = .pending
      · rw [hp, hwait hj hp]
        exact .inr rfl
      · exact .inl (h.activated j hj hp)
    · rw [hother j hji] at hs
      exact .inl (h.activated j hj hs)

theorem Chronicle.note {due' : List (Nat × Action)} {e : Obs} (h : Chronicle due σ)
    (hcallback : ∀ id old new, e ≠ .moved id old new) (hgraph : σ'.graph = σ.graph)
    (hlog : σ'.log = σ.log ++ [e]) (hstate : ∀ j, σ'.stateOf j = σ.stateOf j)
    (hdue : due = e.acted?.toList ++ due') (hallowed : Allowed σ.graph σ.log e)
    (hnotified : σ'.log.count .notified = if σ'.completionNotified then 1 else 0) :
    Chronicle due' σ' := by
  refine ⟨?_, ?_, ?_, ?_, hnotified, ?_, ?_⟩
  · intro j
    rw [hlog, hstate, List.countP_append, h.leaves]
    cases e with
    | moved id old new => exact absurd rfl (hcallback id old new)
    | _ => simp [Obs.leaves]
  · intro j
    rw [hlog, hstate, List.countP_append, h.completes]
    cases e with
    | moved id old new => exact absurd rfl (hcallback id old new)
    | _ => simp [Obs.completes]
  · rw [hlog, hgraph, filterMap_snoc, filterMap_snoc, ← h.acts, hdue]
    cases e with
    | moved id old new => exact absurd rfl (hcallback id old new)
    | _ => simp [Obs.starts?]
  · rw [hlog, hgraph]
    exact h.allowed.snoc hallowed
  · simpa only [hstate, hgraph] using h.timed
  · intro j hj hs
    rw [hgraph] at hj
    rw [hstate] at hs
    rw [hlog]
    exact List.mem_append_left _ (h.activated j hj hs)

/-- The completion flag tells whether the completion node is completed. -/
def Flagged (σ : Executor) : Prop :=
  σ.complete = true ↔ ∃ c < σ.graph.size, (σ.graph.node c).type = .complete ∧
    σ.stateOf c = .completed

theorem Flagged.congr (h : σ.Flagged) (hgraph : σ'.graph = σ.graph)
    (hcomplete : σ'.complete = σ.complete)
    (hstate : ∀ c, (σ.graph.node c).type = .complete → σ'.stateOf c = σ.stateOf c) : σ'.Flagged := by
  unfold Flagged at h ⊢
  rw [hcomplete, hgraph, h]
  exact exists_congr fun c => and_congr_right fun _ => and_congr_right fun hc => by rw [hstate c hc]

/-- The index holds each wait that has left PENDING once, under the key of its matcher. -/
def Indexed (σ : Executor) : Prop :=
  ∀ key j, (σ.waitIndex key).count j =
    if (σ.graph.node j).type = .wait ∧ σ.stateOf j ≠ .pending ∧
      key = makeWaitIndexKey (σ.graph.node j).matcher then 1 else 0

/-- Only delays are armed. -/
def Armed (σ : Executor) : Prop := ∀ id ∈ σ.delays, (σ.graph.node id).type = .delay

/-- Bookkeeping, history, completion flag, index and armed delays. -/
structure Sound (due : List (Nat × Action)) (σ : Executor) : Prop where
  consistent : Consistent [] σ
  chronicle : Chronicle due σ
  flagged : σ.Flagged
  indexed : σ.Indexed
  armed : σ.Armed

theorem Indexed.congr (h : σ.Indexed) (hgraph : σ'.graph = σ.graph)
    (hindex : σ'.waitIndex = σ.waitIndex)
    (hstate : ∀ j, (σ.graph.node j).type = .wait →
      (σ'.stateOf j = .pending ↔ σ.stateOf j = .pending)) : σ'.Indexed := by
  intro key j
  rw [hindex, h key j, hgraph]
  refine if_congr ?_ rfl rfl
  refine and_congr_right fun hw => and_congr_left fun _ => not_congr ?_
  exact (hstate j hw).symm

theorem Indexed.register (h : σ.Indexed) (hgraph : σ'.graph = σ.graph)
    (hindex : σ'.waitIndex = (σ.registerWait id).waitIndex)
    (hwait : (σ.graph.node id).type = .wait) (hpending : σ.stateOf id = .pending)
    (hgone : σ'.stateOf id ≠ .pending) (hother : ∀ j, j ≠ id → σ'.stateOf j = σ.stateOf j) :
    σ'.Indexed := by
  intro key j
  have hj := h key j
  rw [hindex, hgraph, registerWait]
  simp only [update_apply]
  by_cases hji : j = id
  · subst hji
    rw [if_neg (by simp [hpending])] at hj
    by_cases hkey : key = makeWaitIndexKey (σ.graph.node j).matcher
    · rw [if_pos hkey, if_pos ⟨hwait, hgone, hkey⟩, List.count_append, ← hkey, hj]
      simp
    · rw [if_neg hkey, if_neg (by simp [hkey]), hj]
  · rw [hother j hji, ← hj]
    split
    · rename_i hkey
      rw [List.count_append, hkey, List.count_singleton, if_neg (by simpa using Ne.symm hji), add_zero]
    · rfl

/-- What the loop over the ready queue leaves alone. -/
def flags (σ : Executor) :=
  (σ.graph, σ.started, σ.completionNotified, σ.advancing, σ.advanceRequested, σ.calls)

/-- What a wait has seen. -/
def observed (σ : Executor) (id : Nat) :=
  ((σ.runtime id).observedBytes, (σ.runtime id).observedEvents)

theorem Requeued.observed_eq (h : Requeued σ σ') (j : Nat) : σ'.observed j = σ.observed j := by
  obtain ⟨-, hbytes, hevents⟩ := h.fields j
  rw [observed, observed, hbytes, hevents]

theorem observed_move (σ : Executor) (id j : Nat) (new : NodeState) :
    (σ.move id new).observed j = σ.observed j := by
  simp only [observed, move, record_runtime, setRuntime_runtime, update_apply]
  split
  · rename_i hj
    rw [hj]
  · rfl

/-! ## Completing a node -/

theorem stateOf_move (σ : Executor) (id j : Nat) (new : NodeState) :
    (σ.move id new).stateOf j = if j = id then new else σ.stateOf j := by
  simp only [stateOf, move, record_runtime, setRuntime_runtime, update_apply]
  split <;> rfl

/-- Nodes with the state they have now are not in the log twice: an active node completes. -/
theorem markCompleted_active (hcons : Consistent [] σ) (hchr : Chronicle due σ)
    (hid : id < σ.graph.size) (hstate : σ.stateOf id = .active) :
    ∃ σ', σ.markCompleted id = .ok σ' ∧ Consistent [] σ' ∧ Chronicle due σ' ∧
      (∀ j, σ'.stateOf j = if j = id then .completed else σ.stateOf j) ∧
      (∀ j, σ'.observed j = σ.observed j) ∧
      σ' = { σ with runtime := σ'.runtime, readyNodes := σ'.readyNodes, log := σ'.log } := by
  have hready : id ∉ σ.readyNodes := fun hm => by
    have := (hcons.ready id hm).2
    rw [hstate] at this
    cases this
  have hqueued : (σ.runtime id).queued = false := by
    by_contra hq
    exact hready ((hcons.queue id).mp (by simpa using hq))
  have hmoved : Consistent (σ.graph.successors id) (σ.move id .completed) := by
    refine hcons.leave hid (.inr (by rw [hstate]; decide)) (by rw [hstate]; decide)
      (show NodeState.completed ≠ .pending by decide) rfl ?_ ?_ ?_ ?_ ?_ hcons.nodup ?_
    · intro j hj
      exact update_of_ne hj _ _
    · rw [stateOf_move, if_pos rfl]
    · simp [move]
    · simpa [move] using hqueued
    · intro j
      constructor
      · intro hj
        exact ⟨hj, fun hji => hready (hji ▸ hj)⟩
      · exact And.left
    · intro j
      rw [if_pos rfl, Graph.count_successors]
  have hchr' : Chronicle (due ++ []) (σ.move id .completed) := by
    refine hchr.move rfl rfl (by rw [stateOf_move, if_pos rfl])
      (fun j hj => by rw [stateOf_move, if_neg hj]) rfl (by rw [hstate]; decide) (by decide) ?_ ?_ ?_ ?_
    all_goals simp [hstate]
  obtain ⟨σ', hprop, hcons', hre⟩ := propagateAll_ok hmoved
  refine ⟨σ', ?_, hcons', ?_, ?_, ?_, ?_⟩
  · rw [markCompleted, if_neg (by show σ.stateOf id ≠ _; rw [hstate]; decide)]
    exact hprop
  · rw [List.append_nil] at hchr'
    exact hre.chronicle hchr'
  · intro j
    rw [hre.stateOf_eq, stateOf_move]
  · intro j
    rw [hre.observed_eq, observed_move]
  · rw [hre.rest]
    rfl

/-! ## Taking a node off the queue -/

/-- The node at the front is taken off the queue. -/
def dequeue (σ : Executor) (id : Nat) (rest : List Nat) : Executor :=
  setRuntime { σ with readyNodes := rest } id { σ.runtime id with queued := false }

variable {rest : List Nat} {new : NodeState}

theorem stateOf_dequeue_move (σ : Executor) (j : Nat) :
    ((σ.dequeue id rest).move id new).stateOf j = if j = id then new else σ.stateOf j := by
  rw [stateOf_move]
  split
  · rfl
  · rename_i hj
    simp [stateOf, dequeue, update_of_ne hj]

theorem Consistent.leaveQueue (h : Consistent [] σ) (hready : σ.readyNodes = id :: rest)
    (hnew : new ≠ .pending) {edges : List Nat}
    (hedges : ∀ j, edges.count j = if new = .completed then (σ.graph.deps j).count id else 0) :
    Consistent edges ((σ.dequeue id rest).move id new) := by
  have hmem : id ∈ σ.readyNodes := hready ▸ List.mem_cons_self
  obtain ⟨hid, hstate⟩ := h.ready id hmem
  have hnodup := h.nodup
  rw [hready, List.nodup_cons] at hnodup
  refine h.leave hid (.inl hmem) (by rw [hstate]; decide) hnew rfl ?_ ?_ ?_ ?_ ?_ hnodup.2 hedges
  · intro j hj
    simp [move, dequeue, update_of_ne hj]
  · rw [stateOf_dequeue_move, if_pos rfl]
  · simp [move, dequeue]
  · simp [move, dequeue]
  · intro j
    show j ∈ rest ↔ _
    rw [hready, List.mem_cons]
    constructor
    · intro hj
      exact ⟨.inr hj, fun hji => hnodup.1 (hji ▸ hj)⟩
    · rintro ⟨hj, hji⟩
      exact hj.resolve_left hji

theorem Sound.leaveQueue (h : Sound due σ) (hready : σ.readyNodes = id :: rest)
    (hnew : new ≠ .pending)
    (htimed : new = .active → (σ.graph.node id).type = .wait ∨ (σ.graph.node id).type = .delay)
    (hwait : (σ.graph.node id).type = .wait → new = .active) :
    Chronicle (due ++ if (σ.graph.node id).type = .action then [(id, (σ.graph.node id).action)]
      else []) ((σ.dequeue id rest).move id new) := by
  have hmem : id ∈ σ.readyNodes := hready ▸ List.mem_cons_self
  obtain ⟨hid, hstate⟩ := h.consistent.ready id hmem
  refine h.chronicle.move rfl ?_ (by rw [stateOf_dequeue_move, if_pos rfl])
    (fun j hj => by rw [stateOf_dequeue_move, if_neg hj]) rfl (by rw [hstate]; decide) hnew
    (fun _ => h.consistent.satisfied id hid (.inl hmem)) htimed (fun ht _ => hwait ht) ?_
  · simp [move, dequeue, stateOf]
  · simp [hstate]

/-- What the scheduling of a node depends on. -/
def schedule (σ : Executor) (id : Nat) :=
  ((σ.runtime id).state, (σ.runtime id).remainingDependencies, (σ.runtime id).queued)

theorem stateOf_congr (h : σ'.schedule id = σ.schedule id) : σ'.stateOf id = σ.stateOf id :=
  congrArg (fun f => f.1) h

theorem Consistent.congr {edges : List Nat} (h : Consistent edges σ) (hgraph : σ'.graph = σ.graph)
    (hruntime : ∀ j, σ'.schedule j = σ.schedule j) (hready : σ'.readyNodes = σ.readyNodes) :
    Consistent edges σ' := by
  have hstate : ∀ j, σ'.stateOf j = σ.stateOf j := fun j => stateOf_congr (hruntime j)
  have hremaining : ∀ j, (σ'.runtime j).remainingDependencies =
      (σ.runtime j).remainingDependencies := fun j => congrArg (fun f => f.2.1) (hruntime j)
  have hqueued : ∀ j, (σ'.runtime j).queued = (σ.runtime j).queued := fun j =>
    congrArg (fun f => f.2.2) (hruntime j)
  have hopen : ∀ j, σ'.openDeps j = σ.openDeps j := fun j => by
    simp only [openDeps, hgraph, hstate]
  have hsat : ∀ j, σ'.Satisfied j ↔ σ.Satisfied j := fun j => by
    simp only [Satisfied, hgraph, hstate]
  refine ⟨?_, ?_, ?_, ?_, ?_, ?_, ?_, ?_, ?_⟩
  · simpa only [hgraph] using h.known
  · simpa only [hgraph, hremaining, hopen] using h.remaining
  · simpa only [hgraph, hready, hstate] using h.edge
  · simpa only [hqueued, hready] using h.queue
  · simpa only [hgraph, hready, hstate] using h.ready
  · simpa only [hready] using h.nodup
  · simpa only [hgraph, hready, hstate, hsat] using h.satisfied
  · simpa only [hgraph, hready, hstate, hremaining] using h.waitingAll
  · simpa only [hgraph, hready, hstate] using h.waitingAny

theorem Sound.congr (h : Sound due σ) (hgraph : σ'.graph = σ.graph)
    (hruntime : ∀ j, σ'.schedule j = σ.schedule j) (hready : σ'.readyNodes = σ.readyNodes)
    (hlog : σ'.log = σ.log) (hcomplete : σ'.complete = σ.complete)
    (hnotified : σ'.completionNotified = σ.completionNotified)
    (hindex : σ'.waitIndex = σ.waitIndex) (hdelays : ∀ id ∈ σ'.delays, id ∈ σ.delays) :
    Sound due σ' := by
  have hstate : ∀ j, σ'.stateOf j = σ.stateOf j := fun j => stateOf_congr (hruntime j)
  refine ⟨h.consistent.congr hgraph hruntime hready, h.chronicle.congr hgraph hstate hlog hnotified,
    h.flagged.congr hgraph hcomplete fun c _ => hstate c,
    h.indexed.congr hgraph hindex fun j _ => by rw [hstate], fun i hi => ?_⟩
  rw [hgraph]
  exact h.armed i (hdelays i hi)

theorem observed_dequeue (σ : Executor) (id j : Nat) (rest : List Nat) :
    (σ.dequeue id rest).observed j = σ.observed j := by
  simp only [observed, dequeue, setRuntime_runtime, update_apply]
  split
  · rename_i hj
    rw [hj]
  · rfl

/-- What a visit does: the node leaves PENDING, and what it adds to the round is its action. -/
structure Visited (due : List (Nat × Action)) (σ : Executor) (id : Nat) (σ' : Executor)
    (more : List (Nat × Action)) : Prop where
  sound : Sound (due ++ more) σ'
  flags : σ'.flags = σ.flags
  gone : σ'.stateOf id ≠ .pending
  frame : ∀ j, j ≠ id → σ'.stateOf j = σ.stateOf j
  waits : (σ.graph.node id).type = .wait → σ'.stateOf id ≠ .completed
  observed : ∀ j, σ'.observed j = σ.observed j
  done : ∀ c ∈ more, c = (id, (σ.graph.node id).action) ∧ (σ.graph.node id).type = .action ∧
    σ'.stateOf id = .completed

theorem visit_completes (h : Sound due σ) (hready : σ.readyNodes = id :: rest)
    (hwait : (σ.graph.node id).type ≠ .wait) :
    ∃ σ', (σ.dequeue id rest).markCompleted id = .ok σ' ∧ Consistent [] σ' ∧
      Chronicle (due ++ if (σ.graph.node id).type = .action then
        [(id, (σ.graph.node id).action)] else []) σ' ∧
      (∀ j, σ'.stateOf j = if j = id then .completed else σ.stateOf j) ∧
      (∀ j, σ'.observed j = σ.observed j) ∧
      σ' = { σ with runtime := σ'.runtime, readyNodes := σ'.readyNodes, log := σ'.log } := by
  have hmem : id ∈ σ.readyNodes := hready ▸ List.mem_cons_self
  have hstate := (h.consistent.ready id hmem).2
  have hmoved : Consistent (σ.graph.successors id) ((σ.dequeue id rest).move id .completed) :=
    h.consistent.leaveQueue hready (by decide) fun j => by rw [if_pos rfl, Graph.count_successors]
  have hchr := h.leaveQueue hready (show NodeState.completed ≠ .pending by decide) (fun hn => by cases hn)
    (fun hw => absurd hw hwait)
  obtain ⟨σ', hprop, hcons, hre⟩ := propagateAll_ok hmoved
  refine ⟨σ', ?_, hcons, hre.chronicle hchr, ?_, ?_, ?_⟩
  · rw [markCompleted, if_neg]
    · exact hprop
    · show (update σ.runtime id { σ.runtime id with queued := false } id).state ≠ _
      rw [update_self]
      show σ.stateOf id ≠ _
      rw [hstate]
      decide
  · intro j
    rw [hre.stateOf_eq, stateOf_dequeue_move]
  · intro j
    rw [hre.observed_eq, observed_move, observed_dequeue]
  · rw [hre.rest]
    rfl

/-- A timed node becomes active when it is visited; afterwards only the index and the armed
delays change. -/
theorem visit_activates (h : Sound due σ) (hready : σ.readyNodes = id :: rest)
    (htype : (σ.graph.node id).type = .wait ∨ (σ.graph.node id).type = .delay)
    (hrest : σ' = { (σ.dequeue id rest).move id .active with
      waitIndex := σ'.waitIndex, delays := σ'.delays })
    (hindexed : σ'.Indexed) (harmed : σ'.Armed) : Visited due σ id σ' [] := by
  have hstate : ∀ j, σ'.stateOf j = if j = id then .active else σ.stateOf j := by
    intro j
    rw [← stateOf_dequeue_move, hrest]
    rfl
  have hcons : Consistent [] σ' := by
    refine (h.consistent.leaveQueue hready (show NodeState.active ≠ .pending by decide)
      fun j => by simp).congr ?_ ?_ ?_
    · rw [hrest]
    · intro j
      rw [hrest]
      rfl
    · rw [hrest]
  have hchr := h.leaveQueue hready (show NodeState.active ≠ .pending by decide) (fun _ => htype)
    (fun _ => rfl)
  have haction : (σ.graph.node id).type ≠ .action := by
    rcases htype with hw | hw <;> rw [hw] <;> decide
  have hnone : (σ.graph.node id).type ≠ .complete := by
    rcases htype with hw | hw <;> rw [hw] <;> decide
  rw [if_neg haction] at hchr
  refine ⟨⟨hcons, hchr.congr ?_ ?_ ?_ ?_, ?_, hindexed, harmed⟩, ?_, ?_, ?_, ?_, ?_, ?_⟩
  · rw [hrest]
  · intro j
    rw [hstate, stateOf_dequeue_move]
  · rw [hrest]
  · rw [hrest]
  · -- the completion node is another one
    refine h.flagged.congr (by rw [hrest]; rfl) (by rw [hrest]; rfl) fun c hc => ?_
    rw [hstate, if_neg]
    rintro rfl
    exact hnone hc
  · rw [hrest]
    rfl
  · rw [hstate, if_pos rfl]
    decide
  · intro j hj
    rw [hstate, if_neg hj]
  · intro _
    rw [hstate, if_pos rfl]
    decide
  · intro j
    have hobserved : σ'.observed j = ((σ.dequeue id rest).move id .active).observed j := by
      rw [hrest]
      rfl
    rw [hobserved, observed_move, observed_dequeue]
  · intro c hc
    cases hc

/-- A visit returns. -/
theorem visit_ok (h : Sound due σ) (hready : σ.readyNodes = id :: rest) :
    ∃ σ' more, visit { σ with readyNodes := rest } id = .ok (σ', more) ∧
      Visited due σ id σ' more := by
  have hmem : id ∈ σ.readyNodes := hready ▸ List.mem_cons_self
  have hpending : ((σ.dequeue id rest).runtime id).state = .pending := by
    have := (h.consistent.ready id hmem).2
    simpa [dequeue, stateOf] using this
  have hvisit : visit { σ with readyNodes := rest } id = _ := if_neg (not_not.mpr hpending)
  have hkept : ∀ σ' : Executor, σ'.graph = σ.graph → σ'.waitIndex = σ.waitIndex →
      (∀ j, σ'.stateOf j = if j = id then .completed else σ.stateOf j) →
      (σ.graph.node id).type ≠ .wait → σ'.Indexed := by
    intro σ' hgraph hindex hstates hwait
    refine h.indexed.congr hgraph hindex fun j hw => ?_
    rw [hstates, if_neg]
    rintro rfl
    exact hwait hw
  rw [hvisit]
  dsimp only [setRuntime]
  cases htype : (σ.graph.node id).type with
  | action =>
      obtain ⟨σ', hmark, hcons, hchr, hstates, hobserved, hrest⟩ :=
        visit_completes h hready (by rw [htype]; decide)
      rw [if_pos htype] at hchr
      refine ⟨σ', _, bind_eq_ok.mpr ⟨σ', hmark, rfl⟩, ⟨hcons, hchr, ?_, ?_, ?_⟩, ?_, ?_, ?_,
        ?_, hobserved, ?_⟩
      · refine h.flagged.congr (by rw [hrest]) (by rw [hrest]) fun c hc => ?_
        rw [hstates, if_neg]
        rintro rfl
        rw [htype] at hc
        cases hc
      · exact hkept σ' (by rw [hrest]) (by rw [hrest]) hstates (by rw [htype]; decide)
      · rw [Armed, hrest]
        exact h.armed
      · rw [hrest]
        rfl
      · rw [hstates, if_pos rfl]
        decide
      · intro j hj
        rw [hstates, if_neg hj]
      · intro hwait
        rw [htype] at hwait
        cases hwait
      · intro c hc
        rw [List.mem_singleton] at hc
        rw [hc]
        exact ⟨rfl, htype, by rw [hstates, if_pos rfl]⟩
  | wait =>
      refine ⟨((σ.dequeue id rest).move id .active).registerWait id, _, rfl,
        visit_activates h hready (.inl htype) rfl ?_ h.armed⟩
      have hpend := (h.consistent.ready id hmem).2
      refine h.indexed.register rfl rfl htype hpend ?_ ?_
      · show ((σ.dequeue id rest).move id .active).stateOf id ≠ _
        rw [stateOf_dequeue_move, if_pos rfl]
        decide
      · intro j hj
        show ((σ.dequeue id rest).move id .active).stateOf j = _
        rw [stateOf_dequeue_move, if_neg hj]
  | delay =>
      have harm : ((σ.dequeue id rest).move id .active).armDelay id =
          { (σ.dequeue id rest).move id .active with
            delays := (((σ.dequeue id rest).move id .active).armDelay id).delays } := by
        unfold armDelay
        split <;> rfl
      have hindex : (((σ.dequeue id rest).move id .active).armDelay id).waitIndex = σ.waitIndex := by
        rw [harm]
        rfl
      have harmed : (((σ.dequeue id rest).move id .active).armDelay id).Armed := by
        have hgraph : (((σ.dequeue id rest).move id .active).armDelay id).graph = σ.graph := by
          rw [harm]
          rfl
        intro i hi
        rw [hgraph]
        unfold armDelay at hi
        split at hi
        · rcases List.mem_append.mp hi with hi | hi
          · exact h.armed i hi
          · rw [List.mem_singleton.mp hi]
            exact htype
        · exact h.armed i hi
      refine ⟨((σ.dequeue id rest).move id .active).armDelay id, _, rfl,
        visit_activates h hready (.inr htype) ?_ ?_ harmed⟩
      · rw [hindex]
        exact harm
      · refine h.indexed.congr (by rw [harm]; rfl) hindex fun j hw => ?_
        have hji : j ≠ id := by
          rintro rfl
          rw [htype] at hw
          cases hw
        have hj : (((σ.dequeue id rest).move id .active).armDelay id).stateOf j = σ.stateOf j := by
          rw [harm]
          show ((σ.dequeue id rest).move id .active).stateOf j = _
          rw [stateOf_dequeue_move, if_neg hji]
        rw [hj]
  | complete =>
      obtain ⟨σ', hmark, hcons, hchr, hstates, hobserved, hrest⟩ :=
        visit_completes h hready (by rw [htype]; decide)
      rw [if_neg (by rw [htype]; decide)] at hchr
      have hgraph : σ'.graph = σ.graph := by rw [hrest]
      refine ⟨{ σ' with complete := true }, _, bind_eq_ok.mpr ⟨σ', hmark, rfl⟩,
        ⟨hcons.congr rfl (fun _ => rfl) rfl, hchr.congr rfl (fun _ => rfl) rfl rfl, ?_, ?_, ?_⟩,
        ?_, ?_, ?_, ?_, hobserved, ?_⟩
      -- the node at hand is the completion node
      · refine iff_of_true rfl ⟨id, ?_, ?_, ?_⟩
        · show id < σ'.graph.size
          rw [hgraph]
          exact (h.consistent.ready id hmem).1
        · show (σ'.graph.node id).type = _
          rw [hgraph, htype]
        · show σ'.stateOf id = _
          rw [hstates, if_pos rfl]
      · refine (hkept σ' hgraph ?_ hstates (by rw [htype]; decide)).congr rfl rfl fun j _ => Iff.rfl
        rw [hrest]
      · show σ'.Armed
        rw [Armed, hrest]
        exact h.armed
      · show σ'.flags = σ.flags
        rw [hrest]
        rfl
      · show σ'.stateOf id ≠ _
        rw [hstates, if_pos rfl]
        decide
      · intro j hj
        show σ'.stateOf j = _
        rw [hstates, if_neg hj]
      · intro hwait
        rw [htype] at hwait
        cases hwait
      · intro c hc
        cases hc

/-! ## Draining the queue -/

/-- The nodes that have not been visited. -/
def pendingNodes (σ : Executor) : Finset Nat :=
  (Finset.range σ.graph.size).filter fun j => σ.stateOf j = .pending

theorem Visited.pendingNodes_lt (h : Visited due σ id σ' more) (hid : id < σ.graph.size)
    (hpending : σ.stateOf id = .pending) : σ'.pendingNodes.card < σ.pendingNodes.card := by
  have hgraph : σ'.graph = σ.graph := congrArg (fun f => f.1) h.flags
  refine Finset.card_lt_card (Finset.ssubset_iff_of_subset ?_ |>.mpr ⟨id, ?_, ?_⟩)
  · intro j hj
    simp only [pendingNodes, Finset.mem_filter, hgraph] at hj ⊢
    have hji : j ≠ id := by
      rintro rfl
      exact h.gone hj.2
    exact ⟨hj.1, h.frame j hji ▸ hj.2⟩
  · exact Finset.mem_filter.mpr ⟨Finset.mem_range.mpr hid, hpending⟩
  · intro hj
    exact h.gone (Finset.mem_filter.mp hj).2

/-- What emptying the queue does. -/
structure Drained (due : List (Nat × Action)) (σ σ' : Executor) (more : List (Nat × Action)) :
    Prop where
  sound : Sound (due ++ more) σ'
  flags : σ'.flags = σ.flags
  empty : σ'.readyNodes = []
  done : ∀ c ∈ more, c.1 < σ.graph.size ∧ σ'.stateOf c.1 = .completed ∧ σ.stateOf c.1 = .pending ∧
    (σ.graph.node c.1).type = .action ∧ c.2 = (σ.graph.node c.1).action
  keep : ∀ j, σ.stateOf j ≠ .pending → σ'.stateOf j = σ.stateOf j
  waits : ∀ j, (σ.graph.node j).type = .wait → σ'.stateOf j = .completed → σ.stateOf j = .completed
  observed : ∀ j, σ'.observed j = σ.observed j

/-- The queue is emptied: every round of the loop takes one more node out of PENDING. -/
theorem drain_ok {fuel : Nat} {actions : List (Nat × Action)} (h : Sound due σ)
    (hfuel : σ.pendingNodes.card ≤ fuel) :
    ∃ σ' more, drain fuel σ actions = .ok (σ', actions ++ more) ∧ Drained due σ σ' more := by
  induction fuel generalizing σ due actions with
  | zero =>
      have hempty : σ.readyNodes = [] := by
        rw [List.eq_nil_iff_forall_not_mem]
        intro j hj
        obtain ⟨hlt, hpending⟩ := h.consistent.ready j hj
        have hmem : j ∈ σ.pendingNodes :=
          Finset.mem_filter.mpr ⟨Finset.mem_range.mpr hlt, hpending⟩
        have := Finset.card_pos.mpr ⟨j, hmem⟩
        omega
      refine ⟨σ, [], by rw [List.append_nil]; rfl, ?_, rfl, hempty, ?_, fun _ _ => rfl, fun _ _ hj => hj,
        fun _ => rfl⟩
      · rw [List.append_nil]
        exact h
      · intro c hc
        cases hc
  | succ fuel ih =>
      cases hready : σ.readyNodes with
      | nil =>
          refine ⟨σ, [], ?_, ?_, rfl, hready, ?_, fun _ _ => rfl, fun _ _ hj => hj,
            fun _ => rfl⟩
          · rw [drain, hready, List.append_nil]
          · rw [List.append_nil]
            exact h
          · intro c hc
            cases hc
      | cons id rest =>
          obtain ⟨hid, hpending⟩ := h.consistent.ready id (hready ▸ List.mem_cons_self)
          obtain ⟨σ₁, first, hvisit, hvisited⟩ := visit_ok h hready
          have hless := hvisited.pendingNodes_lt hid hpending
          have hgraph : σ₁.graph = σ.graph := congrArg (fun f => f.1) hvisited.flags
          obtain ⟨σ₂, more, hdrain, hdrained⟩ :=
            @ih σ₁ (due ++ first) (actions ++ first) hvisited.sound (by omega)
          have hsound := hdrained.sound
          rw [List.append_assoc] at hsound
          refine ⟨σ₂, first ++ more, ?_, hsound, hdrained.flags.trans hvisited.flags, hdrained.empty,
            ?_, ?_, ?_, fun j => (hdrained.observed j).trans (hvisited.observed j)⟩
          · rw [drain, hready]
            refine bind_eq_ok.mpr ⟨_, hvisit, ?_⟩
            rw [← List.append_assoc]
            exact hdrain
          · intro c hc
            rcases List.mem_append.mp hc with hc | hc
            · obtain ⟨hcid, htype, hdone⟩ := hvisited.done c hc
              rw [hcid]
              refine ⟨hid, ?_, hpending, htype, rfl⟩
              rw [hdrained.keep id (by rw [hdone]; decide), hdone]
            · obtain ⟨hlt, hdone, hopen, htype, haction⟩ := hdrained.done c hc
              have hci : c.1 ≠ id := by
                intro hci
                exact hvisited.gone (hci ▸ hopen)
              rw [hvisited.frame c.1 hci] at hopen
              rw [hgraph] at hlt htype haction
              exact ⟨hlt, hdone, hopen, htype, haction⟩
          · intro j hj
            have hji : j ≠ id := by
              rintro rfl
              exact hj hpending
            rw [hdrained.keep j (by rw [hvisited.frame j hji]; exact hj), hvisited.frame j hji]
          · intro j hwait hcompleted
            have hmiddle := hdrained.waits j (by rw [hgraph]; exact hwait) hcompleted
            by_cases hji : j = id
            · subst hji
              exact absurd hmiddle (hvisited.waits hwait)
            · rwa [hvisited.frame j hji] at hmiddle

/-- The waits that only wait for the action have left PENDING. -/
def Ahead (σ : Executor) (id : Nat) : Prop :=
  ∀ w < σ.graph.size, (σ.graph.node w).type = .wait → σ.graph.deps w ≠ [] →
    (∀ d ∈ σ.graph.deps w, d = id) → σ.stateOf w ≠ .pending

theorem Consistent.ahead (h : Consistent [] σ) (hempty : σ.readyNodes = [])
    (hdone : σ.stateOf id = .completed) : σ.Ahead id := by
  intro w hw _ hne hdeps hpending
  have hready : w ∉ σ.readyNodes := by
    rw [hempty]
    exact List.not_mem_nil
  cases hdep : (σ.graph.node w).dependency with
  | all =>
      have hopen : σ.openDeps w = 0 := by
        rw [openDeps, List.countP_eq_zero]
        intro d hd
        rw [hdeps d hd, hdone]
        decide
      have hpos := h.waitingAll w hw hpending hready hdep
      have hcount := h.remaining w hw hdep
      rw [List.count_nil] at hcount
      omega
  | any =>
      obtain ⟨d, hd⟩ := List.exists_mem_of_ne_nil _ hne
      have := (h.waitingAny w hw hpending hready hdep).2 d hd (by rw [hdeps d hd, hdone])
      cases this

end Executor

end ProtoBridge.Transaction
