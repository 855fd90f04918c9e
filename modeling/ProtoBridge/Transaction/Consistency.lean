import ProtoBridge.Transaction.Executor

/-!
# The bookkeeping of the executor

`Consistent` ties the ready queue and the counts of open dependencies to the states
of the nodes. While the completion of a node is being propagated, `edges` holds the
mentions of it that are still to be looked at. Every function of the executor keeps
the bookkeeping and returns.
-/

namespace ProtoBridge.Transaction

open Lib

namespace Executor

variable {σ σ' : Executor} {edges : List Nat} {id j : Nat}

/-- The state of a node. -/
def stateOf (σ : Executor) (id : Nat) : NodeState := (σ.runtime id).state

/-- The mentions of nodes that are not completed among the dependencies of a node. -/
def openDeps (σ : Executor) (id : Nat) : Nat :=
  (σ.graph.deps id).countP fun d => σ.stateOf d ≠ .completed

/-- The dependencies of a node are satisfied. -/
def Satisfied (σ : Executor) (id : Nat) : Prop :=
  match (σ.graph.node id).dependency with
  | .all => ∀ d ∈ σ.graph.deps id, σ.stateOf d = .completed
  | .any => σ.graph.deps id = [] ∨ ∃ d ∈ σ.graph.deps id, σ.stateOf d = .completed

/-- Queue, counts and states agree. -/
structure Consistent (edges : List Nat) (σ : Executor) : Prop where
  known : ∀ v, ∀ d ∈ σ.graph.deps v, d < σ.graph.size
  remaining : ∀ j < σ.graph.size, (σ.graph.node j).dependency = .all →
    (σ.runtime j).remainingDependencies = σ.openDeps j + edges.count j
  edge : ∀ j ∈ edges, j < σ.graph.size ∧ (∃ d ∈ σ.graph.deps j, σ.stateOf d = .completed) ∧
    ((σ.graph.node j).dependency = .all → σ.stateOf j = .pending ∧ j ∉ σ.readyNodes)
  queue : ∀ j, (σ.runtime j).queued = true ↔ j ∈ σ.readyNodes
  ready : ∀ j ∈ σ.readyNodes, j < σ.graph.size ∧ σ.stateOf j = .pending
  nodup : σ.readyNodes.Nodup
  satisfied : ∀ j < σ.graph.size, j ∈ σ.readyNodes ∨ σ.stateOf j ≠ .pending → σ.Satisfied j
  waitingAll : ∀ j < σ.graph.size, σ.stateOf j = .pending → j ∉ σ.readyNodes →
    (σ.graph.node j).dependency = .all → 0 < (σ.runtime j).remainingDependencies
  waitingAny : ∀ j < σ.graph.size, σ.stateOf j = .pending → j ∉ σ.readyNodes →
    (σ.graph.node j).dependency = .any →
      σ.graph.deps j ≠ [] ∧ ∀ d ∈ σ.graph.deps j, σ.stateOf d = .completed → j ∈ edges

/-- Only counts and the queue differ. -/
structure Requeued (σ σ' : Executor) : Prop where
  rest : σ' = { σ with runtime := σ'.runtime, readyNodes := σ'.readyNodes }
  fields : ∀ j, (σ'.runtime j).state = (σ.runtime j).state ∧
    (σ'.runtime j).observedBytes = (σ.runtime j).observedBytes ∧
    (σ'.runtime j).observedEvents = (σ.runtime j).observedEvents

theorem Requeued.refl (σ : Executor) : Requeued σ σ := ⟨rfl, fun _ => ⟨rfl, rfl, rfl⟩⟩

theorem Requeued.trans {σ'' : Executor} (h : Requeued σ σ') (h' : Requeued σ' σ'') :
    Requeued σ σ'' := by
  refine ⟨?_, fun j => ?_⟩
  · rw [h'.rest, h.rest]
  · obtain ⟨h₁, h₂, h₃⟩ := h.fields j
    obtain ⟨h₁', h₂', h₃'⟩ := h'.fields j
    exact ⟨h₁'.trans h₁, h₂'.trans h₂, h₃'.trans h₃⟩

theorem requeued_enqueue (σ : Executor) (id : Nat) : Requeued σ (σ.enqueue id) := by
  refine ⟨rfl, fun j => ?_⟩
  simp only [enqueue, setRuntime_runtime, Function.update_apply]
  split
  · rename_i h
    rw [h]
    exact ⟨rfl, rfl, rfl⟩
  · exact ⟨rfl, rfl, rfl⟩

theorem requeued_setRemaining (σ : Executor) (id n : Nat) :
    Requeued σ (σ.setRuntime id { σ.runtime id with remainingDependencies := n }) := by
  refine ⟨rfl, fun j => ?_⟩
  simp only [setRuntime_runtime, Function.update_apply]
  split
  · rename_i h
    rw [h]
    exact ⟨rfl, rfl, rfl⟩
  · exact ⟨rfl, rfl, rfl⟩

theorem Requeued.graph_eq (h : Requeued σ σ') : σ'.graph = σ.graph := by rw [h.rest]

theorem Requeued.stateOf_eq (h : Requeued σ σ') (j : Nat) : σ'.stateOf j = σ.stateOf j :=
  (h.fields j).1

theorem Requeued.openDeps_eq (h : Requeued σ σ') (j : Nat) : σ'.openDeps j = σ.openDeps j := by
  rw [openDeps, openDeps, h.graph_eq]
  exact List.countP_congr fun d _ => by rw [h.stateOf_eq]

theorem Requeued.satisfied_iff (h : Requeued σ σ') (j : Nat) : σ'.Satisfied j ↔ σ.Satisfied j := by
  simp only [Satisfied, h.graph_eq, h.stateOf_eq]

/-! ## Propagation -/

theorem Consistent.drop (h : Consistent (j :: edges) σ)
    (hcount : j < σ.graph.size → (σ.graph.node j).dependency ≠ .all)
    (hgone : j ∈ σ.readyNodes ∨ σ.stateOf j ≠ .pending) : Consistent edges σ := by
  have hne : ∀ i < σ.graph.size, (σ.graph.node i).dependency = .all → j ≠ i := by
    rintro i hi hall rfl
    exact hcount hi hall
  refine { h with remaining := ?_, edge := ?_, waitingAny := ?_ }
  · intro i hi hall
    rw [h.remaining i hi hall, List.count_cons_of_ne (hne i hi hall)]
  · exact fun i hi => h.edge i (List.mem_cons_of_mem j hi)
  · intro i hi hpending hready hany
    obtain ⟨hdeps, hmem⟩ := h.waitingAny i hi hpending hready hany
    refine ⟨hdeps, fun d hd hdone => ?_⟩
    rcases List.mem_cons.mp (hmem d hd hdone) with rfl | hi'
    · exact absurd hgone (by simp [hpending, hready])
    · exact hi'

/-- The node at hand becomes ready. -/
theorem Consistent.enqueue (h : Consistent (j :: edges) σ) (hpending : σ.stateOf j = .pending)
    (hready : j ∉ σ.readyNodes) {n : Nat}
    (hlast : (σ.graph.node j).dependency = .all → n = 0 ∧ σ.openDeps j + edges.count j = 0) :
    Consistent edges
      ((σ.setRuntime j { σ.runtime j with remainingDependencies := n }).enqueue j) := by
  obtain ⟨hj, hdone, -⟩ := h.edge j List.mem_cons_self
  have hre : Requeued σ ((σ.setRuntime j { σ.runtime j with remainingDependencies := n }).enqueue j) :=
    (requeued_setRemaining σ j n).trans (requeued_enqueue _ j)
  have hremaining : ∀ i, (((σ.setRuntime j { σ.runtime j with remainingDependencies := n }).enqueue
      j).runtime i).remainingDependencies =
      if i = j then n else (σ.runtime i).remainingDependencies := by
    intro i
    simp only [Executor.enqueue, setRuntime_runtime, Function.update_apply]
    split <;> simp
  have hqueued : ∀ i, (((σ.setRuntime j { σ.runtime j with remainingDependencies := n }).enqueue
      j).runtime i).queued = if i = j then true else (σ.runtime i).queued := by
    intro i
    simp only [Executor.enqueue, setRuntime_runtime, Function.update_apply]
    split <;> simp
  have hmem : ∀ i, i ∈ ((σ.setRuntime j { σ.runtime j with remainingDependencies := n }).enqueue
      j).readyNodes ↔ i ∈ σ.readyNodes ∨ i = j := by
    intro i
    exact List.mem_append.trans (or_congr_right List.mem_singleton)
  refine ⟨h.known, ?_, ?_, ?_, ?_, ?_, ?_, ?_, ?_⟩
  -- remaining
  · intro i hi hall
    rw [hremaining, hre.openDeps_eq]
    split
    · rename_i hij
      subst hij
      have := hlast hall
      omega
    · rename_i hij
      rw [h.remaining i hi hall, List.count_cons_of_ne (Ne.symm hij)]
  -- edge
  · intro i hi
    obtain ⟨hsize, hdep, hopen⟩ := h.edge i (List.mem_cons_of_mem j hi)
    refine ⟨hsize, by simpa only [hre.stateOf_eq, hre.graph_eq] using hdep, fun hall => ?_⟩
    obtain ⟨hp, hr⟩ := hopen hall
    refine ⟨by rw [hre.stateOf_eq]; exact hp, fun hm => ?_⟩
    rcases (hmem i).mp hm with hm | rfl
    · exact hr hm
    · -- the node at hand has no mention left
      have hcount := List.count_pos_iff.mpr hi
      have := hlast hall
      omega
  · intro i
    rw [hqueued, hmem]
    split
    · rename_i hij
      simp [hij]
    · rename_i hij
      rw [h.queue i]
      simp [hij]
  · intro i hi
    rw [hre.stateOf_eq]
    rcases (hmem i).mp hi with hi | rfl
    · exact h.ready i hi
    · exact ⟨hj, hpending⟩
  · exact List.nodup_append.mpr ⟨h.nodup, List.nodup_singleton j, fun a ha b hb hab => by
      rw [List.mem_singleton] at hb
      exact hready (hb ▸ hab ▸ ha)⟩
  -- satisfied: the last mention of the node is gone, or one is enough
  · intro i hi hgone
    rw [hre.satisfied_iff]
    rw [hmem, hre.stateOf_eq] at hgone
    rcases hgone with (hgone | rfl) | hgone
    · exact h.satisfied i hi (.inl hgone)
    · rw [Satisfied]
      cases hdep : (σ.graph.node i).dependency with
      | all =>
          intro d hd
          have hzero : σ.openDeps i = 0 := by
            have := hlast hdep
            omega
          rw [openDeps, List.countP_eq_zero] at hzero
          simpa using hzero d hd
      | any => exact .inr hdone
    · exact h.satisfied i hi (.inr hgone)
  · intro i hi hp hr hall
    rw [hre.stateOf_eq] at hp
    rw [hmem, not_or] at hr
    rw [hremaining, if_neg hr.2]
    exact h.waitingAll i hi hp hr.1 hall
  -- waitingAny: the node at hand does not wait any more
  · intro i hi hp hr hany
    rw [hre.stateOf_eq] at hp
    rw [hmem, not_or] at hr
    obtain ⟨hdeps, hedge⟩ := h.waitingAny i hi hp hr.1 hany
    refine ⟨hdeps, fun d hd hd' => ?_⟩
    rw [hre.stateOf_eq] at hd'
    exact (List.mem_cons.mp (hedge d hd hd')).resolve_left hr.2

/-- A mention less is open, but not the last one. -/
theorem Consistent.decrement (h : Consistent (j :: edges) σ) {n : Nat}
    (hall : (σ.graph.node j).dependency = .all) (hn : n = σ.openDeps j + edges.count j)
    (hpos : n ≠ 0) :
    Consistent edges (σ.setRuntime j { σ.runtime j with remainingDependencies := n }) := by
  have hre := requeued_setRemaining σ j n
  have hremaining : ∀ i, ((σ.setRuntime j { σ.runtime j with remainingDependencies := n }).runtime
      i).remainingDependencies = if i = j then n else (σ.runtime i).remainingDependencies := by
    intro i
    simp only [setRuntime_runtime, Function.update_apply]
    split <;> simp
  have hqueued : ∀ i, ((σ.setRuntime j { σ.runtime j with remainingDependencies := n }).runtime
      i).queued = (σ.runtime i).queued := by
    intro i
    simp only [setRuntime_runtime, Function.update_apply]
    split
    · rename_i hij
      rw [hij]
    · rfl
  refine ⟨h.known, ?_, ?_, ?_, ?_, h.nodup, ?_, ?_, ?_⟩
  -- remaining: the count follows the mentions
  · intro i hi hall'
    rw [hremaining, hre.openDeps_eq]
    split
    · rename_i hij
      rw [hij, hn]
    · rename_i hij
      rw [h.remaining i hi hall', List.count_cons_of_ne (Ne.symm hij)]
  · intro i hi
    obtain ⟨hsize, hdep, hopen⟩ := h.edge i (List.mem_cons_of_mem j hi)
    refine ⟨hsize, by simpa only [hre.stateOf_eq, hre.graph_eq] using hdep, fun hall' => ?_⟩
    rw [hre.stateOf_eq]
    exact hopen hall'
  · intro i
    rw [hqueued]
    exact h.queue i
  · intro i hi
    rw [hre.stateOf_eq]
    exact h.ready i hi
  · intro i hi hgone
    rw [hre.satisfied_iff]
    rw [hre.stateOf_eq] at hgone
    exact h.satisfied i hi hgone
  -- waitingAll: the count is not zero yet
  · intro i hi hp hr hall'
    rw [hre.stateOf_eq] at hp
    rw [hremaining]
    split
    · omega
    · exact h.waitingAll i hi hp hr hall'
  -- waitingAny: the node at hand waits for all
  · intro i hi hp hr hany
    rw [hre.stateOf_eq] at hp
    obtain ⟨hdeps, hedge⟩ := h.waitingAny i hi hp hr hany
    refine ⟨hdeps, fun d hd hd' => ?_⟩
    rw [hre.stateOf_eq] at hd'
    rcases List.mem_cons.mp (hedge d hd hd') with rfl | hmem
    · have hany' : (σ.graph.node i).dependency = .any := hany
      rw [hall] at hany'
      cases hany'
    · exact hmem

theorem propagateTo_ok (h : Consistent (j :: edges) σ) :
    ∃ σ', σ.propagateTo j = .ok σ' ∧ Consistent edges σ' ∧ Requeued σ σ' := by
  obtain ⟨hj, hdone, hopen⟩ := h.edge j List.mem_cons_self
  unfold propagateTo
  dsimp only
  split
  · rename_i hgone
    have hgone : j ∈ σ.readyNodes ∨ σ.stateOf j ≠ .pending :=
      hgone.symm.imp_left fun hq => (h.queue j).mp hq
    refine ⟨σ, rfl, h.drop (fun _ hall => ?_) hgone, .refl σ⟩
    obtain ⟨hpending, hready⟩ := hopen hall
    exact hgone.elim hready fun hne => hne hpending
  · rename_i hthere
    simp only [not_or, Decidable.not_not, Bool.not_eq_true] at hthere
    have hpending : σ.stateOf j = .pending := hthere.1
    have hready : j ∉ σ.readyNodes := fun hmem => by
      rw [(h.queue j).mpr hmem] at hthere
      exact Bool.noConfusion hthere.2
    split
    · rename_i hany
      have hall : (σ.graph.node j).dependency ≠ .all := by rw [hany]; decide
      have henqueue := h.enqueue (n := (σ.runtime j).remainingDependencies) hpending hready
        (fun he => absurd he hall)
      rw [setRuntime, Function.update_eq_self] at henqueue
      exact ⟨_, rfl, henqueue, requeued_enqueue σ j⟩
    · rename_i hnany
      have hall : (σ.graph.node j).dependency = .all := by
        cases hdep : (σ.graph.node j).dependency with
        | all => rfl
        | any => exact absurd hdep hnany
      have hremaining := h.remaining j hj hall
      rw [List.count_cons_self] at hremaining
      rw [if_neg (by omega)]
      split
      · rename_i hzero
        exact ⟨_, rfl, h.enqueue hpending hready (fun _ => ⟨hzero, by omega⟩),
          (requeued_setRemaining σ j _).trans (requeued_enqueue _ j)⟩
      · rename_i hpos
        exact ⟨_, rfl, h.decrement hall (by omega) hpos, requeued_setRemaining σ j _⟩

theorem propagateAll_ok (h : Consistent edges σ) :
    ∃ σ', edges.foldlM propagateTo σ = .ok σ' ∧ Consistent [] σ' ∧ Requeued σ σ' := by
  induction edges generalizing σ with
  | nil => exact ⟨σ, rfl, h, .refl σ⟩
  | cons j edges ih =>
      obtain ⟨σ₁, hone, hcons, hre⟩ := propagateTo_ok h
      obtain ⟨σ₂, hrest, hcons₂, hre₂⟩ := ih hcons
      refine ⟨σ₂, ?_, hcons₂, hre.trans hre₂⟩
      rw [List.foldlM_cons]
      exact bind_eq_ok.mpr ⟨σ₁, hone, hrest⟩

/-! ## Leaving the queue -/

theorem openDeps_leave {new : NodeState} (hgraph : σ'.graph = σ.graph)
    (hold : σ.stateOf id ≠ .completed) (hstate : σ'.stateOf id = new)
    (hother : ∀ j, j ≠ id → σ'.stateOf j = σ.stateOf j) (j : Nat) :
    σ.openDeps j =
      σ'.openDeps j + if new = .completed then (σ.graph.deps j).count id else 0 := by
  rw [openDeps, openDeps, hgraph]
  induction σ.graph.deps j with
  | nil => simp
  | cons d ds ih =>
      by_cases hd : d = id
      · subst hd
        rw [List.countP_cons_of_pos (by simpa using hold), ih, List.count_cons_self]
        by_cases hnew : new = .completed
        · rw [List.countP_cons_of_neg (by simp [hstate, hnew]), if_pos hnew, if_pos hnew]
          omega
        · rw [List.countP_cons_of_pos (by simp [hstate, hnew]), if_neg hnew, if_neg hnew]
      · rw [List.countP_cons, List.countP_cons, hother d hd, ih, List.count_cons_of_ne hd]
        omega

/-- A node that is queued or active leaves its state: what is open behind it is what mentions
it, if it completes, and nothing otherwise. -/
theorem Consistent.leave (h : Consistent [] σ) {new : NodeState} (hid : id < σ.graph.size)
    (hgone : id ∈ σ.readyNodes ∨ σ.stateOf id ≠ .pending) (hold : σ.stateOf id ≠ .completed)
    (hnew : new ≠ .pending) (hgraph : σ'.graph = σ.graph)
    (hother : ∀ j, j ≠ id → σ'.runtime j = σ.runtime j) (hstate : σ'.stateOf id = new)
    (hremaining : (σ'.runtime id).remainingDependencies = (σ.runtime id).remainingDependencies)
    (hqueued : (σ'.runtime id).queued = false)
    (hready : ∀ j, j ∈ σ'.readyNodes ↔ j ∈ σ.readyNodes ∧ j ≠ id) (hnodup : σ'.readyNodes.Nodup)
    (hedges : ∀ j, edges.count j = if new = .completed then (σ.graph.deps j).count id else 0) :
    Consistent edges σ' := by
  have hstate_ne : ∀ j, j ≠ id → σ'.stateOf j = σ.stateOf j := fun j hj => by
    rw [stateOf, stateOf, hother j hj]
  have hopen := openDeps_leave hgraph hold hstate hstate_ne
  have hkeep : ∀ d, σ.stateOf d = .completed → σ'.stateOf d = .completed := by
    intro d hd
    rw [hstate_ne d fun hdi => hold (hdi ▸ hd), hd]
  have hsatisfied : ∀ j, σ.Satisfied j → σ'.Satisfied j := by
    intro j hj
    unfold Satisfied at hj ⊢
    rw [hgraph]
    split at hj
    · exact fun d hd => hkeep d (hj d hd)
    · exact hj.imp_right fun ⟨d, hd, hdone⟩ => ⟨d, hd, hkeep d hdone⟩
  have hmem : ∀ j, j ∈ edges ↔ new = .completed ∧ id ∈ σ.graph.deps j := by
    intro j
    rw [← List.count_pos_iff, hedges]
    split
    · rename_i hc
      rw [List.count_pos_iff]
      simp [hc]
    · rename_i hc
      simp [hc]
  refine ⟨hgraph ▸ h.known, ?_, ?_, ?_, ?_, hnodup, ?_, ?_, ?_⟩
  -- remaining: what is open behind `id` becomes its mentions
  · intro j hj hall
    rw [hgraph] at hj hall
    have hj' := h.remaining j hj hall
    rw [List.count_nil, add_zero, hopen j, ← hedges] at hj'
    by_cases hji : j = id
    · rw [hji] at hj' ⊢
      rw [hremaining, hj']
    · rw [hother j hji, hj']
  -- edge
  · intro j hj
    obtain ⟨hc, hdep⟩ := (hmem j).mp hj
    rw [hgraph]
    refine ⟨?_, ⟨id, hdep, hstate.trans hc⟩, fun hall => ?_⟩
    · by_contra hlt
      rw [Graph.deps_of_le (by omega)] at hdep
      cases hdep
    -- a node that needs `id` was still waiting for it
    · have hjsize : j < σ.graph.size := by
        by_contra hlt
        rw [Graph.deps_of_le (by omega)] at hdep
        cases hdep
      have hwaits : ¬ (j ∈ σ.readyNodes ∨ σ.stateOf j ≠ .pending) := fun hg => by
        have hsat := h.satisfied j hjsize hg
        rw [Satisfied, hall] at hsat
        exact hold (hsat id hdep)
      simp only [ne_eq, not_or, Decidable.not_not] at hwaits
      have hji : j ≠ id := by
        rintro rfl
        exact hgone.elim hwaits.1 fun hne => hne hwaits.2
      exact ⟨by rw [hstate_ne j hji]; exact hwaits.2, fun hm => hwaits.1 ((hready j).mp hm).1⟩
  · intro j
    rw [hready]
    by_cases hji : j = id
    · simp [hji, hqueued]
    · rw [hother j hji, h.queue j]
      simp [hji]
  · intro j hj
    obtain ⟨hj, hji⟩ := (hready j).mp hj
    rw [hgraph, hstate_ne j hji]
    exact h.ready j hj
  -- satisfied: no dependency opens again
  · intro j hj hg
    rw [hgraph] at hj
    apply hsatisfied
    by_cases hji : j = id
    · exact h.satisfied j hj (hji ▸ hgone)
    · rw [hready, hstate_ne j hji] at hg
      exact h.satisfied j hj (hg.imp_left And.left)
  · intro j hj hp hr hall
    rw [hgraph] at hj hall
    have hji : j ≠ id := by
      rintro rfl
      exact hnew (hstate.symm.trans hp)
    rw [hother j hji]
    exact h.waitingAll j hj (by rw [← hstate_ne j hji, hp]) (fun hm => hr ((hready j).mpr ⟨hm, hji⟩)) hall
  -- waitingAny: who waits for `id` is mentioned
  · intro j hj hp hr hany
    rw [hgraph] at hj hany
    have hji : j ≠ id := by
      rintro rfl
      exact hnew (hstate.symm.trans hp)
    obtain ⟨hdeps, hedge⟩ := h.waitingAny j hj (by rw [← hstate_ne j hji, hp])
      (fun hm => hr ((hready j).mpr ⟨hm, hji⟩)) hany
    rw [hgraph]
    refine ⟨hdeps, fun d hd hdone => ?_⟩
    by_cases hdi : d = id
    · rw [hmem]
      rw [hdi] at hd hdone
      exact ⟨hstate.symm.trans hdone, hd⟩
    · rw [hstate_ne d hdi] at hdone
      cases hedge d hd hdone

end Executor

end ProtoBridge.Transaction
