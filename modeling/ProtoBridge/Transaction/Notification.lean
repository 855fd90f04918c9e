import ProtoBridge.Transaction.Progress

/-!
# The index and the full scan

In every run, looking an event up in the index leaves the same runtime behind as
testing it against every active wait of the graph, up to the order in which nodes
join the ready queue.
-/

namespace ProtoBridge.Transaction

open Lib

namespace Executor

variable {σ σ' : Executor} {due : List (Nat × Action)} {id j : Nat}

/-! ## The schedule is determined by the states -/

theorem Consistent.mem_readyNodes (h : Consistent [] σ) (j : Nat) :
    j ∈ σ.readyNodes ↔ j < σ.graph.size ∧ σ.stateOf j = .pending ∧ σ.Satisfied j := by
  constructor
  · intro hj
    obtain ⟨hlt, hpending⟩ := h.ready j hj
    exact ⟨hlt, hpending, h.satisfied j hlt (.inl hj)⟩
  · rintro ⟨hlt, hpending, hsatisfied⟩
    by_contra hready
    rw [Satisfied] at hsatisfied
    cases hdep : (σ.graph.node j).dependency with
    | all =>
        rw [hdep] at hsatisfied
        have hopen : σ.openDeps j = 0 := List.countP_eq_zero.mpr fun d hd => by
          rw [hsatisfied d hd]
          decide
        have hpos := h.waitingAll j hlt hpending hready hdep
        have hcount := h.remaining j hlt hdep
        rw [List.count_nil] at hcount
        omega
    | any =>
        rw [hdep] at hsatisfied
        obtain ⟨hne, hedge⟩ := h.waitingAny j hlt hpending hready hdep
        obtain ⟨d, hd, hdone⟩ := hsatisfied.resolve_left hne
        cases hedge d hd hdone

/-- Counts that are not kept up: of nodes that wait for any dependency, and beyond the graph. -/
def Uncounted (g : Graph) (j : Nat) : Prop := g.size ≤ j ∨ (g.node j).dependency = .any

theorem propagateTo_uncounted (h : σ.propagateTo id = .ok σ') (hid : id < σ.graph.size)
    (hj : Uncounted σ.graph j) : σ'.graph = σ.graph ∧
      (σ'.runtime j).remainingDependencies = (σ.runtime j).remainingDependencies := by
  have hset : ∀ (σ : Executor) (id : Nat), ((σ.enqueue id).runtime j).remainingDependencies =
      (σ.runtime j).remainingDependencies := by
    intro σ id
    simp only [enqueue, setRuntime_runtime, Function.update_apply]
    split
    · rename_i hji
      rw [hji]
    · rfl
  unfold propagateTo at h
  dsimp only at h
  split at h
  · cases h
    exact ⟨rfl, rfl⟩
  · split at h
    · cases h
      exact ⟨rfl, hset _ _⟩
    · rename_i hnany
      have hji : j ≠ id := by
        rintro rfl
        rcases hj with hle | hany
        · omega
        · exact hnany hany
      split at h
      · cases h
      · split at h
        · cases h
          refine ⟨rfl, ?_⟩
          rw [hset, setRuntime_runtime, Function.update_of_ne hji]
        · cases h
          exact ⟨rfl, by rw [setRuntime_runtime, Function.update_of_ne hji]⟩

theorem propagateAll_uncounted {edges : List Nat} (h : edges.foldlM propagateTo σ = .ok σ')
    (hedges : ∀ i ∈ edges, i < σ.graph.size) (hj : Uncounted σ.graph j) :
    σ'.graph = σ.graph ∧
      (σ'.runtime j).remainingDependencies = (σ.runtime j).remainingDependencies := by
  induction edges generalizing σ with
  | nil =>
      cases h
      exact ⟨rfl, rfl⟩
  | cons i edges ih =>
      rw [List.foldlM_cons] at h
      obtain ⟨σ₁, hone, hrest⟩ := bind_eq_ok.mp h
      obtain ⟨hgraph, hcount⟩ := propagateTo_uncounted hone (hedges i List.mem_cons_self) hj
      rw [← hgraph] at hedges hj
      obtain ⟨hgraph', hcount'⟩ := ih hrest (fun i hi => hedges i (List.mem_cons_of_mem _ hi)) hj
      exact ⟨hgraph'.trans hgraph, hcount'.trans hcount⟩

theorem markCompleted_uncounted (h : σ.markCompleted id = .ok σ') (hj : Uncounted σ.graph j) :
    σ'.graph = σ.graph ∧
      (σ'.runtime j).remainingDependencies = (σ.runtime j).remainingDependencies := by
  unfold markCompleted at h
  split at h
  · cases h
    exact ⟨rfl, rfl⟩
  · obtain ⟨hgraph, hcount⟩ :=
      propagateAll_uncounted (σ := σ.move id .completed) h (fun i hi => Graph.lt_of_mem_successors hi) hj
    refine ⟨hgraph, hcount.trans ?_⟩
    simp only [move, record_runtime, setRuntime_runtime, Function.update_apply]
    split
    · rename_i hji
      rw [hji]
    · rfl

theorem completeAll_uncounted {ids : List Nat} (h : ids.foldlM markCompleted σ = .ok σ')
    (hj : Uncounted σ.graph j) :
    (σ'.runtime j).remainingDependencies = (σ.runtime j).remainingDependencies := by
  induction ids generalizing σ with
  | nil =>
      cases h
      rfl
  | cons i ids ih =>
      rw [List.foldlM_cons] at h
      obtain ⟨σ₁, hone, hrest⟩ := bind_eq_ok.mp h
      obtain ⟨hgraph, hcount⟩ := markCompleted_uncounted hone hj
      exact (ih hrest (hgraph ▸ hj)).trans hcount

/-- Completing the same nodes in another order leaves the same runtime behind. -/
theorem completeAll_perm {ids ids' : List Nat} {σ₁ σ₂ : Executor}
    (h₁ : ids.foldlM markCompleted σ = .ok σ₁) (hdone₁ : CompletedAll due σ ids σ₁)
    (h₂ : ids'.foldlM markCompleted σ = .ok σ₂) (hdone₂ : CompletedAll due σ ids' σ₂)
    (hperm : ids.Perm ids') : σ₁.runtime = σ₂.runtime ∧ σ₁.readyNodes.Perm σ₂.readyNodes := by
  have hgraph₁ := hdone₁.graph_eq
  have hgraph₂ := hdone₂.graph_eq
  have hstate : ∀ j, σ₁.stateOf j = σ₂.stateOf j := by
    intro j
    rw [hdone₁.states, hdone₂.states]
    exact if_congr hperm.mem_iff rfl rfl
  have hready : ∀ j, j ∈ σ₁.readyNodes ↔ j ∈ σ₂.readyNodes := by
    intro j
    rw [hdone₁.sound.consistent.mem_readyNodes, hdone₂.sound.consistent.mem_readyNodes]
    simp only [Satisfied, hstate, hgraph₁, hgraph₂]
  have hremaining : ∀ j, (σ₁.runtime j).remainingDependencies =
      (σ₂.runtime j).remainingDependencies := by
    intro j
    by_cases hj : Uncounted σ.graph j
    · rw [completeAll_uncounted h₁ hj, completeAll_uncounted h₂ hj]
    · simp only [Uncounted, not_or, not_le] at hj
      have hall : (σ.graph.node j).dependency = .all := by
        cases hdep : (σ.graph.node j).dependency with
        | all => rfl
        | any => exact absurd hdep hj.2
      have hcount₁ := hdone₁.sound.consistent.remaining j (hgraph₁ ▸ hj.1) (hgraph₁ ▸ hall)
      have hcount₂ := hdone₂.sound.consistent.remaining j (hgraph₂ ▸ hj.1) (hgraph₂ ▸ hall)
      rw [hcount₁, hcount₂]
      simp only [openDeps, hstate, hgraph₁, hgraph₂]
  refine ⟨funext fun j => ?_, (List.perm_ext_iff_of_nodup hdone₁.sound.consistent.nodup
    hdone₂.sound.consistent.nodup).mpr hready⟩
  have hobserved := (hdone₁.observed j).trans (hdone₂.observed j).symm
  simp only [observed, Prod.mk.injEq] at hobserved
  have hqueued : (σ₁.runtime j).queued = (σ₂.runtime j).queued := by
    rw [Bool.eq_iff_iff, hdone₁.sound.consistent.queue, hdone₂.sound.consistent.queue]
    exact hready j
  have hs : (σ₁.runtime j).state = (σ₂.runtime j).state := hstate j
  have hr := hremaining j
  obtain ⟨hbytes, hevents⟩ := hobserved
  cases h₁j : σ₁.runtime j
  cases h₂j : σ₂.runtime j
  rw [h₁j, h₂j] at hs hr hqueued hbytes hevents
  simp_all

/-! ## Dispatch -/

/-- What it means that the index serves an event as the full scan does. -/
structure Dispatched (σ : Executor) (e : Event) : Prop where
  /-- The lookups credit the waits that the tests credit. -/
  credits : (σ.probe e).1 = (σ.scan e).1
  completes : (σ.probe e).2.Perm (σ.scan e).2
  /-- These are the active waits that accept the event, each of them once. -/
  credited : ∀ j, (σ.scan e).1 j =
    if (σ.graph.node j).type = .wait ∧ σ.stateOf j = .active ∧
      (σ.graph.node j).matcher.accepts e = true then credit (σ.runtime j) e else σ.runtime j
  once : (σ.scan e).2.Nodup
  /-- Completing the waits that are met leaves the same runtime behind. -/
  settles : ∃ σ₁ σ₂, σ.settle (σ.probe e) = .ok σ₁ ∧ σ.settle (σ.scan e) = .ok σ₂ ∧
    σ₁.runtime = σ₂.runtime ∧ σ₁.readyNodes.Perm σ₂.readyNodes
  /-- `NotifyEvent` credits these waits and completes those whose targets are met. -/
  notifies : σ.started = true → σ.complete = false → ∃ σ', σ.notifyEvent e = .ok σ' ∧
    (∀ j, ((σ'.runtime j).observedBytes, (σ'.runtime j).observedEvents) =
      (((σ.scan e).1 j).observedBytes, ((σ.scan e).1 j).observedEvents)) ∧
    ∀ j, σ.stateOf j ≠ .pending → σ'.stateOf j = if (σ.graph.node j).type = .wait ∧
      σ.stateOf j = .active ∧ (σ.graph.node j).matcher.accepts e = true ∧
        targetsMet (σ.graph.node j) (credit (σ.runtime j) e) = true then .completed
      else σ.stateOf j

theorem indexed_setGraph (g : Graph) (t : Int) : Indexed { setGraph g with now := t } := by
  intro key j
  rw [if_neg fun h => h.2.1 rfl]
  rfl

theorem Indexed.dispatched (h : σ.Indexed) {e : Event}
    (hsettles : ∀ ids : List Nat, ids.Nodup → (∀ j ∈ ids, σ.Reached e j) →
      ∃ σ', σ.settle (σ.creditedRuntime e, ids) = .ok σ' ∧
        ∀ ids' : List Nat, ids.Perm ids' → ∃ σ'', σ.settle (σ.creditedRuntime e, ids') = .ok σ'' ∧
          σ'.runtime = σ''.runtime ∧ σ'.readyNodes.Perm σ''.readyNodes)
    (hrun : σ.started = true → σ.Running) : σ.Dispatched e := by
  obtain ⟨hcredits, hperm⟩ := h.probe_scan e
  have hscan := scan_eq σ e
  have hprobe := h.probe e
  refine ⟨hcredits, hperm, ?_, ?_, ?_, ?_⟩
  · intro j
    rw [hscan]
    rfl
  · rw [hscan]
    exact List.nodup_range.filter _
  · rw [hprobe, hscan] at hperm ⊢
    obtain ⟨σ₁, hsettle₁, hother⟩ := hsettles _ ((h.nodup_found e).filter _)
      (fun j hj => of_decide_eq_true (List.mem_filter.mp hj).2)
    obtain ⟨σ₂, hsettle₂, hsame⟩ := hother _ hperm
    exact ⟨σ₁, σ₂, hsettle₁, hsettle₂, hsame⟩
  -- notifies
  · intro hstarted hcomplete
    obtain ⟨σ', hnotify, hnotified⟩ := notifyEvent_ok (hrun hstarted) e
    refine ⟨σ', hnotify, ?_, ?_⟩
    · intro j
      rw [hscan]
      exact hnotified.observed hcomplete j
    · intro j hj
      rw [hnotified.states hcomplete j hj]
      refine if_congr ?_ rfl rfl
      simp only [Reached, Credited, and_assoc]

/-- In every run, events reach the waits by the index as they would by a full scan. -/
theorem dispatch_eq_scan {g : Graph} (hg : g.validate = .ok ()) :
    (executorMachine g).Invariant fun σ => ∀ e, σ.Dispatched e := by
  intro σ hreach e
  obtain ⟨-, ⟨t, rfl⟩ | hrun⟩ := settled_invariant (Graph.valid_of_validate hg) σ hreach
  · refine (indexed_setGraph g t).dispatched ?_ fun hstarted => by cases hstarted
    intro ids _ hids
    -- nothing is met before the start
    have hnone : ids = [] := by
      rw [List.eq_nil_iff_forall_not_mem]
      intro j hj
      have hactive := (hids j hj).1.2.1
      cases hactive
    subst hnone
    refine ⟨_, rfl, fun ids' hperm => ?_⟩
    rw [List.nil_perm.mp hperm]
    exact ⟨_, rfl, rfl, List.Perm.refl _⟩
  · refine hrun.sound.indexed.dispatched ?_ fun _ => hrun
    intro ids hnodup hids
    obtain ⟨σ₁, hsettle₁, hdone₁⟩ := settle_ok hrun.sound e hnodup hids
    refine ⟨σ₁, hsettle₁, fun ids' hperm => ?_⟩
    obtain ⟨σ₂, hsettle₂, hdone₂⟩ := settle_ok hrun.sound e (hperm.nodup_iff.mp hnodup)
      (fun j hj => hids j (hperm.mem_iff.mpr hj))
    exact ⟨σ₂, hsettle₂, completeAll_perm hsettle₁ hdone₁ hsettle₂ hdone₂ hperm⟩

/-- The second event carries the stage that matches every stage, and meets the wait. -/
theorem dispatch_eq_scan_eitherGraph : ∃ σ, (executorMachine eitherGraph).Reachable σ ∧
    σ.Dispatched { bytes := 60, stageId := anyStage } ∧
    (σ.probe { bytes := 60, stageId := anyStage }).2 = [1] := by
  have hrun : ((executorMachine eitherGraph).runs (.setGraph eitherGraph)
      [.start, .notify { bytes := 60 }]).map
        (fun σ => (σ.probe { bytes := 60, stageId := anyStage }).2) = some [1] := rfl
  obtain ⟨σ, hreach, hobs⟩ := Machine.Reachable.exists_of_runs rfl hrun
  exact ⟨σ, hreach, dispatch_eq_scan (by decide) σ hreach _, hobs⟩

end Executor

end ProtoBridge.Transaction
