import ProtoBridge.Transaction.Dispatch

/-!
# Safety and progress of transactions

Every step of the executor returns and keeps `Running`; when nothing runs and the
transaction is not complete, some wait or delay of the graph is active, by the rank
of the dependencies.
-/

namespace ProtoBridge.Transaction

open Lib

namespace Executor

variable {σ σ' : Executor} {due : List (Nat × Action)} {id : Nat}

/-! ## Rounds -/

/-- A started executor between two steps: the queue is only filled while a callback runs that
has asked for another round. -/
structure Running (σ : Executor) : Prop where
  started : σ.started = true
  sound : Sound σ.calls.tail σ
  advancing : σ.advancing = true ↔ σ.calls ≠ []
  idle : σ.calls = [] → σ.readyNodes = []
  requested : σ.readyNodes ≠ [] → σ.advanceRequested = true
  ahead : ∀ c ∈ σ.calls, σ.Ahead c.1
  owned : ∀ c ∈ σ.calls, c.1 < σ.graph.size ∧ (σ.graph.node c.1).type = .action ∧
    c.2 = (σ.graph.node c.1).action ∧ σ.stateOf c.1 = .completed
  told : σ.calls = [] → σ.complete = true → σ.completionNotified = true

theorem Sound.callActions {c : Nat × Action} {rest : List (Nat × Action)}
    (h : Sound (c :: rest) σ) (hahead : σ.Ahead c.1) : Sound rest (σ.callActions (c :: rest)) := by
  obtain ⟨id, action⟩ := c
  refine ⟨h.consistent.congr rfl (fun _ => rfl) rfl, ?_, h.flagged,
    h.indexed.congr rfl rfl fun j _ => Iff.rfl, h.armed⟩
  refine h.chronicle.note (e := Obs.acted id action) (fun _ _ _ he => by cases he) rfl rfl
    (fun _ => rfl) rfl ?_ ?_
  · intro w hw hwait hne hdeps
    exact h.chronicle.activated w hwait (hahead w hw hwait hne hdeps)
  · show (σ.log ++ [Obs.acted id action]).count .notified = if σ.completionNotified then 1 else 0
    rw [List.count_append, h.chronicle.notified]
    simp

theorem Sound.finishAdvance (h : Sound due σ) : Sound due σ.finishAdvance := by
  unfold Executor.finishAdvance maybeNotifyCompletion
  split
  · rename_i hnotify
    simp only [Bool.and_eq_true, Bool.not_eq_true'] at hnotify
    obtain ⟨hcomplete, hnotified⟩ := hnotify
    refine ⟨h.consistent.congr rfl (fun _ => rfl) rfl, ?_, h.flagged,
      h.indexed.congr rfl rfl fun j _ => Iff.rfl, h.armed⟩
    refine h.chronicle.note (e := Obs.notified) (fun _ _ _ he => by cases he) rfl rfl (fun _ => rfl)
      rfl ?_ ?_
    · -- the flag was set by the completion node
      obtain ⟨c, hc, htype, hdone⟩ := h.flagged.mp hcomplete
      exact ⟨c, hc, htype, (h.chronicle.completed_iff c).mpr hdone⟩
    · have hcount := h.chronicle.notified
      rw [show σ.completionNotified = false from hnotified] at hcount
      show (σ.log ++ [Obs.notified]).count .notified = 1
      rw [List.count_append, hcount]
      rfl
  · exact h.congr rfl (fun _ => rfl) rfl rfl rfl rfl rfl fun _ hi => hi

theorem finishAdvance_eq (σ : Executor) :
    σ.finishAdvance = { σ with
      advancing := false
      completionNotified := σ.finishAdvance.completionNotified
      log := σ.finishAdvance.log } := by
  unfold finishAdvance maybeNotifyCompletion
  split <;> rfl

theorem finishAdvance_told (h : σ.finishAdvance.complete = true) :
    σ.finishAdvance.completionNotified = true := by
  unfold finishAdvance maybeNotifyCompletion at h ⊢
  split
  · rfl
  · rename_i hno
    rw [if_neg hno] at h
    simp only [Bool.and_eq_true, Bool.not_eq_true', not_and, Bool.not_eq_false] at hno
    exact hno h

/-- Nodes that have left PENDING keep their state, no wait completes and none sees anything;
where callbacks are due, actions have left PENDING. -/
structure Kept (σ σ' : Executor) : Prop where
  graph : σ'.graph = σ.graph
  states : ∀ j, σ.stateOf j ≠ .pending → σ'.stateOf j = σ.stateOf j
  observed : ∀ j, σ'.observed j = σ.observed j
  waits : ∀ j, (σ.graph.node j).type = .wait → σ'.stateOf j = .completed → σ.stateOf j = .completed
  calls : σ.calls = [] → σ'.calls ≠ [] →
    ∃ j < σ.graph.size, (σ.graph.node j).type = .action ∧ σ.stateOf j = .pending
  notified : σ'.completionNotified = σ.completionNotified ∨
    σ'.calls = [] ∧ σ'.completionNotified = true

theorem finishAdvance_notified (σ : Executor) :
    σ.finishAdvance.completionNotified = σ.completionNotified ∨
      σ.finishAdvance.completionNotified = true := by
  unfold finishAdvance maybeNotifyCompletion
  split
  · exact .inr rfl
  · exact .inl rfl

theorem Kept.finishAdvance (hnil : σ'.calls = []) (h : Kept σ σ') : Kept σ σ'.finishAdvance := by
  have hruntime : σ'.finishAdvance.runtime = σ'.runtime := by rw [finishAdvance_eq]
  have hgraph : σ'.finishAdvance.graph = σ'.graph := by rw [finishAdvance_eq]
  have hcalls : σ'.finishAdvance.calls = σ'.calls := by rw [finishAdvance_eq]
  refine ⟨hgraph.trans h.graph, ?_, ?_, ?_, ?_, ?_⟩
  · intro j hj
    rw [stateOf, hruntime]
    exact h.states j hj
  · intro j
    rw [Executor.observed, hruntime]
    exact h.observed j
  · intro j hj hdone
    rw [stateOf, hruntime] at hdone
    exact h.waits j hj hdone
  · rw [hcalls]
    exact h.calls
  · rw [hcalls]
    rcases finishAdvance_notified σ' with hsame | hset
    · rw [hsame]
      exact h.notified
    · exact .inr ⟨hnil, hset⟩

theorem running_finishAdvance (h : Sound [] σ) (hstarted : σ.started = true) (hcalls : σ.calls = [])
    (hready : σ.readyNodes = []) : σ.finishAdvance.Running := by
  have hcalls' : σ.finishAdvance.calls = [] := by
    rw [finishAdvance_eq]
    exact hcalls
  have hready' : σ.finishAdvance.readyNodes = [] := by
    rw [finishAdvance_eq]
    exact hready
  refine ⟨?_, ?_, ?_, fun _ => hready', fun hne => absurd hready' hne, ?_, ?_, ?_⟩
  · rw [finishAdvance_eq]
    exact hstarted
  · rw [hcalls']
    exact h.finishAdvance
  · rw [hcalls', finishAdvance_eq]
    simp
  · rw [hcalls']
    intro c hc
    cases hc
  · rw [hcalls']
    intro c hc
    cases hc
  · exact fun _ => finishAdvance_told

/-- A round starts its first callback or ends `Advance`. -/
theorem advanceRound_ok (h : Sound [] σ) (hstarted : σ.started = true)
    (hadvancing : σ.advancing = true) (hcalls : σ.calls = []) :
    ∃ σ', σ.advanceRound = .ok σ' ∧ σ'.Running ∧ Kept σ σ' := by
  have hsound : Sound [] { σ with advanceRequested := false } :=
    h.congr rfl (fun _ => rfl) rfl rfl rfl rfl rfl fun _ hi => hi
  have hfuel : (pendingNodes { σ with advanceRequested := false }).card ≤ σ.graph.size := by
    refine (Finset.card_filter_le _ _).trans ?_
    rw [Finset.card_range]
  obtain ⟨σ₁, more, hdrain, hdrained⟩ := @drain_ok _ _ _ [] hsound hfuel
  have hflags := hdrained.flags
  simp only [flags, Prod.mk.injEq] at hflags
  obtain ⟨hgraph, hstarted₁, hnotified₁, hadvancing₁, -, hcalls₁⟩ := hflags
  have hsound₁ := hdrained.sound
  rw [List.nil_append] at hsound₁ hdrain
  cases more with
  | nil =>
      refine ⟨σ₁.finishAdvance, bind_eq_ok.mpr ⟨_, hdrain, rfl⟩, ?_, ?_⟩
      · exact running_finishAdvance hsound₁ (hstarted₁.trans hstarted) (hcalls₁.trans hcalls)
          hdrained.empty
      · refine Kept.finishAdvance (hcalls₁.trans hcalls)
          ⟨hgraph, hdrained.keep, hdrained.observed, hdrained.waits, ?_, .inl hnotified₁⟩
        intro _ hne
        exact absurd (hcalls₁.trans hcalls) hne
  | cons c rest =>
      obtain ⟨id, action⟩ := c
      have hahead : ∀ c ∈ (id, action) :: rest, σ₁.Ahead c.1 := fun c hc =>
        hsound₁.consistent.ahead hdrained.empty (hdrained.done c hc).2.1
      refine ⟨σ₁.callActions ((id, action) :: rest), bind_eq_ok.mpr ⟨_, hdrain, rfl⟩, ?_,
        hgraph, hdrained.keep, hdrained.observed, hdrained.waits, ?_, .inl hnotified₁⟩
      swap
      · intro _ _
        obtain ⟨hlt, -, hpending, htype, -⟩ := hdrained.done _ List.mem_cons_self
        exact ⟨id, hlt, htype, hpending⟩
      refine ⟨hstarted₁.trans hstarted, ?_, ?_, ?_, ?_, ?_, ?_, ?_⟩
      · exact hsound₁.callActions (hahead _ List.mem_cons_self)
      · exact iff_of_true (hadvancing₁.trans hadvancing) (List.cons_ne_nil _ _)
      · exact fun hnil => absurd hnil (List.cons_ne_nil _ _)
      · exact fun hne => absurd hdrained.empty hne
      · exact hahead
      · intro c hc
        obtain ⟨hlt, hdone, -, htype, haction⟩ := hdrained.done c hc
        have hsame : (σ₁.callActions ((id, action) :: rest)).graph = σ.graph := hgraph
        rw [hsame]
        exact ⟨hlt, htype, haction, hdone⟩
      · exact fun hnil => absurd hnil (List.cons_ne_nil _ _)

theorem advance_ok (h : Sound [] σ) (hstarted : σ.started = true) (hadvancing : σ.advancing = false)
    (hcalls : σ.calls = []) :
    ∃ σ', σ.advance = .ok σ' ∧ σ'.Running ∧ Kept σ σ' := by
  have hsound : Sound [] { σ with advancing := true } :=
    h.congr rfl (fun _ => rfl) rfl rfl rfl rfl rfl fun _ hi => hi
  obtain ⟨σ', hround, hrunning, hkept⟩ := advanceRound_ok hsound hstarted rfl hcalls
  refine ⟨σ', ?_, hrunning, hkept.graph, hkept.states, hkept.observed, hkept.waits, hkept.calls,
    hkept.notified⟩
  rw [advance, if_neg (by rw [hadvancing]; decide)]
  exact hround

/-- The running callback returns. -/
theorem callbackReturn_ok (h : σ.Running) (hcalls : σ.calls ≠ []) :
    ∃ σ', σ.callbackReturn = .ok σ' ∧ σ'.Running ∧ Kept σ σ' := by
  have hsound := h.sound
  have hadvancing := h.advancing.mpr hcalls
  rw [callbackReturn]
  match hcs : σ.calls with
  | [] => exact absurd hcs hcalls
  | [c] =>
      rw [hcs] at hsound
      have hsound' : Sound [] { σ with calls := [] } :=
        hsound.congr rfl (fun _ => rfl) rfl rfl rfl rfl rfl fun _ hi => hi
      show ∃ σ', (if σ.advanceRequested = true then advanceRound { σ with calls := [] }
        else .ok (finishAdvance { σ with calls := [] })) = .ok σ' ∧ _
      split
      · obtain ⟨σ', hround, hrunning, hkept⟩ := advanceRound_ok hsound' h.started hadvancing rfl
        exact ⟨σ', hround, hrunning, hkept.graph, hkept.states, hkept.observed, hkept.waits,
          fun hnil => absurd hnil hcalls, hkept.notified⟩
      · rename_i hrequested
        have hready : σ.readyNodes = [] := by
          by_contra hne
          exact hrequested (h.requested hne)
        refine ⟨_, rfl, ?_, ?_⟩
        · exact running_finishAdvance hsound' h.started rfl hready
        · have hsame : Kept { σ with calls := [] } { σ with calls := [] } :=
            ⟨rfl, fun _ _ => rfl, fun _ => rfl, fun _ _ hdone => hdone, fun hnil hne => absurd hnil hne,
              .inl rfl⟩
          have hkept := hsame.finishAdvance rfl
          exact ⟨hkept.graph, hkept.states, hkept.observed, hkept.waits,
            fun hnil => absurd hnil hcalls, hkept.notified⟩
  | c₁ :: c₂ :: rest =>
      obtain ⟨id, action⟩ := c₂
      rw [hcs] at hsound
      have hahead : ∀ c ∈ (id, action) :: rest, σ.Ahead c.1 := fun c hc =>
        h.ahead c (by rw [hcs]; exact List.mem_cons_of_mem _ hc)
      refine ⟨σ.callActions ((id, action) :: rest), rfl, ?_, rfl, fun _ _ => rfl, fun _ => rfl,
        fun _ _ hdone => hdone, fun hnil => absurd hnil hcalls, .inl rfl⟩
      refine ⟨h.started, hsound.callActions (hahead _ List.mem_cons_self), ?_, ?_, h.requested, hahead,
        fun c hc => h.owned c (by rw [hcs]; exact List.mem_cons_of_mem _ hc), ?_⟩
      · exact iff_of_true hadvancing (List.cons_ne_nil _ _)
      · exact fun hnil => absurd hnil (List.cons_ne_nil _ _)
      · exact fun hnil => absurd hnil (List.cons_ne_nil _ _)

/-! ## Events -/

theorem type_of_active (h : Sound due σ) (hstate : σ.stateOf id = .active) :
    id < σ.graph.size ∧ (σ.graph.node id).type ≠ .complete := by
  have htype := h.chronicle.timed id hstate
  refine ⟨?_, ?_⟩
  · by_contra hlt
    rw [Graph.node, List.getD_eq_default _ _ (not_lt.mp hlt)] at htype
    rcases htype with htype | htype <;> cases htype
  · rcases htype with htype | htype <;> rw [htype] <;> decide

/-- What completing some active nodes does. -/
structure CompletedAll (due : List (Nat × Action)) (σ : Executor) (ids : List Nat) (σ' : Executor) :
    Prop where
  sound : Sound due σ'
  rest : σ' = { σ with runtime := σ'.runtime, readyNodes := σ'.readyNodes, log := σ'.log }
  states : ∀ j, σ'.stateOf j = if j ∈ ids then .completed else σ.stateOf j
  observed : ∀ j, σ'.observed j = σ.observed j

theorem markCompleted_ok (h : Sound due σ) (hstate : σ.stateOf id = .active) :
    ∃ σ', σ.markCompleted id = .ok σ' ∧ CompletedAll due σ [id] σ' := by
  obtain ⟨hid, htype⟩ := type_of_active h hstate
  obtain ⟨σ', hmark, hcons, hchr, hstates, hobserved, hrest⟩ :=
    markCompleted_active h.consistent h.chronicle hid hstate
  refine ⟨σ', hmark, ⟨hcons, hchr, ?_, ?_, ?_⟩, hrest, ?_, hobserved⟩
  · refine h.flagged.congr (by rw [hrest]) (by rw [hrest]) fun c hc => ?_
    rw [hstates, if_neg]
    rintro rfl
    exact htype hc
  · refine h.indexed.congr (by rw [hrest]) (by rw [hrest]) fun j _ => ?_
    rw [hstates]
    split
    · rename_i hj
      rw [hj, hstate]
      decide
    · rfl
  · rw [Armed, hrest]
    exact h.armed
  · intro j
    rw [hstates]
    simp only [List.mem_singleton]

variable {ids : List Nat} {g : Graph}

theorem completeAll_ok (h : Sound due σ) (hnodup : ids.Nodup)
    (hactive : ∀ j ∈ ids, σ.stateOf j = .active) :
    ∃ σ', ids.foldlM markCompleted σ = .ok σ' ∧ CompletedAll due σ ids σ' := by
  induction ids generalizing σ with
  | nil => exact ⟨σ, rfl, h, rfl, fun j => by simp, fun _ => rfl⟩
  | cons id ids ih =>
      obtain ⟨hid, hnodup⟩ := List.nodup_cons.mp hnodup
      obtain ⟨σ₁, hmark, hone⟩ := markCompleted_ok h (hactive id List.mem_cons_self)
      have hactive₁ : ∀ j ∈ ids, σ₁.stateOf j = .active := by
        intro j hj
        rw [hone.states, if_neg]
        · exact hactive j (List.mem_cons_of_mem id hj)
        · rw [List.mem_singleton]
          exact fun hji => hid (hji ▸ hj)
      obtain ⟨σ₂, hfold, hrest⟩ := ih hone.sound hnodup hactive₁
      refine ⟨σ₂, ?_, hrest.sound, ?_, ?_, fun j => (hrest.observed j).trans (hone.observed j)⟩
      · rw [List.foldlM_cons]
        exact bind_eq_ok.mpr ⟨σ₁, hmark, hfold⟩
      · rw [hrest.rest, hone.rest]
      · intro j
        rw [hrest.states, hone.states]
        simp only [List.mem_cons]
        by_cases hj : j ∈ ids <;> simp [hj]

theorem CompletedAll.graph_eq (h : CompletedAll due σ ids σ') :
    σ'.graph = σ.graph := by rw [h.rest]

/-- `Advance` behind the completion of a wait or a delay. -/
theorem advance_running (h : σ.Running) (hdone : CompletedAll σ.calls.tail σ ids σ') :
    ∃ σ'', σ'.advance = .ok σ'' ∧ σ''.Running ∧ Kept σ' σ'' := by
  have hcalls : σ'.calls = σ.calls := by rw [hdone.rest]
  have hstarted : σ'.started = true := by rw [hdone.rest]; exact h.started
  have hadvancing : σ'.advancing = σ.advancing := by rw [hdone.rest]
  by_cases hidle : σ.calls = []
  · have hsound := hdone.sound
    rw [hidle] at hsound
    exact advance_ok hsound hstarted
      (by rw [hadvancing, ← Bool.not_eq_true, h.advancing, not_not]; exact hidle)
      (hcalls.trans hidle)
  -- a callback is running: another round is requested
  · have hbusy : σ'.advancing = true := hadvancing.trans (h.advancing.mpr hidle)
    refine ⟨{ σ' with advanceRequested := true }, by rw [advance, if_pos hbusy], ?_, rfl,
      fun _ _ => rfl, fun _ => rfl, fun _ _ hdone' => hdone', fun hnil hne => absurd hnil hne,
      .inl rfl⟩
    refine ⟨hstarted, ?_, ?_, ?_, fun _ => rfl, ?_, ?_,
      fun hnil => absurd (hcalls.symm.trans hnil) hidle⟩
    · show Sound σ'.calls.tail { σ' with advanceRequested := true }
      rw [hcalls]
      exact hdone.sound.congr rfl (fun _ => rfl) rfl rfl rfl rfl rfl fun _ hi => hi
    · exact iff_of_true hbusy (by show σ'.calls ≠ []; rw [hcalls]; exact hidle)
    · exact fun hnil => absurd (hcalls.symm.trans hnil) hidle
    -- ahead: what was completed does not wait
    · show ∀ c ∈ σ'.calls, Ahead { σ' with advanceRequested := true } c.1
      rw [hcalls]
      intro c hc w hw hwait hne hdeps
      rw [show ({ σ' with advanceRequested := true } : Executor).graph = σ.graph from hdone.graph_eq]
        at hw hwait hne hdeps
      show σ'.stateOf w ≠ _
      rw [hdone.states]
      split
      · decide
      · exact h.ahead c hc w hw hwait hne hdeps
    -- owned: a completed node stays so
    · show ∀ c ∈ σ'.calls, c.1 < σ'.graph.size ∧ (σ'.graph.node c.1).type = .action ∧
        c.2 = (σ'.graph.node c.1).action ∧ σ'.stateOf c.1 = .completed
      rw [hcalls, hdone.graph_eq]
      intro c hc
      obtain ⟨hlt, htype, haction, hcompleted⟩ := h.owned c hc
      refine ⟨hlt, htype, haction, ?_⟩
      rw [hdone.states]
      split
      · rfl
      · exact hcompleted

theorem schedule_credited (σ : Executor) (e : Event) (j : Nat) :
    schedule { σ with runtime := σ.creditedRuntime e } j = σ.schedule j := by
  simp only [schedule, creditedRuntime]
  split
  · rw [credit_state, credit_remainingDependencies, credit_queued]
  · rfl

theorem settle_ok (h : Sound due σ) (e : Event) (hnodup : ids.Nodup)
    (hids : ∀ j ∈ ids, σ.Reached e j) :
    ∃ σ', σ.settle (σ.creditedRuntime e, ids) = .ok σ' ∧
      CompletedAll due { σ with runtime := σ.creditedRuntime e } ids σ' := by
  have hschedule := schedule_credited σ e
  have hsound : Sound due { σ with runtime := σ.creditedRuntime e } :=
    h.congr rfl hschedule rfl rfl rfl rfl rfl fun _ hi => hi
  refine completeAll_ok hsound hnodup fun j hj => ?_
  rw [stateOf_congr (hschedule j)]
  exact (hids j hj).1.2.1

theorem Running.congr (h : σ.Running)
    (hrest : σ' = { σ with runtime := σ'.runtime, delays := σ'.delays, now := σ'.now })
    (hschedule : ∀ j, σ'.schedule j = σ.schedule j) (hdelays : ∀ i ∈ σ'.delays, i ∈ σ.delays) :
    σ'.Running := by
  have hgraph : σ'.graph = σ.graph := by rw [hrest]
  have hready : σ'.readyNodes = σ.readyNodes := by rw [hrest]
  have hcalls : σ'.calls = σ.calls := by rw [hrest]
  have hadvancing : σ'.advancing = σ.advancing := by rw [hrest]
  refine ⟨?_, ?_, ?_, ?_, ?_, ?_, ?_, ?_⟩
  · rw [hrest]
    exact h.started
  · rw [hcalls]
    refine h.sound.congr hgraph hschedule hready ?_ ?_ ?_ ?_ hdelays
    all_goals rw [hrest]
  · rw [hcalls, hadvancing]
    exact h.advancing
  · rw [hcalls, hready]
    exact h.idle
  · rw [hready]
    intro hne
    rw [hrest]
    exact h.requested hne
  · rw [hcalls]
    intro c hc w hw hwait hne hdeps
    rw [hgraph] at hw hwait hne hdeps
    rw [stateOf_congr (hschedule w)]
    exact h.ahead c hc w hw hwait hne hdeps
  · rw [hcalls, hgraph]
    intro c hc
    rw [stateOf_congr (hschedule c.1)]
    exact h.owned c hc
  · rw [hcalls]
    intro hnil hcomplete
    rw [hrest] at hcomplete ⊢
    exact h.told hnil hcomplete

/-- What `NotifyEvent` does while the transaction runs: active waits are credited with the event
if they accept it, and are completed if it meets their targets. -/
structure Notified (σ : Executor) (e : Event) (σ' : Executor) : Prop where
  running : σ'.Running
  graph : σ'.graph = σ.graph
  ended : σ.complete = true → σ' = σ
  observed : σ.complete = false →
    ∀ j, σ'.observed j = observed { σ with runtime := σ.creditedRuntime e } j
  states : σ.complete = false → ∀ j, σ.stateOf j ≠ .pending →
    σ'.stateOf j = if σ.Reached e j then .completed else σ.stateOf j
  waits : σ.complete = false → ∀ j, (σ.graph.node j).type = .wait → σ'.stateOf j = .completed →
    σ.stateOf j = .completed ∨ σ.Reached e j
  calls : σ.calls = [] → σ'.calls ≠ [] →
    ∃ j < σ.graph.size, (σ.graph.node j).type = .action ∧ σ.stateOf j = .pending
  notified : σ'.completionNotified = σ.completionNotified ∨
    σ'.calls = [] ∧ σ'.completionNotified = true

theorem notifyEvent_ok (h : σ.Running) (e : Event) :
    ∃ σ', σ.notifyEvent e = .ok σ' ∧ σ.Notified e σ' := by
  unfold notifyEvent
  split
  · rename_i hskip
    rw [h.started] at hskip
    have hcomplete : σ.complete = true := hskip.resolve_left (by decide)
    refine ⟨σ, rfl, h, rfl, fun _ => rfl, ?_, ?_, ?_, fun hnil hne => absurd hnil hne,
      .inl rfl⟩
    all_goals
      intro hopen
      rw [hcomplete] at hopen
      cases hopen
  · rename_i hopen
    have hcredited : Running { σ with runtime := σ.creditedRuntime e } :=
      h.congr rfl (schedule_credited σ e) fun _ hi => hi
    have hindexed := h.sound.indexed
    have hmem : ∀ j, j ∈ (σ.found e).filter (σ.Reached e) ↔ σ.Reached e j := by
      intro j
      rw [List.mem_filter, decide_eq_true_iff]
      exact and_iff_right_of_imp fun hr => hindexed.mem_found hr.1
    rw [hindexed.probe]
    obtain ⟨σ', hsettle, hdone⟩ := settle_ok h.sound e ((hindexed.nodup_found e).filter _)
      (fun j hj => (hmem j).mp hj)
    have hstates : ∀ j, σ'.stateOf j = if σ.Reached e j then .completed else σ.stateOf j := by
      intro j
      rw [hdone.states, stateOf_congr (schedule_credited σ e j)]
      exact if_congr (hmem j) rfl rfl
    have hover : ∀ σ'', σ.complete = true → σ'' = σ := fun _ hc => absurd (.inr hc) hopen
    split
    · rename_i hnone
      dsimp only at hnone
      rw [hnone] at hsettle ⊢
      have heq : ∀ j, σ'.stateOf j = stateOf { σ with runtime := σ.creditedRuntime e } j := by
        intro j
        rw [← Except.ok.inj hsettle]
      refine ⟨_, bind_eq_ok.mpr ⟨_, rfl, rfl⟩, hcredited, rfl, hover _, fun _ _ => rfl, ?_, ?_,
        fun hnil hne => absurd hnil hne, .inl rfl⟩
      · intro _ j _
        rw [← hstates, heq]
      · intro _ j _ hdone'
        rw [stateOf_congr (schedule_credited σ e j)] at hdone'
        exact .inl hdone'
    · obtain ⟨σ'', hadvance, hrunning, hkept⟩ := advance_running hcredited hdone
      have hgraph := hdone.graph_eq
      refine ⟨σ'', bind_eq_ok.mpr ⟨σ', hsettle, hadvance⟩, hrunning,
        hkept.graph.trans hgraph, hover _, ?_, ?_, ?_, ?_, ?_⟩
      · intro _ j
        rw [hkept.observed, hdone.observed]
      · intro _ j hj
        rw [hkept.states, hstates]
        rw [hstates]
        split
        · decide
        · exact hj
      · intro _ j hwait hdone'
        have hmiddle := hkept.waits j (by rw [hgraph]; exact hwait) hdone'
        rw [hstates] at hmiddle
        split at hmiddle
        · rename_i hreached
          exact .inr hreached
        · exact .inl hmiddle
      · intro hnil hne
        obtain ⟨j, hlt, htype, hpending⟩ := hkept.calls (by rw [hdone.rest]; exact hnil) hne
        rw [hgraph] at hlt htype
        rw [hstates] at hpending
        split at hpending
        · cases hpending
        · exact ⟨j, hlt, htype, hpending⟩
      · have hnotified : σ'.completionNotified = σ.completionNotified := by rw [hdone.rest]
        rw [← hnotified]
        exact hkept.notified

/-- What `OnDelayExpired` does: a delay completes, and no other node that has left PENDING. -/
structure Expired (σ : Executor) (id : Nat) (σ' : Executor) : Prop where
  running : σ'.Running
  graph : σ'.graph = σ.graph
  observed : ∀ j, σ'.observed j = σ.observed j
  states : ∀ j, j ≠ id → σ.stateOf j ≠ .pending → σ'.stateOf j = σ.stateOf j
  waits : ∀ j, j ≠ id → (σ.graph.node j).type = .wait → σ'.stateOf j = .completed →
    σ.stateOf j = .completed
  notified : σ'.completionNotified = σ.completionNotified ∨
    σ'.calls = [] ∧ σ'.completionNotified = true

theorem onDelayExpired_ok (h : σ.Running) (id : Nat) :
    ∃ σ', σ.onDelayExpired id = .ok σ' ∧ σ.Expired id σ' := by
  have hsame : σ.Expired id σ :=
    ⟨h, rfl, fun _ => rfl, fun _ _ _ => rfl, fun _ _ _ hdone => hdone, .inl rfl⟩
  unfold onDelayExpired
  split
  · exact ⟨σ, rfl, hsame⟩
  · split
    · exact ⟨σ, rfl, hsame⟩
    · rename_i hactive
      obtain ⟨σ', hmark, hdone⟩ := markCompleted_ok h.sound (not_not.mp hactive)
      obtain ⟨σ'', hadvance, hrunning, hkept⟩ := advance_running h hdone
      have hgraph := hdone.graph_eq
      have hstates : ∀ j, j ≠ id → σ'.stateOf j = σ.stateOf j := by
        intro j hj
        rw [hdone.states, if_neg (by simpa using hj)]
      refine ⟨σ'', bind_eq_ok.mpr ⟨σ', hmark, hadvance⟩, hrunning, hkept.graph.trans hgraph, ?_, ?_, ?_, ?_⟩
      · intro j
        rw [hkept.observed, hdone.observed]
      · intro j hj hne
        rw [hkept.states j (by rw [hstates j hj]; exact hne), hstates j hj]
      · intro j hj hwait hdone'
        have hmiddle := hkept.waits j (by rw [hgraph]; exact hwait) hdone'
        rwa [hstates j hj] at hmiddle
      · have hnotified : σ'.completionNotified = σ.completionNotified := by rw [hdone.rest]
        rw [← hnotified]
        exact hkept.notified

/-! ## The start -/

/-- The executor when the first `n` nodes were looked at. -/
def opened (g : Graph) (t : Int) (n : Nat) : Executor where
  graph := g
  runtime := fun j =>
    { remainingDependencies := (g.deps j).length, queued := decide (j < n ∧ g.deps j = []) }
  readyNodes := (List.range n).filter fun j => g.deps j = []
  started := true
  now := t

theorem startNode_opened (g : Graph) (t : Int) (n : Nat) :
    (opened g t n).startNode n = opened g t (n + 1) := by
  have hruntime : ∀ j, j ≠ n → (opened g t n).runtime j = (opened g t (n + 1)).runtime j := by
    intro j hj
    have hlt : j < n + 1 ↔ j < n := by omega
    simp only [opened, hlt]
  show (if g.deps n = [] then (opened g t n).enqueue n else opened g t n) = opened g t (n + 1)
  split
  · rename_i hn
    have hready : (opened g t (n + 1)).readyNodes = (opened g t n).readyNodes ++ [n] := by
      simp only [opened, List.range_succ, List.filter_append, List.filter_singleton, hn, decide_true,
        cond_true]
    have hall : (opened g t (n + 1)).runtime = Function.update (opened g t n).runtime n
        { (opened g t n).runtime n with queued := true } := by
      funext j
      rw [Function.update_apply]
      split
      · rename_i hj
        rw [hj]
        simp [opened, hn]
      · rename_i hj
        exact (hruntime j hj).symm
    rw [enqueue, setRuntime, ← hall, ← hready]
    rfl
  · rename_i hn
    have hready : (opened g t (n + 1)).readyNodes = (opened g t n).readyNodes := by
      simp only [opened, List.range_succ, List.filter_append, List.filter_singleton, hn, decide_false,
        cond_false, List.append_nil]
    have hall : (opened g t (n + 1)).runtime = (opened g t n).runtime := by
      funext j
      by_cases hj : j = n
      · rw [hj]
        simp [opened, hn]
      · exact (hruntime j hj).symm
    show opened g t n = { opened g t n with
      runtime := (opened g t (n + 1)).runtime, readyNodes := (opened g t (n + 1)).readyNodes }
    rw [hall, hready]

theorem foldl_startNode (g : Graph) (t : Int) (n : Nat) :
    (List.range n).foldl startNode { setGraph g with now := t, started := true } = opened g t n := by
  induction n with
  | zero =>
      show { setGraph g with now := t, started := true } = opened g t 0
      simp [opened, setGraph]
  | succ n ih =>
      rw [List.range_succ, List.foldl_append, ih, List.foldl_cons, List.foldl_nil, startNode_opened]

theorem stateOf_opened (g : Graph) (t : Int) (n j : Nat) : (opened g t n).stateOf j = .pending := rfl

/-- The nodes without dependencies are queued; nothing has happened yet. -/
theorem sound_opened (hg : g.Valid) (t : Int) : Sound [] (opened g t g.size) := by
  have hmem : ∀ j, j ∈ (opened g t g.size).readyNodes ↔ j < g.size ∧ g.deps j = [] := by
    intro j
    simp [opened]
  refine ⟨⟨hg.known, ?_, ?_, ?_, ?_, ?_, ?_, ?_, ?_⟩, ⟨?_, ?_, rfl, .nil, rfl, ?_, ?_⟩, ?_, ?_,
    fun i hi => absurd hi List.not_mem_nil⟩
  · intro j _ _
    have hopen : (opened g t g.size).openDeps j = (g.deps j).length :=
      List.countP_eq_length.mpr fun d _ => by
        rw [stateOf_opened]
        decide
    rw [hopen]
    rfl
  · intro j hj
    cases hj
  · intro j
    rw [hmem]
    exact decide_eq_true_iff
  · intro j hj
    exact ⟨((hmem j).mp hj).1, rfl⟩
  · exact List.nodup_range.filter _
  · intro j _ hgone
    have hnil := ((hmem j).mp (hgone.resolve_right fun hne => hne rfl)).2
    have hdeps : (opened g t g.size).graph.deps j = [] := hnil
    rw [Satisfied, hdeps]
    split
    · exact fun d hd => absurd hd List.not_mem_nil
    · exact .inl rfl
  · intro j hj _ hready _
    have hne : g.deps j ≠ [] := fun hnil => hready ((hmem j).mpr ⟨hj, hnil⟩)
    exact List.length_pos_iff.mpr hne
  · intro j hj _ hready _
    refine ⟨fun hnil => hready ((hmem j).mpr ⟨hj, hnil⟩), fun d _ hd => ?_⟩
    rw [stateOf_opened] at hd
    cases hd
  · exact fun j => rfl
  · exact fun j => rfl
  · intro j hj
    rw [stateOf_opened] at hj
    cases hj
  · intro j _ hj
    exact absurd (stateOf_opened g t g.size j) hj
  · refine iff_of_false Bool.false_ne_true ?_
    rintro ⟨c, -, -, hc⟩
    rw [stateOf_opened] at hc
    cases hc
  · intro key j
    rw [if_neg fun h => h.2.1 rfl]
    rfl

/-! ## Runs -/

/-- What holds between two steps. -/
def Settled (g : Graph) (σ : Executor) : Prop :=
  σ.graph = g ∧ ((∃ t, σ = { setGraph g with now := t }) ∨ σ.Running)

theorem exec_ok (hg : g.Valid) (h : σ.Settled g) {a : Act} (hen : σ.enabled a) :
    ∃ σ', σ.exec a = .ok σ' ∧ σ'.Settled g := by
  obtain ⟨hgraph, ⟨t, rfl⟩ | hrun⟩ := h
  · cases a with
    | start =>
        obtain ⟨σ', hadvance, hrun, hkept⟩ := advance_ok (sound_opened hg t) rfl rfl rfl
        refine ⟨σ', ?_, hkept.graph, .inr hrun⟩
        rw [← foldl_startNode] at hadvance
        exact hadvance
    | notify e => exact ⟨_, rfl, hgraph, .inl ⟨t, rfl⟩⟩
    | callbackReturn => exact absurd rfl hen
    | expire i => exact ⟨_, rfl, hgraph, .inl ⟨t, rfl⟩⟩
    | tick n => exact ⟨_, rfl, hgraph, .inl ⟨t + n, rfl⟩⟩
  · cases a with
    | start =>
        have hno : σ.started = false := hen
        rw [hrun.started] at hno
        cases hno
    | notify e =>
        obtain ⟨σ', hex, hnotified⟩ := notifyEvent_ok hrun e
        exact ⟨σ', hex, hnotified.graph.trans hgraph, .inr hnotified.running⟩
    | callbackReturn =>
        obtain ⟨σ', hex, hrun', hkept⟩ := callbackReturn_ok hrun hen
        exact ⟨σ', hex, hkept.graph.trans hgraph, .inr hrun'⟩
    | expire i =>
        unfold exec
        dsimp only
        split
        · exact ⟨σ, rfl, hgraph, .inr hrun⟩
        · rename_i id _
          have hrun' : Running { σ with delays := σ.delays.eraseIdx i } :=
            hrun.congr rfl (fun _ => rfl) fun _ hi => List.mem_of_mem_eraseIdx hi
          obtain ⟨σ', hex, hexpired⟩ := onDelayExpired_ok hrun' id
          exact ⟨σ', hex, hexpired.graph.trans hgraph, .inr hexpired.running⟩
    | tick n => exact ⟨_, rfl, hgraph, .inr (hrun.congr rfl (fun _ => rfl) fun _ hi => hi)⟩

theorem settled_invariant (hg : g.Valid) : (executorMachine g).Invariant (Settled g) := by
  refine Machine.Inductive.invariant ⟨?_, ?_⟩
  · rintro σ rfl
    exact ⟨rfl, .inl ⟨0, rfl⟩⟩
  · intro σ a σ' h hen hex
    obtain ⟨σ'', hex', h'⟩ := exec_ok hg h hen
    have heq : σ' = σ'' := Except.ok.inj (hex.symm.trans hex')
    exact heq ▸ h'

/-! ## Progress -/

/-- When nothing runs and nothing is queued, a transaction that is not complete waits: else
every node would be completed, from the smallest rank up. -/
theorem Sound.waiting {g : Graph} (h : Sound due σ) (hg : g.Valid) (hgraph : σ.graph = g)
    (hempty : σ.readyNodes = []) (hcomplete : σ.complete = false) :
    ∃ w < g.size, ((g.node w).type = .wait ∨ (g.node w).type = .delay) ∧ σ.stateOf w = .active := by
  by_contra hno
  have hactive : ∀ w, σ.stateOf w ≠ .active := by
    intro w hw
    refine hno ⟨w, ?_, ?_, hw⟩
    · exact hgraph ▸ (type_of_active h hw).1
    · exact hgraph ▸ h.chronicle.timed w hw
  obtain ⟨rank, hrank⟩ := hg.acyclic
  have hdone : ∀ n, ∀ v < g.size, rank v < n → σ.stateOf v = .completed := by
    intro n
    induction n with
    | zero =>
        intro v _ hv
        omega
    | succ n ih =>
        intro v hv hlt
        have hdeps : ∀ d ∈ g.deps v, σ.stateOf d = .completed := fun d hd =>
          ih d (hg.known v d hd) (by have := hrank v hv d hd; omega)
        cases hstate : σ.stateOf v with
        | completed => rfl
        | active => exact absurd hstate (hactive v)
        | pending =>
            exfalso
            rw [← hgraph] at hv hdeps
            have hready : v ∉ σ.readyNodes := by
              rw [hempty]
              exact List.not_mem_nil
            cases hdep : (σ.graph.node v).dependency with
            | all =>
                have hopen : σ.openDeps v = 0 := List.countP_eq_zero.mpr fun d hd => by
                  rw [hdeps d hd]
                  decide
                have hpos := h.consistent.waitingAll v hv hstate hready hdep
                have hcount := h.consistent.remaining v hv hdep
                rw [List.count_nil] at hcount
                omega
            | any =>
                obtain ⟨hne, hedge⟩ := h.consistent.waitingAny v hv hstate hready hdep
                obtain ⟨d, hd⟩ := List.exists_mem_of_ne_nil _ hne
                cases hedge d hd (hdeps d hd)
  obtain ⟨c, hc, htype⟩ := hg.completion
  have hflag := h.flagged.mpr
    ⟨c, hgraph ▸ hc, hgraph ▸ htype, hdone (rank c + 1) c hc (Nat.lt_succ_self _)⟩
  rw [hcomplete] at hflag
  cases hflag

/-- What holds of a transaction at any time. -/
structure Lawful (g : Graph) (σ : Executor) : Prop where
  /-- Each node leaves PENDING once at most, and reaches COMPLETED once at most. -/
  leaves : ∀ id, σ.log.countP (Obs.leaves id) = if σ.stateOf id = .pending then 0 else 1
  completes : ∀ id, σ.log.countP (Obs.completes id) = if σ.stateOf id = .completed then 1 else 0
  /-- Nodes leave PENDING and callbacks run only when they may. -/
  allowed : Justified (Allowed g) σ.log
  /-- Callbacks run once for each action that left PENDING, but for the rest of the round. -/
  acts : σ.log.filterMap Obs.acted? ++ σ.calls.tail = σ.log.filterMap (Obs.starts? g)
  notified : σ.log.count .notified ≤ 1
  /-- Outside `Advance` a transaction that is not complete waits for something. -/
  waiting : σ.started = true → σ.advancing = false → σ.complete = false → σ.readyNodes = [] ∧
    ∃ w < g.size, ((g.node w).type = .wait ∨ (g.node w).type = .delay) ∧ σ.stateOf w = .active
  /-- No assertion fails. -/
  returns : ∀ a, σ.enabled a → ∃ σ', σ.exec a = .ok σ'

/-- A graph that passed the checks is executed lawfully in every run. -/
theorem transaction_lawful {g : Graph} (hg : g.validate = .ok ()) :
    (executorMachine g).Invariant (Lawful g) := by
  intro σ hreach
  have hvalid := Graph.valid_of_validate hg
  have hsettled := settled_invariant hvalid σ hreach
  have hreturns : ∀ a, σ.enabled a → ∃ σ', σ.exec a = .ok σ' := by
    intro a hen
    obtain ⟨σ', hex, -⟩ := exec_ok hvalid hsettled hen
    exact ⟨σ', hex⟩
  obtain ⟨hgraph, ⟨t, rfl⟩ | hrun⟩ := hsettled
  · refine ⟨fun _ => rfl, fun _ => rfl, .nil, rfl, Nat.zero_le 1, ?_, hreturns⟩
    intro hstarted
    cases hstarted
  · have hchr := hrun.sound.chronicle
    refine ⟨hchr.leaves, hchr.completes, hgraph ▸ hchr.allowed, hgraph ▸ hchr.acts, ?_, ?_, hreturns⟩
    · rw [hchr.notified]
      split <;> omega
    · intro _ hadvancing hcomplete
      have hidle : σ.calls = [] := by
        by_contra hne
        rw [hrun.advancing.mpr hne] at hadvancing
        cases hadvancing
      exact ⟨hrun.idle hidle, hrun.sound.waiting hvalid hgraph (hrun.idle hidle) hcomplete⟩

/-- An action, a wait for it that names it twice, a delay, and a completion by either. -/
def eitherGraph : Graph :=
  (((Graph.empty.addAction { stageId := 1 } []).addWait {} 100 0 [0, 0]).addDelay 5 [0]).addCompletion
    [2, 1] .any

/-- The event comes from inside the callback, and the delay expires afterwards. -/
theorem transaction_lawful_eitherGraph : ∃ σ, (executorMachine eitherGraph).Reachable σ ∧
    σ.Lawful eitherGraph ∧ σ.completionNotified = true ∧ σ.log =
      [.moved 0 .pending .completed, .moved 1 .pending .active, .moved 2 .pending .active,
        .acted 0 { stageId := 1 }, .moved 1 .active .completed, .moved 3 .pending .completed,
        .notified] := by
  have hrun : ((executorMachine eitherGraph).runs (.setGraph eitherGraph)
      [.start, .notify { bytes := 160 }, .callbackReturn, .expire 0]).map
        (fun σ => (σ.completionNotified, σ.log)) = some (true,
          [.moved 0 .pending .completed, .moved 1 .pending .active, .moved 2 .pending .active,
            .acted 0 { stageId := 1 }, .moved 1 .active .completed, .moved 3 .pending .completed,
            .notified]) := rfl
  obtain ⟨σ, hreach, hobs⟩ := Machine.Reachable.exists_of_runs rfl hrun
  rw [Prod.mk.injEq] at hobs
  exact ⟨σ, hreach, transaction_lawful (by decide) σ hreach, hobs.1, hobs.2⟩

end Executor

end ProtoBridge.Transaction
