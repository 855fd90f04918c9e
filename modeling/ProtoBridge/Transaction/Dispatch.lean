import ProtoBridge.Transaction.Chronicle

/-!
# Event dispatch

`NotifyEvent` looks a wait up under the key of its matcher, once for each
combination of wildcards. `scan` is the reference: it tests every active wait of
the graph. As the index holds each wait once, under one key, both credit the same
waits.
-/

namespace ProtoBridge.Transaction

/-! ## Keys -/

/-- The mask with the bits of the fields that match anything. -/
def wildcardMask (source destination flow stage packetType : Bool) : UInt8 :=
  (if source then sourceWildcard else 0) ||| (if destination then destinationWildcard else 0) |||
    (if flow then flowWildcard else 0) ||| (if stage then stageWildcard else 0) |||
      (if packetType then packetTypeWildcard else 0)

theorem wildcardMask_mem : ∀ source destination flow stage packetType,
    wildcardMask source destination flow stage packetType ∈ wildcardMasks := by decide

theorem wildcardMask_source : ∀ source destination flow stage packetType,
    wildcardMask source destination flow stage packetType &&& sourceWildcard ≠ 0 ↔
      source = true := by decide

theorem wildcardMask_destination : ∀ source destination flow stage packetType,
    wildcardMask source destination flow stage packetType &&& destinationWildcard ≠ 0 ↔
      destination = true := by decide

theorem wildcardMask_flow : ∀ source destination flow stage packetType,
    wildcardMask source destination flow stage packetType &&& flowWildcard ≠ 0 ↔
      flow = true := by decide

theorem wildcardMask_stage : ∀ source destination flow stage packetType,
    wildcardMask source destination flow stage packetType &&& stageWildcard ≠ 0 ↔
      stage = true := by decide

theorem wildcardMask_packetType : ∀ source destination flow stage packetType,
    wildcardMask source destination flow stage packetType &&& packetTypeWildcard ≠ 0 ↔
      packetType = true := by decide

theorem nodup_wildcardMasks : wildcardMasks.Nodup := by decide

theorem makeWaitIndexKey_eq (m : EventMatcher) : makeWaitIndexKey m =
    { eventType := m.type.code
      sourceRank := if m.sourceRank = anyRank then 0 else m.sourceRank
      destinationRank := if m.destinationRank = anyRank then 0 else m.destinationRank
      flowId := if m.flowId = anyFlow then 0 else m.flowId
      stageId := if m.stageId = anyStage then 0 else m.stageId
      packetType := if m.matchPacketType = false then 0 else m.packetType.code
      wildcardMask := wildcardMask (m.sourceRank = anyRank) (m.destinationRank = anyRank)
        (m.flowId = anyFlow) (m.stageId = anyStage) (m.matchPacketType = false) } := by
  unfold makeWaitIndexKey
  by_cases hsource : m.sourceRank = anyRank <;>
    by_cases hdestination : m.destinationRank = anyRank <;>
      by_cases hflow : m.flowId = anyFlow <;>
        by_cases hstage : m.stageId = anyStage <;>
          by_cases htype : m.matchPacketType = false <;>
            simp only [hsource, hdestination, hflow, hstage, htype, if_true, if_false,
              decide_true, decide_false] <;>
            rfl

/-- An event that a matcher accepts is looked up under the matcher's key. -/
theorem probeKey_of_accepts {m : EventMatcher} {e : Event} (h : m.accepts e = true) :
    probeKey e (makeWaitIndexKey m).wildcardMask = makeWaitIndexKey m := by
  unfold EventMatcher.accepts at h
  split at h
  · cases h
  split at h
  · cases h
  split at h
  · cases h
  split at h
  · cases h
  split at h
  · cases h
  rename_i htype hsource hdestination hflow hstage
  simp only [not_and, not_not, ne_eq] at htype hsource hdestination hflow hstage
  rw [makeWaitIndexKey_eq, probeKey]
  simp only [wildcardMask_source, wildcardMask_destination, wildcardMask_flow, wildcardMask_stage,
    wildcardMask_packetType, decide_eq_true_eq]
  congr 1
  · rw [htype]
  · split
    · rfl
    · rename_i hne
      exact (hsource hne).symm
  · split
    · rfl
    · rename_i hne
      exact (hdestination hne).symm
  · split
    · rfl
    · rename_i hne
      exact (hflow hne).symm
  · split
    · rfl
    · rename_i hne
      exact (hstage hne).symm
  · split
    · rfl
    · rename_i hne
      simp only [Bool.or_eq_true, Bool.not_eq_true', beq_iff_eq] at h
      rw [h.resolve_left hne]

namespace Executor

variable {σ : Executor} {e : Event} {id : Nat}

/-! ## One list of waits -/

-- the numbers in `credit` are not to be evaluated, so it is unfolded by hand
@[simp] theorem credit_state (r : RuntimeNode) (e : Event) : (credit r e).state = r.state := by
  unfold credit
  rfl

@[simp] theorem credit_remainingDependencies (r : RuntimeNode) (e : Event) :
    (credit r e).remainingDependencies = r.remainingDependencies := by
  unfold credit
  rfl

@[simp] theorem credit_queued (r : RuntimeNode) (e : Event) : (credit r e).queued = r.queued := by
  unfold credit
  rfl

/-- The wait is credited with the event. -/
def Credited (σ : Executor) (e : Event) (id : Nat) : Prop :=
  (σ.graph.node id).type = .wait ∧ σ.stateOf id = .active ∧
    (σ.graph.node id).matcher.accepts e = true

instance : Decidable (σ.Credited e id) :=
  inferInstanceAs (Decidable (_ ∧ _ ∧ _))

/-- A node's runtime behind the event. -/
def creditedRuntime (σ : Executor) (e : Event) (id : Nat) : RuntimeNode :=
  if σ.Credited e id then credit (σ.runtime id) e else σ.runtime id

/-- The event meets the targets of the wait. -/
def Reached (σ : Executor) (e : Event) (id : Nat) : Prop :=
  σ.Credited e id ∧ targetsMet (σ.graph.node id) (credit (σ.runtime id) e) = true

instance : Decidable (σ.Reached e id) :=
  inferInstanceAs (Decidable (_ ∧ _))

/-- The loop over some waits, none of which comes twice. -/
theorem foldl_creditWait {ids done : List Nat} {runtime : Nat → RuntimeNode} (hnodup : ids.Nodup)
    (hwait : ∀ j ∈ ids, (σ.graph.node j).type = .wait)
    (hruntime : ∀ j ∈ ids, runtime j = σ.runtime j) :
    ids.foldl (creditWait σ.graph e) (runtime, done) =
      (fun j => if j ∈ ids then σ.creditedRuntime e j else runtime j,
        done ++ ids.filter (σ.Reached e)) := by
  induction ids generalizing runtime done with
  | nil => simp
  | cons id ids ih =>
      obtain ⟨hid, hnodup⟩ := List.nodup_cons.mp hnodup
      have hrt := hruntime id List.mem_cons_self
      have htype := hwait id List.mem_cons_self
      have hother : ∀ j ∈ ids, j ≠ id := fun j hj hji => hid (hji ▸ hj)
      have hstep : creditWait σ.graph e (runtime, done) id =
          (Function.update runtime id (σ.creditedRuntime e id),
            done ++ if σ.Reached e id then [id] else []) := by
        unfold creditWait creditedRuntime
        simp only [hrt]
        by_cases hcredited : σ.Credited e id
        · rw [if_neg, if_pos hcredited]
          · by_cases hmet : targetsMet (σ.graph.node id) (credit (σ.runtime id) e) = true
            · rw [if_pos hmet, if_pos (show σ.Reached e id from ⟨hcredited, hmet⟩)]
            · rw [if_neg hmet, if_neg (show ¬ σ.Reached e id from fun hr => hmet hr.2), List.append_nil]
          · rintro (hn | hn)
            · exact hn hcredited.2.1
            · rw [hcredited.2.2] at hn
              cases hn
        · have hskip : (σ.runtime id).state ≠ .active ∨
              (σ.graph.node id).matcher.accepts e = false := by
            by_contra hno
            simp only [not_or, Bool.not_eq_false, ne_eq, not_not] at hno
            exact hcredited ⟨htype, hno.1, hno.2⟩
          rw [if_pos hskip, if_neg hcredited,
            if_neg (show ¬ σ.Reached e id from fun hr => hcredited hr.1), List.append_nil, ← hrt,
            Function.update_eq_self]
      rw [List.foldl_cons, hstep, ih hnodup]
      · refine Prod.ext (funext fun j => ?_) ?_
        · dsimp only
          by_cases hji : j = id
          · subst hji
            rw [if_neg hid, if_pos List.mem_cons_self, Function.update_self]
          · simp only [List.mem_cons, hji, false_or, Function.update_of_ne hji]
        · dsimp only
          rw [List.append_assoc, List.filter_cons]
          by_cases hr : σ.Reached e id <;> simp [hr]
      · exact fun j hj => hwait j (List.mem_cons_of_mem id hj)
      · intro j hj
        rw [Function.update_of_ne (hother j hj), hruntime j (List.mem_cons_of_mem id hj)]

/-! ## The index -/

/-- The waits that the loop finds in the index, in the order it visits them. -/
def found (σ : Executor) (e : Event) : List Nat :=
  wildcardMasks.flatMap fun mask => σ.waitIndex (probeKey e mask)

theorem probe_eq (σ : Executor) (e : Event) :
    σ.probe e = (σ.found e).foldl (creditWait σ.graph e) (σ.runtime, []) := by
  rw [found, List.foldl_flatMap]
  rfl

theorem Indexed.mem_iff (h : σ.Indexed) (key : WaitIndexKey) (j : Nat) :
    j ∈ σ.waitIndex key ↔ (σ.graph.node j).type = .wait ∧ σ.stateOf j ≠ .pending ∧
      key = makeWaitIndexKey (σ.graph.node j).matcher := by
  rw [← List.count_pos_iff, h key j]
  split <;> simp_all

theorem Indexed.nodup (h : σ.Indexed) (key : WaitIndexKey) : (σ.waitIndex key).Nodup := by
  rw [List.nodup_iff_count_le_one]
  intro j
  rw [h key j]
  split <;> omega

theorem Indexed.nodup_found (h : σ.Indexed) (e : Event) : (σ.found e).Nodup := by
  refine List.nodup_flatMap.mpr ⟨fun mask _ => h.nodup _, ?_⟩
  refine nodup_wildcardMasks.imp fun {mask mask'} hne j hj hj' => hne ?_
  have hkey := ((h.mem_iff _ j).mp hj).2.2
  have hkey' := ((h.mem_iff _ j).mp hj').2.2
  exact congrArg WaitIndexKey.wildcardMask (hkey.trans hkey'.symm)

theorem Indexed.mem_found (h : σ.Indexed) (hcredited : σ.Credited e id) : id ∈ σ.found e := by
  obtain ⟨htype, hactive, haccepts⟩ := hcredited
  refine List.mem_flatMap.mpr ⟨(makeWaitIndexKey (σ.graph.node id).matcher).wildcardMask, ?_, ?_⟩
  · rw [makeWaitIndexKey_eq]
    exact wildcardMask_mem _ _ _ _ _
  · rw [h.mem_iff]
    exact ⟨htype, by rw [hactive]; decide, probeKey_of_accepts haccepts⟩

theorem Indexed.probe (h : σ.Indexed) (e : Event) :
    σ.probe e = (σ.creditedRuntime e, (σ.found e).filter (σ.Reached e)) := by
  rw [probe_eq, foldl_creditWait (h.nodup_found e) ?_ fun _ _ => rfl]
  · refine Prod.ext (funext fun j => ?_) (List.nil_append _)
    dsimp only
    split
    · rfl
    · rename_i hj
      rw [creditedRuntime, if_neg fun hc => hj (h.mem_found hc)]
  · intro j hj
    obtain ⟨mask, -, hj⟩ := List.mem_flatMap.mp hj
    exact ((h.mem_iff _ j).mp hj).1

/-! ## The reference -/

/-- One node of the graph. -/
def scanNode (g : Graph) (e : Event) (s : (Nat → RuntimeNode) × List Nat) (id : Nat) :
    (Nat → RuntimeNode) × List Nat :=
  if (g.node id).type = .wait then creditWait g e s id else s

/-- Every active wait of the graph is tested. -/
def scan (σ : Executor) (e : Event) : (Nat → RuntimeNode) × List Nat :=
  (List.range σ.graph.size).foldl (scanNode σ.graph e) (σ.runtime, [])

theorem lt_of_wait {g : Graph} (h : (g.node id).type = .wait) : id < g.size := by
  by_contra hlt
  rw [Graph.node, List.getD_eq_default _ _ (not_lt.mp hlt)] at h
  cases h

theorem scan_eq (σ : Executor) (e : Event) :
    σ.scan e = (σ.creditedRuntime e, (List.range σ.graph.size).filter (σ.Reached e)) := by
  have hfilter : σ.scan e = ((List.range σ.graph.size).filter fun j =>
      (σ.graph.node j).type = .wait).foldl (creditWait σ.graph e) (σ.runtime, []) := by
    rw [List.foldl_filter]
    simp only [scan, decide_eq_true_eq]
    rfl
  rw [hfilter, foldl_creditWait (List.nodup_range.filter _) ?_ fun _ _ => rfl]
  · refine Prod.ext (funext fun j => ?_) ?_
    · dsimp only
      split
      · rfl
      · rename_i hj
        rw [creditedRuntime, if_neg]
        intro hc
        refine hj (List.mem_filter.mpr ⟨List.mem_range.mpr (lt_of_wait hc.1), ?_⟩)
        simpa using hc.1
    · dsimp only
      rw [List.nil_append, List.filter_filter]
      refine List.filter_congr fun j _ => ?_
      by_cases hr : σ.Reached e j
      · simp [hr, hr.1.1]
      · simp [hr]
  · intro j hj
    simpa using (List.mem_filter.mp hj).2

theorem Indexed.probe_scan (h : σ.Indexed) (e : Event) :
    (σ.probe e).1 = (σ.scan e).1 ∧ (σ.probe e).2.Perm (σ.scan e).2 := by
  rw [h.probe, scan_eq]
  refine ⟨rfl, (List.perm_ext_iff_of_nodup ((h.nodup_found e).filter _)
    (List.nodup_range.filter _)).mpr fun j => ?_⟩
  simp only [List.mem_filter, List.mem_range, decide_eq_true_eq]
  exact and_congr_left fun hr => iff_of_true (h.mem_found hr.1) (lt_of_wait hr.1.1)

end Executor

end ProtoBridge.Transaction
