import ProtoBridge.Collective.AlltoAllArrivals

/-!
# The opening of an AlltoAll

`Initialize` credits the ranks with empty chunks, and the first event sends all that is due from the start:
the first step of each rank of the ring, and all steps of those that wait for nothing; in the other modes
the chunks of all pairs.
-/

namespace ProtoBridge.Collective

open Lib Fabric

namespace AlltoAllRun

variable {a : AlltoAll} {c d : AlltoAllRun} {t : AlltoAllTransfer} {ts : List AlltoAllTransfer}
  {mode : AlltoAllMode} {numGpus : UInt16} {dataSize : UInt64}

/-! ## Credits -/

/-- What the loop of `Initialize` credits up to a rank. -/
def credited (a : AlltoAll) (n : Nat) : AlltoAllRun where
  plan := a
  gpuCompletedStep gpu := if gpu < n ∧ a.chunkSizeOf gpu = 0 then a.totalSteps else 0
  gpuSourcesReceived gpu := if gpu < n ∧ a.chunkSizeOf gpu = 0 then a.numGpus - 1 else 0
  totalCompletedGpus := ((Finset.range n).filter fun gpu => a.chunkSizeOf gpu = 0).card

theorem credited_succ (a : AlltoAll) (n : Nat) : credited a (n + 1) =
    if a.chunkSizeOf n = 0 then (credited a n).credit n else credited a n := by
  have hcredit : ∀ value : Nat, (fun gpu => if gpu < n + 1 ∧ a.chunkSizeOf gpu = 0 then value else 0) =
      if a.chunkSizeOf n = 0 then
        Function.update (fun gpu => if gpu < n ∧ a.chunkSizeOf gpu = 0 then value else 0) n value
      else fun gpu => if gpu < n ∧ a.chunkSizeOf gpu = 0 then value else 0 := by
    intro value
    funext gpu
    by_cases hgpu : gpu = n
    · subst hgpu
      by_cases hzero : a.chunkSizeOf gpu = 0
      · rw [if_pos hzero, Function.update_self, if_pos ⟨Nat.lt_succ_self gpu, hzero⟩]
      · rw [if_neg hzero, if_neg fun h => hzero h.2, if_neg fun h => hzero h.2]
    · have hiff : gpu < n + 1 ∧ a.chunkSizeOf gpu = 0 ↔ gpu < n ∧ a.chunkSizeOf gpu = 0 := by
        omega
      by_cases hzero : a.chunkSizeOf n = 0
      · rw [if_pos hzero, Function.update_of_ne hgpu]
        exact if_congr hiff rfl rfl
      · rw [if_neg hzero]
        exact if_congr hiff rfl rfl
  have hcount : ((Finset.range (n + 1)).filter fun gpu => a.chunkSizeOf gpu = 0).card =
      ((Finset.range n).filter fun gpu => a.chunkSizeOf gpu = 0).card +
        if a.chunkSizeOf n = 0 then 1 else 0 := by
    rw [Finset.range_add_one, Finset.filter_insert]
    split
    · rw [Finset.card_insert_of_notMem]
      simp
    · rfl
  unfold credited credit
  rw [hcredit, hcredit, hcount]
  split <;> rfl

theorem foldl_credit (a : AlltoAll) (n : Nat) :
    (List.range n).foldl (fun c rank => if a.chunkSizeOf rank = 0 then c.credit rank else c)
      { plan := a } = credited a n := by
  induction n with
  | zero => rfl
  | succ n ih =>
      rw [List.range_succ, List.foldl_append, ih, credited_succ]
      rfl

theorem exists_chunk (hr : a.Lawful) : 0 < a.chunkSizeOf 0 := by
  rw [hr.chunk]
  exact portion_pos hr.data _

theorem credited_open (hr : a.Lawful) : (credited a a.numGpus).totalCompletedGpus < a.numGpus := by
  have htwo := hr.two
  have hpos := exists_chunk hr
  by_contra hall
  have hevery := forall_of_card (Nat.not_lt.mp hall)
  have hzero := hevery 0 (by omega)
  omega

theorem precredited_eq (hr : a.Lawful) : precredited a = credited a a.numGpus := by
  have htwo := hr.two
  have hloop : (if a.chunkSize = 0 ∧ a.chunkRemainder < a.numGpus then
      (List.range a.numGpus).foldl (fun c rank => if a.chunkSizeOf rank = 0 then c.credit rank else c)
        { plan := a }
      else ({ plan := a } : AlltoAllRun)) = credited a a.numGpus := by
    split
    · exact foldl_credit a a.numGpus
    · rename_i hlarge
      have hnone : ∀ n, credited a n = { plan := a } := by
        intro n
        induction n with
        | zero => rfl
        | succ n ih =>
            rw [credited_succ, if_neg, ih]
            intro hzero
            unfold AlltoAll.chunkSizeOf at hzero
            exact hlarge ⟨by omega, hr.small (by omega)⟩
      exact (hnone _).symm
  unfold precredited
  dsimp only
  rw [hloop, if_neg (by omega : ¬ a.numGpus ≤ 1), if_neg]
  rintro ⟨hall, -⟩
  exact absurd hall (Nat.not_le.mpr (credited_open hr))

theorem progress_nil (a : AlltoAll) (gpu : Nat) :
    progress a [] gpu = if a.chunkSizeOf gpu = 0 then a.numGpus - 1 else 0 := by
  unfold progress
  split
  · rfl
  · exact Nat.zero_div _

theorem Booked.credited (hr : a.Lawful) : Booked a (AlltoAllRun.credited a a.numGpus) where
  plan := rfl
  ledger := .nil
  stepped _ gpu hgpu := by
    refine ⟨?_, (Nat.zero_mod _).symm⟩
    show (if gpu < a.numGpus ∧ a.chunkSizeOf gpu = 0 then a.totalSteps else 0) = progress a [] gpu
    rw [progress_nil, hr.steps]
    exact if_congr (and_iff_right hgpu) rfl rfl
  chunked _ gpu hgpu := by
    refine ⟨rfl, ?_⟩
    show (if gpu < a.numGpus ∧ a.chunkSizeOf gpu = 0 then a.numGpus - 1 else 0) = progress a [] gpu
    rw [progress_nil]
    exact if_congr (and_iff_right hgpu) rfl rfl
  hops _ _ _ _ _ _ := by
    split <;> rfl
  bytes := rfl

theorem Closing.credited (hr : a.Lawful) :
    Closing a (AlltoAllRun.credited a a.numGpus).totalCompletedGpus false [] where
  done := by
    have htwo := hr.two
    show ((Finset.range a.numGpus).filter fun gpu => a.chunkSizeOf gpu = 0).card = _
    congr 1
    refine Finset.filter_congr ?_
    intro gpu _
    rw [progress_nil]
    split
    · exact iff_of_true ‹_› rfl
    · exact iff_of_false ‹_› (by omega)
  ended := by
    have htwo := hr.two
    have hpos := exists_chunk hr
    refine iff_of_false Bool.false_ne_true ?_
    intro hall
    have hzero := hall 0 (by omega)
    rw [progress_nil, if_neg hpos.ne'] at hzero
    omega
  once := rfl
  completes := .nil

/-! ## First sends -/

/-- Transfers start one after the other. -/
def sendAll (ts : List AlltoAllTransfer) (c : AlltoAllRun) : AlltoAllRun := ts.foldl send c

theorem sendAll_append (ts ts' : List AlltoAllTransfer) (c : AlltoAllRun) :
    sendAll (ts ++ ts') c = sendAll ts' (sendAll ts c) :=
  List.foldl_append

theorem sendAll_keeps {P : AlltoAllRun → Prop} (hsend : ∀ d t, P d → P (d.send t))
    (ts : List AlltoAllTransfer) (hc : P c) : P (sendAll ts c) := by
  induction ts generalizing c with
  | nil => exact hc
  | cons t ts ih => exact ih (hsend c t hc)

theorem foldl_sendAll {α : Type*} {f : AlltoAllRun → α → AlltoAllRun} {g : α → List AlltoAllTransfer}
    {P : AlltoAllRun → Prop} (hsend : ∀ d t, P d → P (d.send t)) {xs : List α}
    (hround : ∀ d, ∀ x ∈ xs, P d → f d x = sendAll (g x) d) (hc : P c) :
    xs.foldl f c = sendAll (xs.flatMap g) c := by
  induction xs generalizing c with
  | nil => rfl
  | cons x xs ih =>
      have hrest := ih (fun d y hy => hround d y (List.mem_cons_of_mem x hy))
        (sendAll_keeps hsend (g x) hc)
      rw [List.foldl_cons, hround c x List.mem_cons_self hc, hrest, List.flatMap_cons, sendAll_append]

theorem sendAll_log (ts : List AlltoAllTransfer) (c : AlltoAllRun) :
    (sendAll ts c).log = c.log ++ ts.map .sent := by
  induction ts generalizing c with
  | nil => exact (List.append_nil _).symm
  | cons t ts ih =>
      rw [sendAll, List.foldl_cons]
      refine (ih (c.send t)).trans ?_
      rw [send, List.append_assoc]
      rfl

theorem sendAll_scheduled (ts : List AlltoAllTransfer) (c : AlltoAllRun) :
    (sendAll ts c).scheduled = c.scheduled := by
  induction ts generalizing c with
  | nil => rfl
  | cons t ts ih => exact ih (c.send t)

theorem Booked.sendAll (h : Booked a c) (hdue : ∀ t ∈ ts, Due a c.log t) :
    Booked a (sendAll ts c) := by
  induction ts generalizing c with
  | nil => exact h
  | cons t ts ih =>
      refine ih (h.send (hdue t List.mem_cons_self)) ?_
      intro t' ht'
      exact (due_snoc (not_brings_sent t)).mpr (hdue t' (List.mem_cons_of_mem t ht'))

theorem Closing.send (h : Closing a c.totalCompletedGpus c.completed c.log) (t : AlltoAllTransfer) :
    Closing a (c.send t).totalCompletedGpus (c.send t).completed (c.send t).log := by
  refine Closing.snoc h (fun heq => nomatch heq) ?_
  intro dest _
  rw [progress_snoc (not_brings_sent t)]

theorem Closing.sendAll (h : Closing a c.totalCompletedGpus c.completed c.log)
    (ts : List AlltoAllTransfer) :
    Closing a (AlltoAllRun.sendAll ts c).totalCompletedGpus (AlltoAllRun.sendAll ts c).completed
      (AlltoAllRun.sendAll ts c).log := by
  induction ts generalizing c with
  | nil => exact h
  | cons t ts ih => exact ih (h.send t)

theorem due_sents : Due a (ts.map .sent) t ↔ Due a [] t := by
  induction ts using List.reverseRecOn with
  | nil => exact Iff.rfl
  | append_singleton ts t' ih =>
      rw [List.map_append]
      exact (due_snoc (not_brings_sent t')).trans ih

theorem Sends.opening (hnodup : ts.Nodup) (hmem : ∀ t, t ∈ ts ↔ Due a [] t) :
    Sends a [] (ts.map .sent) := by
  have hcount : ∀ t, (ts.map AlltoAllObs.sent).count (.sent t) = ts.count t := by
    intro t
    apply List.count_map_of_injective
    intro t t' heq
    exact AlltoAllObs.sent.inj heq
  constructor
  · intro ev hin
    cases hin
  · intro t hdue
    rw [hcount, List.count_eq_one_of_mem hnodup ((hmem t).mpr (due_sents.mp hdue))]
    rfl
  · intro t hdue
    rw [hcount, List.count_eq_zero.mpr fun hin => hdue (due_sents.mpr ((hmem t).mp hin))]
    rfl

/-- The transfers of the first event. -/
def opening (a : AlltoAll) : List AlltoAllTransfer :=
  match a.mode with
  | .ringPipeline =>
      (List.range a.numGpus).map (a.stepTransfer · 0) ++
        (List.range a.numGpus).flatMap fun gpu =>
          if a.chunkSizeOf gpu = 0 then (List.range' 1 (a.totalSteps - 1)).map (a.stepTransfer gpu) else []
  | _ =>
      (List.range a.numGpus).flatMap fun gpu =>
        (List.range a.numGpus).flatMap fun dest => if dest = gpu then [] else [a.chunkTransfer gpu dest]

theorem nodup_flatMap_origin {f : Nat → List AlltoAllTransfer} {xs : List Nat} (hxs : xs.Nodup)
    (hf : ∀ x, (f x).Nodup) (horigin : ∀ x, ∀ t ∈ f x, t.origin = x) : (xs.flatMap f).Nodup := by
  rw [List.nodup_flatMap]
  refine ⟨fun x _ => hf x, ?_⟩
  refine hxs.pairwise_of_forall_ne ?_
  intro x _ y _ hne t hx hy
  exact hne ((horigin x t hx).symm.trans (horigin y t hy))

theorem mem_opening (hr : a.Lawful) (t : AlltoAllTransfer) : t ∈ opening a ↔ Due a [] t := by
  have htwo := hr.two
  unfold opening
  split
  · rename_i hmode
    rw [due_ring_iff hmode]
    simp only [List.mem_append, List.mem_map, List.mem_flatMap, List.mem_range]
    constructor
    · rintro (⟨gpu, hgpu, rfl⟩ | ⟨gpu, hgpu, hin⟩)
      · exact ⟨gpu, hgpu, 0, by omega, Nat.zero_le _, rfl⟩
      · split at hin
        · rename_i hzero
          obtain ⟨step, hstep, rfl⟩ := List.mem_map.mp hin
          rw [List.mem_range'_1, hr.steps] at hstep
          refine ⟨gpu, hgpu, step, by omega, ?_, rfl⟩
          rw [progress_nil, if_pos hzero]
          omega
        · cases hin
    · rintro ⟨gpu, hgpu, step, hstep, hle, rfl⟩
      rw [progress_nil] at hle
      rcases Nat.eq_zero_or_pos step with rfl | hpos
      · exact .inl ⟨gpu, hgpu, rfl⟩
      · split at hle
        · rename_i hzero
          refine .inr ⟨gpu, hgpu, ?_⟩
          rw [if_pos hzero]
          refine List.mem_map.mpr ⟨step, ?_, rfl⟩
          rw [List.mem_range'_1, hr.steps]
          omega
        · omega
  · rename_i hmode
    simp only [List.mem_flatMap, List.mem_range]
    constructor
    · rintro ⟨gpu, hgpu, dest, hdest, hin⟩
      split at hin
      · cases hin
      · rename_i hne
        rw [List.mem_singleton.mp hin]
        exact .chunk hmode hgpu hdest (Ne.symm hne)
    · intro hdue
      cases hdue with
      | step hring => exact absurd hring hmode
      | @chunk origin dest _ horigin hdest hne =>
          refine ⟨origin, horigin, dest, hdest, ?_⟩
          rw [if_neg hne.symm]
          exact List.mem_singleton_self _
      | forward horigin hdest hinter hpos hall =>
          have hnone : 0 = a.chunkSizeOf _ := hall
          omega

theorem nodup_opening (hr : a.Lawful) : (opening a).Nodup := by
  have htwo := hr.two
  have hinj : ∀ gpu step gpu' step', step < a.numGpus - 1 → step' < a.numGpus - 1 →
      a.stepTransfer gpu step = a.stepTransfer gpu' step' → gpu = gpu' ∧ step = step' :=
    fun _ _ _ _ => AlltoAll.stepTransfer_injective hr
  unfold opening
  split
  · rw [List.nodup_append]
    refine ⟨?_, ?_, ?_⟩
    · refine List.Nodup.map ?_ List.nodup_range
      intro gpu gpu' heq
      exact congrArg AlltoAllTransfer.origin heq
    · refine nodup_flatMap_origin List.nodup_range ?_ ?_
      · intro gpu
        split
        · refine List.Nodup.map_on ?_ List.nodup_range'
          intro step hstep step' hstep' heq
          rw [List.mem_range'_1, hr.steps] at hstep hstep'
          exact (hinj _ _ _ _ (by omega) (by omega) heq).2
        · exact List.nodup_nil
      · intro gpu t hin
        split at hin
        · obtain ⟨step, -, rfl⟩ := List.mem_map.mp hin
          rfl
        · cases hin
    · intro t hfirst t' hlater heq
      obtain ⟨gpu, -, rfl⟩ := List.mem_map.mp hfirst
      obtain ⟨gpu', -, hin⟩ := List.mem_flatMap.mp hlater
      split at hin
      · obtain ⟨step, hstep, rfl⟩ := List.mem_map.mp hin
        rw [List.mem_range'_1, hr.steps] at hstep
        have hzero := (hinj _ _ _ _ (by omega) (by omega) heq).2
        omega
      · cases hin
  · refine nodup_flatMap_origin List.nodup_range ?_ ?_
    · intro gpu
      rw [List.nodup_flatMap]
      constructor
      · intro dest _
        split
        · exact List.nodup_nil
        · exact List.nodup_singleton _
      · refine List.nodup_range.pairwise_of_forall_ne ?_
        intro dest _ dest' _ hne t hin hin'
        dsimp only at hin hin'
        split at hin
        · cases hin
        · split at hin'
          · cases hin'
          · rw [List.mem_singleton.mp hin] at hin'
            exact hne (chunkTransfer_injective (List.mem_singleton.mp hin')).2
    · intro gpu t hin
      obtain ⟨dest, -, hin⟩ := List.mem_flatMap.mp hin
      split at hin
      · cases hin
      · rw [List.mem_singleton.mp hin]
        exact AlltoAll.chunkTransfer_origin a gpu dest

/-- The first event. -/
def openingEvent (a : AlltoAll) : AlltoAllEvent :=
  if a.mode = .ringPipeline then .triggerInitialSends else .triggerConcurrentSends

theorem run_opening (hplan : c.plan = a) (hsteps : a.mode = .ringPipeline → ∀ gpu < a.numGpus,
      (c.gpuCompletedStep gpu ≥ a.totalSteps ↔ a.chunkSizeOf gpu = 0)) :
    c.run (openingEvent a) = sendAll (opening a) c := by
  subst hplan
  -- sends leave alone what the loops read
  let Same (d : AlltoAllRun) : Prop := d.plan = c.plan ∧ d.gpuCompletedStep = c.gpuCompletedStep
  have hkeeps : ∀ d t, Same d → Same (d.send t) := fun d t hd => hd
  by_cases hmode : c.plan.mode = .ringPipeline
  · have hfirst : (List.range c.plan.numGpus).foldl (fun d gpu => d.sendGpuStepData gpu 0) c =
        sendAll ((List.range c.plan.numGpus).map (c.plan.stepTransfer · 0)) c := by
      rw [List.map_eq_flatMap]
      refine foldl_sendAll (P := Same) hkeeps ?_ ⟨rfl, rfl⟩
      intro d gpu _ hd
      unfold sendGpuStepData
      rw [hd.1]
      rfl
    have hsame := sendAll_keeps (P := Same) (c := c) hkeeps
      ((List.range c.plan.numGpus).map (c.plan.stepTransfer · 0)) ⟨rfl, rfl⟩
    have hrun : c.run (openingEvent c.plan) = c.triggerInitialSends := by
      unfold openingEvent
      rw [if_pos hmode]
      rfl
    have hlist : opening c.plan = (List.range c.plan.numGpus).map (c.plan.stepTransfer · 0) ++
        (List.range c.plan.numGpus).flatMap fun gpu => if c.plan.chunkSizeOf gpu = 0 then
          (List.range' 1 (c.plan.totalSteps - 1)).map (c.plan.stepTransfer gpu) else [] := by
      unfold opening
      rw [hmode]
    rw [hrun, hlist, sendAll_append]
    unfold triggerInitialSends
    rw [hfirst]
    dsimp only
    rw [hsame.1]
    refine foldl_sendAll (P := Same) hkeeps ?_ hsame
    intro d gpu hgpu hd
    rw [hd.1, hd.2]
    have hiff := hsteps hmode gpu (List.mem_range.mp hgpu)
    by_cases hzero : c.plan.chunkSizeOf gpu = 0
    · rw [if_pos (hiff.mpr hzero), if_pos hzero, List.map_eq_flatMap]
      refine foldl_sendAll (P := Same) hkeeps ?_ hd
      intro d' step _ hd'
      unfold sendGpuStepData
      rw [hd'.1]
      rfl
    · rw [if_neg fun hdone => hzero (hiff.mp hdone), if_neg hzero]
      rfl
  · have hrun : c.run (openingEvent c.plan) = c.triggerConcurrentSends := by
      unfold openingEvent
      rw [if_neg hmode]
      rfl
    have hlist : opening c.plan = (List.range c.plan.numGpus).flatMap fun gpu =>
        (List.range c.plan.numGpus).flatMap fun dest =>
          if dest = gpu then [] else [c.plan.chunkTransfer gpu dest] := by
      unfold opening
      split
      · contradiction
      · rfl
    rw [hrun, hlist]
    unfold triggerConcurrentSends
    refine foldl_sendAll (P := Same) hkeeps ?_ ⟨rfl, rfl⟩
    intro d gpu _ hd
    rw [hd.1]
    refine foldl_sendAll (P := Same) hkeeps ?_ hd
    intro d' dest _ hd'
    split
    · rfl
    · unfold sendGpuConcurrentChunk
      rw [hd'.1]
      rfl

end AlltoAllRun

end ProtoBridge.Collective
