import ProtoBridge.Collective.Barrier

/-!
# Runs of phases

A collective whose phases are balanced is in one of three kinds of stage: it waits for the event
that opens a phase, it has a phase open, or it is over. This holds in all its runs, and gives what
the ledger says of them. Each run can come to rest; whether it is over there depends on the phases in
which a rank waits for nothing.
-/

namespace ProtoBridge.Collective

open Lib

variable {c : Barrier} {σ τ : BarrierRun} {stage : BarrierStage} {k : Nat} {ph : Phase}

/-- The stages that a step can lead to. -/
def Barrier.Next (c : Barrier) : BarrierStage → BarrierStage → Prop
  | .waiting k, stage =>
      stage = .running k ∨ (stage = .done ∧ k = c.phases.length) ∨
        ∃ ph, c.phases[k]? = some ph ∧ c.EndsAtStart ph ∧ c.After k stage
  | .running k, stage => stage = .running k ∨ c.After k stage
  | .done, _ => False

variable {t : Transfer} {started : Nat} {log' : List BarrierObs}

theorem not_enabled_deliver (h : ∀ j, Delivered σ.log j) : ¬ Barrier.Enabled σ (.deliver k t) := by
  rintro ⟨hbytes, hle⟩
  have := h k t.src t.dst
  omega

theorem Stage.step (hb : c.Balanced) {a : BarrierAct} (h : Stage c σ stage)
    (hen : Barrier.Enabled σ a) (hex : c.exec σ a = .ok τ) :
    ∃ stage', Stage c τ stage' ∧ c.Next stage stage' := by
  cases h with
  | @waiting k settled scheduled =>
      cases a with
      | deliver j t => exact absurd hen (not_enabled_deliver settled.delivered)
      | fire i =>
          have hi : i < σ.scheduled.length := hen
          rw [scheduled, List.length_singleton] at hi
          obtain rfl : i = 0 := by omega
          have hfire : c.startPhase { σ with scheduled := [] } k = τ := by
            rw [Barrier.exec, scheduled] at hex
            exact Except.ok.inj hex
          have hsettled : Settled c k { σ with scheduled := [] } :=
            ⟨settled.ledger, settled.completed, settled.noted, settled.delivered⟩
          obtain ⟨stage', hstage', hnext⟩ := hsettled.startPhase hb rfl
          rw [hfire] at hstage'
          exact ⟨stage', hstage', hnext⟩
  | @running k ph running =>
      cases a with
      | deliver j t =>
          obtain ⟨stage', hstage', hnext⟩ := running.deliver hb hen hex
          exact ⟨stage', hstage', hnext⟩
      | fire i =>
          have hi : i < σ.scheduled.length := hen
          rw [running.scheduled] at hi
          exact absurd hi (Nat.not_lt_zero i)
  | done done =>
      cases a with
      | deliver j t => exact absurd hen (not_enabled_deliver done.delivered)
      | fire i =>
          have hi : i < σ.scheduled.length := hen
          rw [done.scheduled] at hi
          exact absurd hi (Nat.not_lt_zero i)

theorem stage_start (hb : c.Balanced) : Stage c c.start (.waiting 0) := by
  have hstart : c.start = { scheduled := [0] } := by
    rw [Barrier.start, hb.void]
    rfl
  rw [hstart]
  refine .waiting ⟨Ledger.empty c, rfl, List.not_mem_nil, fun j src dst => rfl⟩ rfl

theorem stage_invariant (hb : c.Balanced) :
    (barrierMachine c).Invariant fun σ => ∃ stage, Stage c σ stage := by
  refine Machine.Inductive.invariant ⟨?_, ?_⟩
  · rintro σ rfl
    exact ⟨_, stage_start hb⟩
  · rintro σ a τ ⟨stage, hstage⟩ hen hex
    obtain ⟨stage', hstage', -⟩ := hstage.step hb hen hex
    exact ⟨stage', hstage'⟩

/-! ## What holds in every run -/

theorem Stage.ledger (h : Stage c σ stage) : ∃ started, Ledger c σ.log started := by
  cases h with
  | waiting settled _ => exact ⟨_, settled.ledger⟩
  | running running => exact ⟨_, running.ledger⟩
  | done done => exact ⟨_, done.ledger⟩

theorem Stage.of_completed (h : Stage c σ stage) (hcompleted : σ.completed = true) : Done c σ := by
  cases h with
  | waiting settled _ =>
      rw [settled.completed] at hcompleted
      cases hcompleted
  | running running =>
      rw [running.completed] at hcompleted
      cases hcompleted
  | done done => exact done

theorem Done.sent (h : Done c σ) (hk : c.phases[k]? = some ph) (src dst : Nat) :
    sentOf σ.log k src dst = ph.between src dst := by
  obtain ⟨hlt, -⟩ := List.getElem?_eq_some_iff.mp hk
  rw [h.ledger.sent, if_pos hlt, Barrier.planned, hk]

theorem Done.arrived (h : Done c σ) (hk : c.phases[k]? = some ph) (src dst : Nat) :
    deliveredOf σ.log k src dst = ph.between src dst := by
  rw [h.delivered k src dst, h.sent hk]

/-! ## The bytes of a collective -/

/-- The bytes that an event sends. -/
def BarrierObs.bytes : BarrierObs → Nat
  | .sent _ t => t.bytes
  | _ => 0

/-- The bytes that were sent. -/
def bytesSent (log : List BarrierObs) : Nat := (log.map BarrierObs.bytes).sum

variable {log : List BarrierObs}

theorem bytesSent_eq_sum {K N : Nat}
    (h : ∀ k t, .sent k t ∈ log → t.bytes ≠ 0 → k < K ∧ t.src < N ∧ t.dst < N) :
    bytesSent log = ∑ k ∈ Finset.range K, ∑ src ∈ Finset.range N, ∑ dst ∈ Finset.range N,
      sentOf log k src dst := by
  induction log with
  | nil => simp [bytesSent, sentOf]
  | cons e log ih =>
      have hone : ∑ k ∈ Finset.range K, ∑ src ∈ Finset.range N, ∑ dst ∈ Finset.range N,
          BarrierObs.sentBytes k src dst e = e.bytes := by
        cases e with
        | started _ => simp [BarrierObs.sentBytes, BarrierObs.bytes]
        | delivered _ _ _ => simp [BarrierObs.sentBytes, BarrierObs.bytes]
        | completed => simp [BarrierObs.sentBytes, BarrierObs.bytes]
        | sent k t =>
            by_cases hzero : t.bytes = 0
            · simp [BarrierObs.sentBytes, BarrierObs.bytes, hzero]
            · obtain ⟨hk, hsrc, hdst⟩ := h k t List.mem_cons_self hzero
              rw [Finset.sum_eq_single k, Finset.sum_eq_single t.src, Finset.sum_eq_single t.dst]
              · exact if_pos ⟨rfl, rfl, rfl⟩
              · exact fun dst _ hne => if_neg fun heq => hne heq.2.2.symm
              · exact fun hout => absurd (Finset.mem_range.mpr hdst) hout
              · exact fun src _ hne => Finset.sum_eq_zero fun dst _ =>
                  if_neg fun heq => hne heq.2.1.symm
              · exact fun hout => absurd (Finset.mem_range.mpr hsrc) hout
              · exact fun k' _ hne => Finset.sum_eq_zero fun src _ => Finset.sum_eq_zero fun dst _ =>
                  if_neg fun heq => hne heq.1.symm
              · exact fun hout => absurd (Finset.mem_range.mpr hk) hout
      have hcons : ∀ k src dst,
          sentOf (e :: log) k src dst = BarrierObs.sentBytes k src dst e + sentOf log k src dst :=
        fun k src dst => List.sum_cons
      simp only [hcons, Finset.sum_add_distrib]
      rw [hone, ← ih fun k t hmem => h k t (List.mem_cons_of_mem e hmem)]
      exact List.sum_cons

theorem Ledger.sent_placed (hb : c.Balanced) (h : Ledger c log started) (hmem : .sent k t ∈ log)
    (hbytes : t.bytes ≠ 0) : k < started ∧ t.src < c.numGpus ∧ t.dst < c.numGpus := by
  have hle : t.bytes ≤ sentOf log k t.src t.dst := by
    have hin : BarrierObs.sentBytes k t.src t.dst (.sent k t) ∈
        log.map (BarrierObs.sentBytes k t.src t.dst) := List.mem_map_of_mem hmem
    refine le_trans (le_of_eq ?_) (List.single_le_sum (fun _ _ => Nat.zero_le _) _ hin)
    exact (if_pos ⟨rfl, rfl, rfl⟩).symm
  rw [h.sent] at hle
  split at hle
  · rename_i hk
    refine ⟨hk, ?_⟩
    by_contra hout
    have hlt : k < c.phases.length := lt_of_lt_of_le hk h.started_le
    have hzero : c.planned k t.src t.dst = 0 := by
      rw [Barrier.planned, List.getElem?_eq_getElem hlt]
      refine Phase.between_eq_zero ?_
      rintro t' ht' ⟨hsrc, hdst⟩
      have := hb.placed _ (List.getElem_mem hlt) t' ht'
      rw [hsrc, hdst] at this
      exact hout this
    omega
  · omega

/-- The bytes that a phase waits for. -/
def Phase.volume (numGpus : Nat) (ph : Phase) : Nat := ∑ r ∈ Finset.range numGpus, ph.expected r

theorem sum_take {α : Type*} {l : List α} {f : α → Nat} {g : Nat → Nat}
    (h : ∀ k x, l[k]? = some x → g k = f x) {m : Nat} (hm : m ≤ l.length) :
    ∑ k ∈ Finset.range m, g k = ((l.take m).map f).sum := by
  induction m with
  | zero => rfl
  | succ m ih =>
      have hget : l[m]? = some l[m] := List.getElem?_eq_getElem hm
      rw [Finset.sum_range_succ, ih (by omega), List.take_add_one, hget, h m _ hget,
        List.map_append, List.sum_append]
      simp

theorem Ledger.bytesSent (hb : c.Balanced) (h : Ledger c log started) :
    bytesSent log = ((c.phases.take started).map (Phase.volume c.numGpus)).sum := by
  have hsums : ∀ k ∈ Finset.range started, ∑ src ∈ Finset.range c.numGpus,
      ∑ dst ∈ Finset.range c.numGpus, sentOf log k src dst =
        ∑ src ∈ Finset.range c.numGpus, ∑ dst ∈ Finset.range c.numGpus, c.planned k src dst := by
    intro k hk
    refine Finset.sum_congr rfl fun src _ => Finset.sum_congr rfl fun dst _ => ?_
    rw [h.sent, if_pos (Finset.mem_range.mp hk)]
  rw [bytesSent_eq_sum fun k t => h.sent_placed hb, Finset.sum_congr rfl hsums]
  refine sum_take (fun k ph hk => ?_) h.started_le
  rw [Finset.sum_comm]
  refine Finset.sum_congr rfl fun dst hdst => ?_
  rw [← hb.balanced ph (List.mem_of_getElem? hk) dst (Finset.mem_range.mp hdst)]
  refine Finset.sum_congr rfl fun src _ => ?_
  rw [Barrier.planned, hk]

/-! ## Rest -/

/-- A phase is over when it is opened, or looks at the marks, and has marked each rank that waits for
nothing. -/
def Phase.Advances (numGpus : Nat) (ph : Phase) : Prop :=
  ph.trivial = true ∨ ph.closes = true ∧ ∀ r < numGpus, ph.expected r = 0 → ph.credited r = true

/-- What has arrived ends a phase: in a hierarchical collective each rank waits for bytes or is marked
at the start, in a full-mesh one some rank waits. -/
structure Barrier.Progressive (c : Barrier) : Prop where
  credits : c.checksAll = false → ∀ ph ∈ c.phases, ph.Advances c.numGpus
  wakes : c.checksAll = true → ∀ ph ∈ c.phases, ∃ r < c.numGpus, 0 < ph.expected r

theorem Running.not_quiet (hb : c.Balanced) (hp : c.Progressive) (h : Running c k ph σ) :
    ¬ σ.Quiet := by
  rintro ⟨-, hdelivered⟩
  have hmem : ph ∈ c.phases := List.mem_of_getElem? h.mem
  have hreceived : ∀ r < c.numGpus, σ.gpuReceivedBytes r = ph.expected r := by
    intro r hr
    rw [h.counting.received r hr, ← hb.balanced ph hmem r hr]
    refine Finset.sum_congr rfl fun src _ => ?_
    rw [hdelivered k src r, h.ledger.sent, if_pos (Nat.lt_succ_self k), Barrier.planned, h.mem]
  have hall : ∀ r < c.numGpus, σ.gpuPhaseComplete r = true := by
    intro r hr
    have hle := (hreceived r hr).ge
    cases hchecks : c.checksAll with
    | false =>
        rcases hp.credits hchecks ph hmem with htrivial | ⟨-, hcredits⟩
        · rw [h.busy hchecks] at htrivial
          cases htrivial
        · rcases Nat.eq_zero_or_pos (ph.expected r) with hzero | hpos
          · exact h.counting.prompt r hr (.inl ⟨hchecks, hcredits r hr hzero⟩)
          · refine h.counting.prompt r hr (.inr ⟨?_, hle⟩)
            rw [Barrier.Touched, hchecks, hreceived r hr]
            exact hpos
    | true =>
        obtain ⟨q, hq, hpos⟩ := hp.wakes hchecks ph hmem
        refine h.counting.prompt r hr (.inr ⟨?_, hle⟩)
        rw [Barrier.Touched, if_pos hchecks]
        refine ⟨q, hq, ?_⟩
        rw [hreceived q hq]
        exact hpos
  have hcount := count_of_all_marked h.counting.counted hall
  rcases h.waiting with hlt | ⟨hchecks, hcloses⟩
  · omega
  · rcases hp.credits hchecks ph hmem with htrivial | ⟨hclosed, -⟩
    · rw [h.busy hchecks] at htrivial
      cases htrivial
    · rw [hcloses] at hclosed
      cases hclosed

theorem completed_of_quiet (hb : c.Balanced) (hp : c.Progressive)
    (hreach : (barrierMachine c).Reachable σ) (hq : σ.Quiet) : σ.completed = true := by
  obtain ⟨stage, hstage⟩ := stage_invariant hb σ hreach
  cases hstage with
  | waiting settled scheduled =>
      rw [hq.1] at scheduled
      cases scheduled
  | running running => exact absurd hq (running.not_quiet hb hp)
  | done done => exact done.completed

/-- A stage is not behind a phase. -/
def Barrier.NotPast (k : Nat) : BarrierStage → Prop
  | .waiting j => j ≤ k
  | .running j => j ≤ k
  | .done => False

/-- A phase that sends nothing, and does not end when it is opened, never ends. -/
theorem stuck_of_silent (hb : c.Balanced) (hk : c.phases[k]? = some ph)
    (hsilent : ∀ src dst, ph.between src dst = 0) (hends : ¬ c.EndsAtStart ph) :
    (barrierMachine c).Invariant fun σ => ∃ stage, Stage c σ stage ∧ Barrier.NotPast k stage := by
  obtain ⟨hlt, -⟩ := List.getElem?_eq_some_iff.mp hk
  refine Machine.Inductive.invariant ⟨?_, ?_⟩
  · rintro σ rfl
    exact ⟨_, stage_start hb, Nat.zero_le k⟩
  · rintro σ a τ ⟨stage, hstage, hpast⟩ hen hex
    obtain ⟨stage', hstage', hnext⟩ := hstage.step hb hen hex
    refine ⟨stage', hstage', ?_⟩
    have hafter : ∀ j < k, c.After j stage' → Barrier.NotPast k stage' := by
      intro j hj hafter
      cases stage' with
      | waiting i =>
          obtain rfl : i = j + 1 := hafter
          exact hj
      | running i =>
          obtain ⟨rfl, -⟩ : i = j + 1 ∧ c.checksAll = true := hafter
          exact hj
      | done =>
          have hlast : j + 1 = c.phases.length := hafter
          omega
    cases hstage with
    | @waiting j settled scheduled =>
        have hj : j ≤ k := hpast
        rcases hnext with rfl | ⟨-, hlast⟩ | ⟨ph', hph', hend, hafter'⟩
        · exact hj
        · omega
        · rcases Nat.lt_or_eq_of_le hj with hlt' | rfl
          · exact hafter j hlt' hafter'
          · rw [hk] at hph'
            cases hph'
            exact absurd hend hends
    | @running j ph' running =>
        have hj : j ≤ k := hpast
        rcases hnext with rfl | hafter'
        · exact hj
        · rcases Nat.lt_or_eq_of_le hj with hlt' | rfl
          · exact hafter j hlt' hafter'
          -- nothing of this phase can arrive
          · cases a with
            | fire i =>
                have hi : i < σ.scheduled.length := hen
                rw [running.scheduled] at hi
                exact absurd hi (Nat.not_lt_zero i)
            | deliver i t =>
                obtain ⟨rfl, -, -⟩ := running.of_enabled hb hen
                have hsent := running.ledger.sent i t.src t.dst
                have hplanned : c.planned i t.src t.dst = 0 := by
                  rw [Barrier.planned, hk]
                  exact hsilent t.src t.dst
                rw [if_pos (Nat.lt_succ_self i), hplanned] at hsent
                have hbytes := hen.1
                have hle := hen.2
                omega
    | done done => exact hpast.elim

/-- What the phases have still to bring. -/
def Barrier.toCome (c : Barrier) (log : List BarrierObs) : Nat :=
  ∑ p ∈ Finset.range c.phases.length ×ˢ Finset.range c.numGpus ×ˢ Finset.range c.numGpus,
    (c.planned p.1 p.2.1 p.2.2 - deliveredOf log p.1 p.2.1 p.2.2)

/-- The steps that are left to a stage, were nothing to arrive. -/
def Barrier.stepsLeft (c : Barrier) : BarrierStage → Nat
  | .waiting k => 2 * (c.phases.length - k) + 2
  | .running k => 2 * (c.phases.length - k) + 1
  | .done => 0

theorem toCome_le (h : ∀ k src dst, deliveredOf log k src dst ≤ deliveredOf log' k src dst) :
    c.toCome log' ≤ c.toCome log := by
  refine Finset.sum_le_sum fun p _ => ?_
  exact Nat.sub_le_sub_left (h p.1 p.2.1 p.2.2) _

theorem toCome_lt {src dst : Nat} (hk : k < c.phases.length) (hsrc : src < c.numGpus)
    (hdst : dst < c.numGpus)
    (h : ∀ k src dst, deliveredOf log k src dst ≤ deliveredOf log' k src dst)
    (hmore : deliveredOf log k src dst < deliveredOf log' k src dst)
    (hless : deliveredOf log k src dst < c.planned k src dst) : c.toCome log' < c.toCome log := by
  refine Finset.sum_lt_sum (fun p _ => Nat.sub_le_sub_left (h p.1 p.2.1 p.2.2) _) ?_
  refine ⟨(k, src, dst), ?_, ?_⟩
  · simp [hk, hsrc, hdst]
  · show c.planned k src dst - deliveredOf log' k src dst <
      c.planned k src dst - deliveredOf log k src dst
    omega

/-! The log only grows. -/

theorem log_markWhere (p : Nat → Bool) (gpus : List Nat) (σ : BarrierRun) :
    (σ.markWhere p gpus).log = σ.log := by
  induction gpus generalizing σ with
  | nil => rfl
  | cons gpu gpus ih =>
      refine (ih _).trans ?_
      dsimp only
      split <;> rfl

theorem openPhase_grows (c : Barrier) (σ : BarrierRun) (k : Nat) :
    σ.log <+: (c.openPhase σ k).log := by
  rw [Barrier.openPhase]
  split
  · exact List.prefix_append _ _
  · exact List.prefix_append _ _

theorem leave_grows (c : Barrier) (σ : BarrierRun) (k : Nat) (ph : Phase) :
    σ.log <+: (c.leave σ k ph).log := by
  rw [Barrier.leave]
  split
  · exact List.prefix_rfl
  · exact openPhase_grows c σ (k + 1)

theorem startPhase_grows (c : Barrier) (σ : BarrierRun) (k : Nat) :
    σ.log <+: (c.startPhase σ k).log := by
  rw [Barrier.startPhase]
  split
  · exact List.prefix_append _ _
  · split
    · exact List.prefix_append _ _
    · rename_i ph _
      have hopen := openPhase_grows c σ k
      dsimp only
      split
      · exact hopen.trans (leave_grows c _ k ph)
      · have hmarks := log_markWhere ph.credited (List.range c.numGpus) (c.openPhase σ k)
        rw [← hmarks] at hopen
        split
        · exact hopen.trans (leave_grows c _ k ph)
        · exact hopen

theorem onPacketReceived_grows (c : Barrier) (σ : BarrierRun) (dst bytes : Nat) :
    σ.log <+: (c.onPacketReceived σ dst bytes).log := by
  rw [Barrier.onPacketReceived]
  split
  · exact List.prefix_rfl
  · split
    · exact List.prefix_rfl
    · dsimp only
      split
      · split
        · refine List.IsPrefix.trans ?_ (leave_grows c _ _ _)
          rw [log_markWhere]
        · rw [log_markWhere]
      · split
        · split
          · refine List.IsPrefix.trans ?_ (leave_grows c _ _ _)
            exact List.prefix_rfl
          · exact List.prefix_rfl
        · exact List.prefix_rfl

theorem deliveredOf_mono (h : log <+: log') (k src dst : Nat) :
    deliveredOf log k src dst ≤ deliveredOf log' k src dst := by
  obtain ⟨tail, rfl⟩ := h
  rw [deliveredOf_append]
  exact Nat.le_add_right _ _

/-! Each step comes nearer to the end. -/

/-- How far a collective is from its end. -/
def Barrier.distance (c : Barrier) (log : List BarrierObs) (stage : BarrierStage) : Nat :=
  c.toCome log + c.stepsLeft stage

theorem stepsLeft_lt {stage' : BarrierStage} (hk : k < c.phases.length)
    (h : c.After k stage') : c.stepsLeft stage' < c.stepsLeft (.running k) := by
  cases stage' with
  | waiting j =>
      obtain rfl : j = k + 1 := h
      show 2 * (c.phases.length - (k + 1)) + 2 < 2 * (c.phases.length - k) + 1
      omega
  | running j =>
      obtain ⟨rfl, -⟩ : j = k + 1 ∧ c.checksAll = true := h
      show 2 * (c.phases.length - (k + 1)) + 1 < 2 * (c.phases.length - k) + 1
      omega
  | done =>
      show 0 < 2 * (c.phases.length - k) + 1
      omega

theorem Stage.step_distance (hb : c.Balanced) {a : BarrierAct} (h : Stage c σ stage)
    (hen : Barrier.Enabled σ a) (hex : c.exec σ a = .ok τ) :
    ∃ stage', Stage c τ stage' ∧ c.distance τ.log stage' < c.distance σ.log stage := by
  obtain ⟨stage', hstage', hnext⟩ := h.step hb hen hex
  refine ⟨stage', hstage', ?_⟩
  cases h with
  | @waiting k settled scheduled =>
      cases a with
      | deliver j t => exact absurd hen (not_enabled_deliver settled.delivered)
      | fire i =>
          have hgrows : σ.log <+: τ.log := by
            rw [Barrier.exec] at hex
            split at hex
            · cases hex
              refine List.IsPrefix.trans ?_ (startPhase_grows c _ _)
              exact List.prefix_rfl
            · cases hex
              exact List.prefix_rfl
          have htoCome : c.toCome τ.log ≤ c.toCome σ.log :=
            toCome_le (deliveredOf_mono hgrows)
          have hsteps : c.stepsLeft stage' < c.stepsLeft (.waiting k) := by
            rcases hnext with rfl | ⟨rfl, -⟩ | ⟨ph, hph, -, hafter⟩
            · exact Nat.lt_succ_self _
            · exact Nat.succ_pos _
            · obtain ⟨hlt, -⟩ := List.getElem?_eq_some_iff.mp hph
              exact (stepsLeft_lt hlt hafter).trans (Nat.lt_succ_self _)
          exact Nat.add_lt_add_of_le_of_lt htoCome hsteps
  | @running k ph running =>
      obtain ⟨hlt, -⟩ := List.getElem?_eq_some_iff.mp running.mem
      cases a with
      | fire i =>
          have hi : i < σ.scheduled.length := hen
          rw [running.scheduled] at hi
          exact absurd hi (Nat.not_lt_zero i)
      | deliver j t =>
          obtain ⟨rfl, hsrc, hdst⟩ := running.of_enabled hb hen
          have hgrows : σ.log ++ [.delivered j t (some j)] <+: τ.log := by
            have hcounted : (if (σ.completed && c.guarded) = true then none else some σ.phase) =
                some j := by
              rw [running.completed, running.phase]
              rfl
            cases hex
            rw [hcounted]
            refine List.IsPrefix.trans ?_ (onPacketReceived_grows c _ t.dst t.bytes)
            exact List.prefix_rfl
          have hmore : deliveredOf σ.log j t.src t.dst < deliveredOf τ.log j t.src t.dst := by
            have hle := deliveredOf_mono hgrows j t.src t.dst
            rw [deliveredOf_append, deliveredOf_delivered, if_pos ⟨rfl, rfl, rfl⟩] at hle
            have := hen.1
            omega
          have hless : deliveredOf σ.log j t.src t.dst < c.planned j t.src t.dst := by
            have hsent := running.ledger.sent j t.src t.dst
            rw [if_pos (Nat.lt_succ_self j)] at hsent
            have hbytes := hen.1
            have hle := hen.2
            omega
          have htoCome : c.toCome τ.log < c.toCome σ.log :=
            toCome_lt hlt hsrc hdst
              (deliveredOf_mono ((List.prefix_append _ _).trans hgrows)) hmore hless
          have hsteps : c.stepsLeft stage' ≤ c.stepsLeft (.running j) := by
            rcases hnext with rfl | hafter
            · exact le_rfl
            · exact (stepsLeft_lt hlt hafter).le
          exact Nat.add_lt_add_of_lt_of_le htoCome hsteps
  | done done => exact hnext.elim

theorem exec_ok (c : Barrier) (σ : BarrierRun) (a : BarrierAct) : ∃ τ, c.exec σ a = .ok τ := by
  cases hex : c.exec σ a with
  | error e => exact e.elim
  | ok τ => exact ⟨τ, rfl⟩

theorem Stage.exists_enabled (h : Stage c σ stage) (hq : ¬ σ.Quiet) :
    ∃ a, Barrier.Enabled σ a := by
  obtain ⟨started, hl⟩ := h.ledger
  by_cases hs : σ.scheduled = []
  · have hnot : ¬ ∀ k, Delivered σ.log k := fun hall => hq ⟨hs, hall⟩
    simp only [Delivered, not_forall] at hnot
    obtain ⟨k, src, dst, hne⟩ := hnot
    refine ⟨.deliver k ⟨src, dst, 1⟩, Nat.one_ne_zero, ?_⟩
    have := hl.bound k src dst
    show deliveredOf σ.log k src dst + 1 ≤ sentOf σ.log k src dst
    omega
  · exact ⟨.fire 0, List.length_pos_iff.mpr hs⟩

theorem exists_quiet (hb : c.Balanced) (hreach : (barrierMachine c).Reachable σ) :
    ∃ τ, (barrierMachine c).Reachable τ ∧ τ.Quiet := by
  obtain ⟨stage, hstage⟩ := stage_invariant hb σ hreach
  generalize hd : c.distance σ.log stage = d
  induction d using Nat.strong_induction_on generalizing σ stage with
  | _ d ih =>
      by_cases hq : σ.Quiet
      · exact ⟨σ, hreach, hq⟩
      · obtain ⟨a, hen⟩ := hstage.exists_enabled hq
        obtain ⟨τ, hex⟩ := exec_ok c σ a
        obtain ⟨stage', hstage', hlt⟩ := hstage.step_distance hb hen hex
        rw [hd] at hlt
        exact ih _ hlt (hreach.step hen hex) stage' hstage' rfl

theorem exists_done (hb : c.Balanced) (hp : c.Progressive) :
    ∃ τ, (barrierMachine c).Reachable τ ∧ Done c τ := by
  obtain ⟨τ, hreach, hq⟩ := exists_quiet hb (σ := c.start) (.init rfl)
  obtain ⟨stage, hstage⟩ := stage_invariant hb τ hreach
  exact ⟨τ, hreach, hstage.of_completed (completed_of_quiet hb hp hreach hq)⟩

theorem exists_stuck (hb : c.Balanced) (hk : c.phases[k]? = some ph)
    (hsilent : ∀ src dst, ph.between src dst = 0) (hends : ¬ c.EndsAtStart ph) :
    ∃ τ, (barrierMachine c).Reachable τ ∧ τ.Quiet ∧ τ.completed = false := by
  obtain ⟨τ, hreach, hq⟩ := exists_quiet hb (σ := c.start) (.init rfl)
  obtain ⟨stage, hstage, hpast⟩ := stuck_of_silent hb hk hsilent hends τ hreach
  refine ⟨τ, hreach, hq, ?_⟩
  cases hstage with
  | waiting settled _ => exact settled.completed
  | running running => exact running.completed
  | done _ => exact hpast.elim

/-! ## Void collectives -/

theorem void_invariant (hvoid : c.void = true) :
    (barrierMachine c).Invariant fun σ =>
      σ.scheduled = [0] ∧ σ.log = [] ∨
        σ.scheduled = [] ∧ σ.completed = true ∧ σ.log = [.completed] := by
  refine Machine.Inductive.invariant ⟨?_, ?_⟩
  · rintro σ rfl
    rw [Barrier.start, hvoid, Bool.true_and]
    split
    · exact .inr ⟨rfl, rfl, rfl⟩
    · exact .inl ⟨rfl, rfl⟩
  · intro σ a τ h hen hex
    have hnothing : ∀ k src dst, sentOf σ.log k src dst = 0 := by
      intro k src dst
      rcases h with ⟨-, hlog⟩ | ⟨-, -, hlog⟩
      · rw [hlog]
        rfl
      · rw [hlog]
        rfl
    cases a with
    | deliver k t =>
        obtain ⟨hbytes, hle⟩ := hen
        rw [hnothing] at hle
        omega
    | fire i =>
        have hi : i < σ.scheduled.length := hen
        rcases h with ⟨hs, hlog⟩ | ⟨hs, -⟩
        · rw [hs, List.length_singleton] at hi
          obtain rfl : i = 0 := by omega
          have hfire : c.exec σ (.fire 0) = .ok τ := hex
          rw [Barrier.exec, hs] at hfire
          obtain rfl := Except.ok.inj hfire
          rw [Barrier.startPhase, if_pos hvoid]
          refine .inr ⟨rfl, rfl, ?_⟩
          show σ.log ++ [.completed] = [.completed]
          rw [hlog]
          rfl
        · rw [hs] at hi
          exact absurd hi (Nat.not_lt_zero i)

theorem void_completed_of_quiet (hvoid : c.void = true) (hreach : (barrierMachine c).Reachable σ)
    (hq : σ.Quiet) : σ.completed = true := by
  rcases void_invariant hvoid σ hreach with ⟨hs, -⟩ | ⟨-, hcompleted, -⟩
  · rw [hq.1] at hs
    cases hs
  · exact hcompleted

end ProtoBridge.Collective
