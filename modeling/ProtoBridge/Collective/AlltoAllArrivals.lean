import ProtoBridge.Collective.AlltoAllSteps

/-!
# Arrivals of an AlltoAll

A fragment of a last hop makes one more chunk whole or none. On the ring a whole chunk makes the next send
due; the last chunk is counted. A fragment of a first hop makes the chunk due to be forwarded, when it is
the last one.
-/

namespace ProtoBridge.Collective

open Lib Fabric
open Function (update update_eq_self_iff update_idem update_of_ne update_self)

namespace AlltoAllRun

variable {a : AlltoAll} {c : AlltoAllRun} {t : AlltoAllTransfer} {origin dest inter bytes : Nat}

/-! ## The ring -/

theorem drain_stop (h : c.gpuStepReceivedBytes dest < c.plan.chunkSizeOf dest) (rounds : Nat) :
    drain dest rounds c = c := by
  cases rounds with
  | zero => rfl
  | succ rounds =>
      unfold drain
      rw [if_neg fun hcovered => absurd h (Nat.not_lt.mpr hcovered.2)]

theorem finishStep_plan (c : AlltoAllRun) (dest : Nat) : (c.finishStep dest).plan = c.plan := by
  unfold finishStep onGpuStepReceiveComplete checkGlobalCompletion
  dsimp only
  split_ifs <;> rfl

theorem finishStep_received (c : AlltoAllRun) (dest : Nat) :
    (c.finishStep dest).gpuStepReceivedBytes dest =
      c.gpuStepReceivedBytes dest - c.plan.chunkSizeOf dest := by
  unfold finishStep onGpuStepReceiveComplete checkGlobalCompletion
  dsimp only
  split_ifs <;> exact update_self _ _ _

theorem drain_once (hpos : 0 < c.plan.chunkSizeOf dest)
    (hlow : c.plan.chunkSizeOf dest ≤ c.gpuStepReceivedBytes dest)
    (hhigh : c.gpuStepReceivedBytes dest < 2 * c.plan.chunkSizeOf dest) :
    drain dest (c.gpuStepReceivedBytes dest) c = c.finishStep dest := by
  obtain ⟨rounds, hrounds⟩ := Nat.exists_eq_succ_of_ne_zero (hpos.trans_le hlow).ne'
  rw [hrounds]
  unfold drain
  rw [if_pos ⟨hpos, hlow⟩]
  apply drain_stop
  rw [finishStep_received, finishStep_plan]
  omega

variable {log log' : List AlltoAllObs}

theorem due_crossed (hmode : a.mode = .ringPipeline) (hdest : dest < a.numGpus)
    (hnew : progress a log' dest = progress a log dest + 1)
    (hsame : ∀ k, k ≠ dest → progress a log' k = progress a log k) (t : AlltoAllTransfer) :
    Due a log' t ↔ Due a log t ∨ progress a log' dest < a.numGpus - 1 ∧
      t = a.stepTransfer dest (progress a log' dest) := by
  rw [due_ring_iff hmode, due_ring_iff hmode]
  constructor
  · rintro ⟨gpu, hgpu, step, hstep, hle, rfl⟩
    by_cases hk : gpu = dest
    · subst hk
      rcases Nat.lt_or_eq_of_le hle with hlt | rfl
      · exact .inl ⟨gpu, hgpu, step, hstep, by omega, rfl⟩
      · exact .inr ⟨hstep, rfl⟩
    · rw [hsame gpu hk] at hle
      exact .inl ⟨gpu, hgpu, step, hstep, hle, rfl⟩
  · rintro (⟨gpu, hgpu, step, hstep, hle, rfl⟩ | ⟨hlast, rfl⟩)
    · refine ⟨gpu, hgpu, step, hstep, ?_, rfl⟩
      by_cases hk : gpu = dest
      · subst hk
        omega
      · rw [hsame gpu hk]
        exact hle
    · exact ⟨dest, hdest, _, hlast, le_rfl, rfl⟩

theorem not_due_next (hr : a.Lawful) (hmode : a.mode = .ringPipeline)
    (hlast : progress a log dest + 1 < a.numGpus - 1) :
    ¬ Due a log (a.stepTransfer dest (progress a log dest + 1)) := by
  rw [due_ring_iff hmode]
  rintro ⟨gpu, _, step, hstep, hle, heq⟩
  obtain ⟨rfl, rfl⟩ := AlltoAll.stepTransfer_injective hr hlast hstep heq
  omega

theorem Booked.fragment {d : AlltoAllRun} (h : Booked a c) (hr : a.Lawful) (f : Fragment a c.log t dest bytes)
    (hplan : d.plan = c.plan) (hlog : d.log = c.log ++ [.delivered t bytes])
    (hstepped : a.mode = .ringPipeline →
      d.gpuCompletedStep = update c.gpuCompletedStep dest (progress a d.log dest) ∧
        d.gpuStepReceivedBytes =
          update c.gpuStepReceivedBytes dest (arrivedAt d.log dest % a.chunkSizeOf dest))
    (hchunked : a.mode ≠ .ringPipeline →
      d.gpuReceivedBytes = update c.gpuReceivedBytes dest (arrivedAt d.log dest) ∧
        d.gpuSourcesReceived = update c.gpuSourcesReceived dest (progress a d.log dest))
    (hhops : d.firstHopReceivedBytes = c.firstHopReceivedBytes)
    (hsent : d.sentDataBytes = c.sentDataBytes) : Booked a d where
  plan := hplan.trans h.plan
  ledger := by
    rw [hlog]
    exact f.ledger h.ledger hr
  stepped := by
    intro hring k hk
    rw [(hstepped hring).1, (hstepped hring).2, hlog]
    by_cases heq : k = dest
    · subst heq
      rw [update_self, update_self]
      exact ⟨rfl, rfl⟩
    · rw [update_of_ne heq, update_of_ne heq, f.progress_other heq, f.arrived_other heq]
      exact h.stepped hring k hk
  chunked := by
    intro hmode k hk
    rw [(hchunked hmode).1, (hchunked hmode).2, hlog]
    by_cases heq : k = dest
    · subst heq
      rw [update_self, update_self]
      exact ⟨rfl, rfl⟩
    · rw [update_of_ne heq, update_of_ne heq, f.progress_other heq, f.arrived_other heq]
      exact h.chunked hmode k hk
  hops := by
    intro origin horigin k hk inter hinter
    rw [hhops, hlog, f.delivered_firstHop hr horigin hinter]
    exact h.hops origin horigin k hk inter hinter
  bytes := by
    rw [hsent, hlog, bytesSent_delivered]
    exact h.bytes

theorem Closing.fragment {total : Nat} {completed : Bool} (h : Closing a total completed log)
    (hledger : Ledger a log) (f : Fragment a log t dest bytes)
    (hmore : progress a (log ++ [.delivered t bytes]) dest ≠ a.numGpus - 1) :
    Closing a total completed (log ++ [.delivered t bytes]) := by
  refine h.snoc (fun heq => nomatch heq) ?_
  intro k _
  by_cases hk : k = dest
  · rw [hk]
    exact iff_of_false hmore (f.behind hledger).ne
  · rw [f.progress_other hk]

theorem Kept.receiveStep (h : Kept a c) (hr : a.Lawful) (hmode : a.mode = .ringPipeline)
    (f : Fragment a c.log t dest bytes) :
    Kept a (AlltoAllRun.receiveStep { c with log := c.log ++ [.delivered t bytes] } dest bytes) := by
  obtain rfl := h.booked.plan
  have hbooks := h.booked
  have htwo := hr.two
  obtain ⟨hstep, hreceived⟩ := hbooks.stepped hmode dest f.rank
  obtain ⟨hall, hword⟩ := f.word hbooks.ledger hr
  have hbehind := f.behind hbooks.ledger
  have hle := f.le_chunk
  have hpos := f.chunk_pos
  have hmod := Nat.mod_lt (arrivedAt c.log dest) hpos
  have hsmall := Nat.mod_le (arrivedAt c.log dest) (c.plan.chunkSizeOf dest)
  have hcount := fun t' => count_sent_delivered c.log t t' bytes
  unfold AlltoAllRun.receiveStep
  dsimp only
  rw [update_self, hreceived, wadd_eq (by omega)]
  rcases Nat.lt_or_ge (arrivedAt c.log dest % c.plan.chunkSizeOf dest + bytes) (c.plan.chunkSizeOf dest) with
    hpart | hcross
  -- no chunk more
  · obtain ⟨hprogress, hresidue⟩ := f.uncrossed hpart
    have hsame : ∀ k, progress c.plan (c.log ++ [.delivered t bytes]) k = progress c.plan c.log k := by
      intro k
      by_cases hk : k = dest
      · rw [hk, hprogress]
      · exact f.progress_other hk
    rw [drain_stop]
    · refine ⟨?_, ?_, ?_⟩
      · refine hbooks.fragment hr f rfl rfl (fun _ => ⟨?_, ?_⟩) (fun hother => absurd hmode hother) rfl rfl
        · exact (update_eq_self_iff.mpr (hprogress.trans hstep.symm)).symm
        · rw [hresidue]
      · exact h.closing.fragment hbooks.ledger f (hprogress ▸ hbehind.ne)
      · refine h.sends.same hcount ?_
        intro t'
        constructor
        · exact Due.congr hsame fun _ _ _ hinter =>
            absurd hmode (AlltoAll.mode_of_intermediate hinter)
        · exact Due.congr (fun k => (hsame k).symm) fun _ _ _ hinter =>
            absurd hmode (AlltoAll.mode_of_intermediate hinter)
    · dsimp only
      rw [update_self]
      exact hpart
  -- one chunk more
  · obtain ⟨hprogress, hresidue⟩ := f.crossed hcross
    have hdue := due_crossed hmode f.rank hprogress fun k hk => f.progress_other hk
    have hbooked : Booked c.plan { c with
        gpuStepReceivedBytes := update c.gpuStepReceivedBytes dest
          (arrivedAt c.log dest % c.plan.chunkSizeOf dest + bytes - c.plan.chunkSizeOf dest)
        gpuCompletedStep := update c.gpuCompletedStep dest (c.gpuCompletedStep dest + 1)
        log := c.log ++ [.delivered t bytes] } :=
      hbooks.fragment hr f rfl rfl (fun _ => ⟨by rw [hprogress, hstep], by rw [hresidue]⟩)
        (fun hother => absurd hmode hother) rfl rfl
    have honce := fun hpos => drain_once (c := { c with
      log := c.log ++ [.delivered t bytes]
      gpuStepReceivedBytes := update c.gpuStepReceivedBytes dest
        (arrivedAt c.log dest % c.plan.chunkSizeOf dest + bytes) }) (show 0 < c.plan.chunkSizeOf dest from hpos)
    dsimp only at honce
    rw [update_self] at honce
    rw [honce hpos hcross (by omega)]
    unfold finishStep onGpuStepReceiveComplete
    simp only [update_self, update_idem, hr.steps]
    split
    · rename_i hlast
      rw [hstep] at hlast
      have hdone : progress c.plan (c.log ++ [.delivered t bytes]) dest = c.plan.numGpus - 1 := by omega
      refine ⟨hbooked.checkGlobalCompletion, ?_, ?_⟩
      · exact h.closing.check rfl rfl rfl rfl (fun heq => nomatch heq) hbooked.ledger f.rank hbehind.ne hdone
          fun k hk => f.progress_other hk
      · apply Sends.checkGlobalCompletion
        refine h.sends.same hcount ?_
        intro t'
        rw [hdue t', hdone]
        exact or_iff_left fun hmore => lt_irrefl _ hmore.1
    · rename_i hmore
      rw [hstep, Nat.not_le] at hmore
      refine ⟨⟨rfl, hbooked.ledger, hbooked.stepped, hbooked.chunked, hbooked.hops, hbooked.bytes⟩, ?_, ?_⟩
      · exact h.closing.fragment hbooks.ledger f (hprogress ▸ hmore.ne)
      · refine h.sends.schedule (t := c.plan.stepTransfer dest (progress c.plan c.log dest + 1)) hcount ?_ ?_ ?_
        · rw [hstep]
          rfl
        · exact not_due_next hr hmode hmore
        · intro t'
          rw [hdue t', hprogress]
          exact or_congr_right (and_iff_right hmore)

/-! ## Chunks of the other modes -/

theorem Due.congr_hops (hmode : a.mode ≠ .ringPipeline)
    (hcame : ∀ origin < a.numGpus, ∀ dest inter, a.intermediate origin dest = some inter →
      deliveredOf log' (a.chunkTransfer origin dest) = deliveredOf log (a.chunkTransfer origin dest))
    :
    Due a log' t ↔ Due a log t := by
  constructor
  · intro h
    cases h with
    | step hring => exact absurd hring hmode
    | chunk _ horigin hdest hne => exact .chunk hmode horigin hdest hne
    | forward horigin hdest hinter hpos hall =>
        exact .forward horigin hdest hinter hpos ((hcame _ horigin _ _ hinter).symm.trans hall)
  · intro h
    cases h with
    | step hring => exact absurd hring hmode
    | chunk _ horigin hdest hne => exact .chunk hmode horigin hdest hne
    | forward horigin hdest hinter hpos hall =>
        exact .forward horigin hdest hinter hpos ((hcame _ horigin _ _ hinter).trans hall)

theorem Kept.receiveChunk (h : Kept a c) (hr : a.Lawful) (hmode : a.mode ≠ .ringPipeline)
    (f : Fragment a c.log t dest bytes) :
    Kept a (AlltoAllRun.receiveChunk { c with log := c.log ++ [.delivered t bytes] } dest bytes) := by
  obtain rfl := h.booked.plan
  have hbooks := h.booked
  obtain ⟨hreceived, hsources⟩ := hbooks.chunked hmode dest f.rank
  obtain ⟨hall, hword⟩ := f.word hbooks.ledger hr
  have hbehind := f.behind hbooks.ledger
  have hpos := f.chunk_pos
  have hmul := Nat.div_add_mod (arrivedAt c.log dest) (c.plan.chunkSizeOf dest)
  have hquot : progress c.plan c.log dest = arrivedAt c.log dest / c.plan.chunkSizeOf dest := by
    unfold progress
    rw [if_neg hpos.ne']
  have hcount := fun t' => count_sent_delivered c.log t t' bytes
  have hsame : ∀ origin < c.plan.numGpus, ∀ k inter, c.plan.intermediate origin k = some inter →
      deliveredOf (c.log ++ [.delivered t bytes]) (c.plan.chunkTransfer origin k) =
        deliveredOf c.log (c.plan.chunkTransfer origin k) :=
    fun origin horigin k inter hinter => f.delivered_firstHop hr horigin hinter
  have hsends : Sends c.plan c.scheduled (c.log ++ [.delivered t bytes]) :=
    h.sends.same hcount fun t' => Due.congr_hops hmode hsame
  -- the next threshold, which fits a word
  have hthreshold : c.plan.chunkSizeOf dest * (progress c.plan c.log dest + 1) % 2 ^ 64 =
      c.plan.chunkSizeOf dest * (progress c.plan c.log dest + 1) := by
    apply Nat.mod_eq_of_lt
    refine lt_of_le_of_lt ?_ hword
    rw [Nat.mul_comm]
    exact Nat.mul_le_mul_right _ hbehind
  have hreached : arrivedAt c.log dest + bytes ≥
      c.plan.chunkSizeOf dest * (progress c.plan c.log dest + 1) ↔
        c.plan.chunkSizeOf dest ≤ arrivedAt c.log dest % c.plan.chunkSizeOf dest + bytes := by
    rw [hquot, Nat.mul_succ]
    omega
  unfold AlltoAllRun.receiveChunk
  dsimp only
  simp only [update_self, hreceived, hsources, wadd_eq (lt_of_le_of_lt hall hword), hthreshold,
    hreached]
  split
  · rename_i hcross
    have hprogress := (f.crossed hcross).1
    have hbooked : Booked c.plan { c with
        gpuReceivedBytes := update c.gpuReceivedBytes dest (arrivedAt c.log dest + bytes)
        gpuSourcesReceived :=
          update c.gpuSourcesReceived dest (progress c.plan c.log dest + 1)
        log := c.log ++ [.delivered t bytes] } :=
      hbooks.fragment hr f rfl rfl (fun hring => absurd hring hmode)
        (fun _ => ⟨by rw [f.arrived], by rw [hprogress]⟩) rfl rfl
    split
    · rename_i hlast
      have hdone : progress c.plan (c.log ++ [.delivered t bytes]) dest = c.plan.numGpus - 1 := by omega
      refine ⟨hbooked.checkGlobalCompletion, ?_, Sends.checkGlobalCompletion hsends⟩
      exact h.closing.check rfl rfl rfl rfl (fun heq => nomatch heq) hbooked.ledger f.rank hbehind.ne hdone
        fun k hk => f.progress_other hk
    · rename_i hmore
      exact ⟨hbooked, h.closing.fragment hbooks.ledger f (by omega), hsends⟩
  · rename_i hpart
    have hprogress := (f.uncrossed (Nat.not_le.mp hpart)).1
    refine ⟨?_, h.closing.fragment hbooks.ledger f (hprogress ▸ hbehind.ne), hsends⟩
    refine hbooks.fragment hr f rfl rfl (fun hring => absurd hring hmode) (fun _ => ⟨?_, ?_⟩) rfl rfl
    · rw [f.arrived]
    · exact (update_eq_self_iff.mpr (hprogress.trans hsources.symm)).symm

/-! ## First hops -/

theorem chunkTransfer_injective {origin' dest' : Nat}
    (heq : a.chunkTransfer origin dest = a.chunkTransfer origin' dest') :
    origin = origin' ∧ dest = dest' := by
  have horigin := congrArg AlltoAllTransfer.origin heq
  have hfinal := congrArg AlltoAllTransfer.final heq
  rw [AlltoAll.chunkTransfer_origin, AlltoAll.chunkTransfer_origin] at horigin
  rw [AlltoAll.chunkTransfer_final, AlltoAll.chunkTransfer_final] at hfinal
  exact ⟨horigin, hfinal⟩

theorem finalTransfer_injective {origin' dest' : Nat} (horigin : origin < a.numGpus)
    (hdest : dest < a.numGpus) (hne : origin ≠ dest) (horigin' : origin' < a.numGpus)
    (hdest' : dest' < a.numGpus) (hne' : origin' ≠ dest')
    (heq : a.finalTransfer origin dest = a.finalTransfer origin' dest') :
    origin = origin' ∧ dest = dest' := by
  have hsame := congrArg AlltoAllTransfer.origin heq
  have hfinal := congrArg AlltoAllTransfer.final heq
  rw [AlltoAll.finalTransfer_origin, AlltoAll.finalTransfer_origin] at hsame
  rw [AlltoAll.finalTransfer_final horigin hdest hne,
    AlltoAll.finalTransfer_final horigin' hdest' hne'] at hfinal
  exact ⟨hsame, hfinal⟩

theorem due_forwarded (hr : a.Lawful) (horigin : origin < a.numGpus) (hdest : dest < a.numGpus)
    (hinter : a.intermediate origin dest = some inter)
    (hdue : Due a log (a.finalTransfer origin dest)) :
    0 < a.chunkSizeOf dest ∧ deliveredOf log (a.chunkTransfer origin dest) = a.chunkSizeOf dest := by
  obtain ⟨-, hbetween, hne, -⟩ := hr.intermediate horigin hinter
  generalize ht : a.finalTransfer origin dest = t at hdue
  cases hdue with
  | step hring => exact absurd hring (AlltoAll.mode_of_intermediate hinter)
  | @chunk origin' dest' _ horigin' hdest' hne' =>
      have hsame := congrArg AlltoAllTransfer.origin ht
      have hfinal := congrArg AlltoAllTransfer.final ht
      rw [AlltoAll.finalTransfer_origin, AlltoAll.chunkTransfer_origin] at hsame
      rw [AlltoAll.finalTransfer_final horigin hdest hne, AlltoAll.chunkTransfer_final] at hfinal
      subst hsame hfinal
      have hdst := congrArg AlltoAllTransfer.dst ht
      rw [AlltoAll.finalTransfer_dst horigin hdest hne, AlltoAll.chunkTransfer_dst hinter] at hdst
      exact absurd hdst.symm hbetween
  | @forward origin' dest' inter' horigin' hdest' hinter' hpos hall =>
      have hne' := (hr.intermediate horigin' hinter').2.2.1
      obtain ⟨rfl, rfl⟩ := finalTransfer_injective horigin hdest hne horigin' hdest' hne' ht
      exact ⟨hpos, hall⟩

theorem due_firstHop (hmode : a.mode ≠ .ringPipeline) (horigin : origin < a.numGpus)
    (hdest : dest < a.numGpus) (hinter : a.intermediate origin dest = some inter)
    (hpos : 0 < a.chunkSizeOf dest)
    (hpart : deliveredOf log (a.chunkTransfer origin dest) < a.chunkSizeOf dest)
    (hother : ∀ o k, (o, k) ≠ (origin, dest) →
      deliveredOf log' (a.chunkTransfer o k) = deliveredOf log (a.chunkTransfer o k))
    (t : AlltoAllTransfer) :
    Due a log' t ↔ Due a log t ∨
      deliveredOf log' (a.chunkTransfer origin dest) = a.chunkSizeOf dest ∧
        t = a.finalTransfer origin dest := by
  constructor
  · intro hdue
    cases hdue with
    | step hring => exact absurd hring hmode
    | chunk _ ho hk hne => exact .inl (.chunk hmode ho hk hne)
    | @forward o k inter' ho hk hinter' hpos' hfull =>
        by_cases heq : (o, k) = (origin, dest)
        · cases heq
          exact .inr ⟨hfull, rfl⟩
        · rw [hother o k heq] at hfull
          exact .inl (.forward ho hk hinter' hpos' hfull)
  · rintro (hdue | ⟨hall, rfl⟩)
    · cases hdue with
      | step hring => exact absurd hring hmode
      | chunk _ ho hk hne => exact .chunk hmode ho hk hne
      | @forward o k inter' ho hk hinter' hpos' hfull =>
          have heq : (o, k) ≠ (origin, dest) := by
            intro heq
            cases heq
            exact hpart.ne hfull
          rw [← hother o k heq] at hfull
          exact .forward ho hk hinter' hpos' hfull
    · exact .forward horigin hdest hinter hpos hall

theorem Kept.receiveFirstHop (h : Kept a c) (hr : a.Lawful) (horigin : origin < a.numGpus)
    (hdest : dest < a.numGpus) (hinter : a.intermediate origin dest = some inter)
    (hsent : .sent (a.chunkTransfer origin dest) ∈ c.log) (hsome : 0 < bytes)
    (hcap : deliveredOf c.log (a.chunkTransfer origin dest) + bytes ≤ a.chunkSizeOf dest) :
    Kept a (AlltoAllRun.receiveFirstHop
      { c with log := c.log ++ [.delivered (a.chunkTransfer origin dest) bytes] }
      origin inter dest bytes) := by
  obtain rfl := h.booked.plan
  have hbooks := h.booked
  have hmode := AlltoAll.mode_of_intermediate hinter
  obtain ⟨-, hbetween, hne, -⟩ := hr.intermediate horigin hinter
  generalize hlog : c.log ++ [AlltoAllObs.delivered (c.plan.chunkTransfer origin dest) bytes] = log
  have hledger : Ledger c.plan log := by
    rw [← hlog]
    refine hbooks.ledger.deliver hr hsent ?_
    rwa [AlltoAll.chunkTransfer_final]
  have hcame : deliveredOf log (c.plan.chunkTransfer origin dest) =
      deliveredOf c.log (c.plan.chunkTransfer origin dest) + bytes := by
    rw [← hlog, deliveredOf_delivered, if_pos rfl]
  have hother : ∀ o k, (o, k) ≠ (origin, dest) →
      deliveredOf log (c.plan.chunkTransfer o k) = deliveredOf c.log (c.plan.chunkTransfer o k) := by
    intro o k hk
    rw [← hlog, deliveredOf_delivered, if_neg, Nat.add_zero]
    intro heq
    obtain ⟨rfl, rfl⟩ := chunkTransfer_injective heq
    exact hk rfl
  have harrived : ∀ k, arrivedAt log k = arrivedAt c.log k := by
    intro k
    rw [← hlog, arrivedAt_delivered, if_neg, Nat.add_zero]
    rintro ⟨hdst, hfinal⟩
    rw [AlltoAll.chunkTransfer_dst hinter] at hdst
    rw [AlltoAll.chunkTransfer_final] at hfinal
    exact hbetween (hdst.trans hfinal.symm)
  have hprogress : ∀ k, progress c.plan log k = progress c.plan c.log k := by
    intro k
    unfold progress
    rw [harrived]
  have hcount : ∀ t', log.count (.sent t') = c.log.count (.sent t') := by
    intro t'
    rw [← hlog]
    exact count_sent_delivered c.log _ t' bytes
  have hbytes : c.sentDataBytes = bytesSent c.plan log % 2 ^ 64 := by
    rw [← hlog, bytesSent_delivered]
    exact hbooks.bytes
  have hclosing : Closing c.plan c.totalCompletedGpus c.completed log := by
    rw [← hlog] at hprogress ⊢
    refine h.closing.snoc (fun heq => nomatch heq) ?_
    intro k _
    rw [hprogress]
  have hchunked : ∀ k < c.plan.numGpus, c.gpuReceivedBytes k = arrivedAt log k ∧
      c.gpuSourcesReceived k = progress c.plan log k := by
    intro k hk
    rw [harrived, hprogress]
    exact hbooks.chunked hmode k hk
  -- no other key of the map is touched
  have hhops : ∀ value, (value = if deliveredOf log (c.plan.chunkTransfer origin dest) =
        c.plan.chunkSizeOf dest then 0 else deliveredOf log (c.plan.chunkTransfer origin dest)) →
      ∀ o < c.plan.numGpus, ∀ k < c.plan.numGpus, ∀ inter', c.plan.intermediate o k = some inter' →
        update c.firstHopReceivedBytes (origin, dest) value (o, k) =
          if deliveredOf log (c.plan.chunkTransfer o k) = c.plan.chunkSizeOf k then 0
          else deliveredOf log (c.plan.chunkTransfer o k) := by
    intro value hvalue o ho k hk inter' hinter'
    by_cases heq : (o, k) = (origin, dest)
    · cases heq
      rw [update_self, hvalue]
    · rw [update_of_ne heq, hother o k heq]
      exact hbooks.hops o ho k hk inter' hinter'
  have hchunk : c.plan.chunkSizeOf dest < 2 ^ 64 := by
    rw [hr.chunk]
    exact (portion_le _ _ _).trans_lt hr.word
  have hdue := due_firstHop hmode horigin hdest hinter (by omega) (by omega) hother
  have hreceived : c.firstHopReceivedBytes (origin, dest) =
      deliveredOf c.log (c.plan.chunkTransfer origin dest) := by
    rw [hbooks.hops origin horigin dest hdest inter hinter, if_neg]
    omega
  unfold AlltoAllRun.receiveFirstHop
  dsimp only
  rw [hreceived, wadd_eq (by omega), ← hcame]
  split
  · rename_i hover
    have hall : deliveredOf log (c.plan.chunkTransfer origin dest) = c.plan.chunkSizeOf dest := by
      omega
    refine ⟨⟨rfl, hledger, fun hring => absurd hring hmode, fun _ => hchunked, ?_, hbytes⟩, hclosing, ?_⟩
    · exact hhops 0 (if_pos hall).symm
    · refine h.sends.schedule (t := c.plan.finalTransfer origin dest) hcount ?_ ?_ ?_
      · rw [AlltoAll.finalTransfer_forwarded hmode hinter]
        rfl
      · intro hearly
        have hover' := (due_forwarded hr horigin hdest hinter hearly).2
        omega
      · intro t'
        rw [hdue t']
        exact or_congr_right (and_iff_right hall)
  · rename_i hpart
    refine ⟨⟨rfl, hledger, fun hring => absurd hring hmode, fun _ => hchunked, ?_, hbytes⟩, hclosing, ?_⟩
    · exact hhops _ (if_neg (by omega)).symm
    · refine h.sends.same hcount ?_
      intro t'
      rw [hdue t']
      exact or_iff_left fun hfull => by omega

end AlltoAllRun

end ProtoBridge.Collective
