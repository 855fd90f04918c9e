import Mathlib.Data.Nat.Bitwise
import ProtoBridge.Collective.AlltoAllOpening

/-!
# What a run of AlltoAll comes to

A run cannot stop before the callback: on the ring, the ranks that are behind the most have been sent the
chunk that they wait for; in the other modes everything was sent from the start, or is forwarded behind
its first hop.
-/

namespace ProtoBridge.Collective

open Lib Fabric

/-! ## Flow ids -/

namespace AlltoAll

variable {a : AlltoAll} {origin dest inter : Nat}

theorem finalTransfer_flowId (hmode : a.mode ≠ .ringPipeline) (origin dest : Nat) :
    (a.finalTransfer origin dest).flowId = (dest + 1) % 2 ^ 16 := by
  unfold finalTransfer
  split
  · contradiction
  · split
    · rfl
    · rename_i hinter
      unfold chunkTransfer
      rw [hinter]

theorem chunkTransfer_flowId (hinter : a.intermediate origin dest = some inter) :
    (a.chunkTransfer origin dest).flowId = (0x8000 ||| dest) % 2 ^ 16 := by
  unfold chunkTransfer
  rw [hinter]

theorem mark_final (hdest : dest < 32767) : (dest + 1) % 2 ^ 16 &&& 0x8000 = 0 := by
  rw [Nat.mod_eq_of_lt (by omega)]
  have hbit : (dest + 1).testBit 15 = false := Nat.testBit_lt_two_pow (by omega)
  have hand := Nat.and_two_pow (dest + 1) 15
  rw [hbit] at hand
  exact hand

theorem mark_firstHop (hdest : dest < 32768) :
    (0x8000 ||| dest) % 2 ^ 16 &&& 0x8000 ≠ 0 ∧ (0x8000 ||| dest) % 2 ^ 16 &&& 0x7fff = dest := by
  have hor : 0x8000 ||| dest = 2 ^ 15 + dest := by
    have hadd := Nat.two_pow_add_eq_or_of_lt (i := 15) hdest 1
    rw [Nat.mul_one] at hadd
    exact hadd.symm
  rw [hor, Nat.mod_eq_of_lt (by omega)]
  constructor
  · have hbit : (2 ^ 15 + dest).testBit 15 = true := by
      rw [Nat.testBit_two_pow_add_eq, Nat.testBit_lt_two_pow hdest]
      rfl
    have hand := Nat.and_two_pow (2 ^ 15 + dest) 15
    rw [hbit] at hand
    rw [show (0x8000 : Nat) = 2 ^ 15 by norm_num, hand]
    norm_num
  · have hmask := Nat.and_two_pow_sub_one_eq_mod (2 ^ 15 + dest) 15
    rw [Nat.add_mod_left, Nat.mod_eq_of_lt (show dest < 2 ^ 15 from hdest)] at hmask
    exact hmask

end AlltoAll

namespace AlltoAllRun

variable {a : AlltoAll} {c : AlltoAllRun} {t : AlltoAllTransfer} {origin dest inter : Nat}
  {bytes packetSize : UInt32} {mode : AlltoAllMode} {numGpus : UInt16} {dataSize : UInt64}

/-! ## Steps -/

theorem toNat_ofNat_rank {n : Nat} (h : n < 2 ^ 16) : (UInt16.ofNat n).toNat = n := by
  rw [UInt16.toNat_ofNat']
  exact Nat.mod_eq_of_lt h

theorem onPacketReceived_fragment (hbytes : bytes ≠ 0) (c : AlltoAllRun) :
    c.onPacketReceived (fragmentHeader t bytes) packetSize =
      match c.plan.mode with
      | .ringPipeline => c.receiveStep (UInt16.ofNat t.dst).toNat bytes.toNat
      | .concurrent => c.receiveChunk (UInt16.ofNat t.dst).toNat bytes.toNat
      | .twoDimensional _ _ =>
          if (UInt16.ofNat t.flowId).toNat &&& 0x8000 ≠ 0 then
            c.receiveFirstHop (UInt16.ofNat t.src).toNat (UInt16.ofNat t.dst).toNat
              ((UInt16.ofNat t.flowId).toNat &&& 0x7fff) bytes.toNat
          else c.receiveChunk (UInt16.ofNat t.dst).toNat bytes.toNat := by
  unfold onPacketReceived
  rw [if_neg (show ¬ (fragmentHeader t bytes).packetType ≠ .data from fun hne => hne rfl)]
  dsimp only
  rw [if_neg (show ¬ (fragmentHeader t bytes).effectiveDataSize = 0 from hbytes)]
  rfl

/-- A fragment arrives of a transfer that was started. -/
theorem Kept.deliver (h : Kept a c) (hr : a.Lawful) (hsent : .sent t ∈ c.log) (hbytes : bytes ≠ 0)
    (hcap : deliveredOf c.log t + bytes.toNat ≤ a.chunkSizeOf t.final) (packetSize : UInt32) :
    Kept a (onPacketReceived { c with log := c.log ++ [.delivered t bytes.toNat] }
      (fragmentHeader t bytes) packetSize) := by
  obtain rfl := h.booked.plan
  have hfew := hr.few
  have hpos : 0 < bytes.toNat := by
    apply Nat.pos_of_ne_zero
    intro hzero
    exact hbytes (UInt32.toNat_inj.mp hzero)
  have hword : ∀ n, (UInt16.ofNat (n % 2 ^ 16)).toNat = n % 2 ^ 16 :=
    fun n => toNat_ofNat_rank (Nat.mod_lt _ (by norm_num))
  rw [onPacketReceived_fragment hbytes]
  obtain ⟨origin, horigin, dest, hdest, hne, rfl | ⟨inter, hinter, rfl⟩⟩ := h.booked.ledger.hop hr hsent
  -- the last hop
  · have hdst := AlltoAll.finalTransfer_dst horigin hdest hne
    have hfinal := AlltoAll.finalTransfer_final horigin hdest hne
    have f := h.booked.ledger.fragment hr hsent (hdst.trans hfinal.symm) hpos hcap
    rw [hfinal] at f
    rw [hdst, toNat_ofNat_rank (by omega)]
    dsimp only
    cases hmode : c.plan.mode with
    | ringPipeline => exact h.receiveStep hr hmode f
    | concurrent => exact h.receiveChunk hr (by rw [hmode]; exact fun heq => nomatch heq) f
    | twoDimensional rows cols =>
        have hother : c.plan.mode ≠ .ringPipeline := by
          rw [hmode]
          exact fun heq => nomatch heq
        have hids := (hr.places rows cols hmode).2
        dsimp only
        rw [AlltoAll.finalTransfer_flowId hother, hword, if_neg]
        · exact h.receiveChunk hr hother f
        · exact fun hmark => hmark (AlltoAll.mark_final (by omega))
  -- the first of two
  · obtain ⟨hlt, -, -, hids⟩ := hr.intermediate horigin hinter
    obtain ⟨hmark, hmask⟩ := AlltoAll.mark_firstHop (show dest < 32768 by omega)
    have hsrc : (c.plan.chunkTransfer origin dest).src = origin := by
      unfold AlltoAll.chunkTransfer
      split <;> rfl
    rw [AlltoAll.chunkTransfer_final] at hcap
    have hnext := h.receiveFirstHop hr horigin hdest hinter hsent hpos hcap
    rw [AlltoAll.chunkTransfer_dst hinter, AlltoAll.chunkTransfer_flowId hinter, hsrc, hword,
      toNat_ofNat_rank (n := inter) (by omega), toNat_ofNat_rank (n := origin) (by omega), hmask]
    dsimp only
    cases hmode : c.plan.mode with
    | twoDimensional rows cols =>
        dsimp only
        rw [if_pos hmark]
        exact hnext
    | ringPipeline => exact absurd hmode (AlltoAll.mode_of_intermediate hinter)
    | concurrent =>
        unfold AlltoAll.intermediate at hinter
        rw [hmode] at hinter
        cases hinter

theorem run_eventTransfer {ev : AlltoAllEvent} (hev : eventTransfer c.plan ev = some t) :
    c.run ev = c.send t := by
  cases ev with
  | sendGpuStepData | forwardTwoDimensionalChunk => exact congrArg c.send (Option.some.inj hev)
  | triggerInitialSends => cases hev
  | triggerConcurrentSends => cases hev

theorem Kept.fire (h : Kept a c) {i : Nat} {ev : AlltoAllEvent} (hget : c.scheduled[i]? = some ev) :
    Kept a (run { c with scheduled := c.scheduled.eraseIdx i } ev) ∧
      ∃ t, .sent t ∉ c.log ∧ Due a c.log t ∧
        (run { c with scheduled := c.scheduled.eraseIdx i } ev).log = c.log ++ [.sent t] := by
  obtain ⟨t, hev⟩ := h.sends.opened ev (List.mem_of_getElem? hget)
  have hdue := h.sends.due_of_scheduled hget hev
  have hbooks := h.booked
  have hfresh : .sent t ∉ c.log := by
    intro hin
    have hone := h.sends.due t hdue
    have hpending := pending_erase hget hev t
    have hcount := List.count_pos_iff.mpr hin
    rw [if_pos rfl] at hpending
    omega
  have hrun : run { c with scheduled := c.scheduled.eraseIdx i } ev =
      send { c with scheduled := c.scheduled.eraseIdx i } t := by
    apply run_eventTransfer
    rw [← hev, ← hbooks.plan]
  rw [hrun]
  refine ⟨⟨?_, ?_, h.sends.send hget hev⟩, t, hfresh, hdue, rfl⟩
  · refine Booked.send (c := { c with scheduled := c.scheduled.eraseIdx i }) ?_ hdue
    exact ⟨hbooks.plan, hbooks.ledger, hbooks.stepped, hbooks.chunked, hbooks.hops, hbooks.bytes⟩
  · exact Closing.send (c := { c with scheduled := c.scheduled.eraseIdx i }) h.closing t

/-! ## Stages -/

/-- The state behind `Start`. -/
def started (a : AlltoAll) : AlltoAllRun :=
  { credited a a.numGpus with scheduled := [openingEvent a] }

/-- A collective that has not sent yet, or one that has. -/
def Stage (a : AlltoAll) (c : AlltoAllRun) : Prop := c = started a ∨ Kept a c

theorem kept_opening (hr : a.Lawful) : Kept a (sendAll (opening a) (credited a a.numGpus)) := by
  have hdue : ∀ t ∈ opening a, Due a [] t := fun t hin => (mem_opening hr t).mp hin
  refine ⟨(Booked.credited hr).sendAll hdue, ?_, ?_⟩
  · exact Closing.sendAll (c := credited a a.numGpus) (Closing.credited hr) (opening a)
  · rw [sendAll_scheduled, sendAll_log]
    exact Sends.opening (nodup_opening hr) (mem_opening hr)

theorem run_started (hr : a.Lawful) :
    run (credited a a.numGpus) (openingEvent a) = sendAll (opening a) (credited a a.numGpus) := by
  have htwo := hr.two
  have hsteps := hr.steps
  refine run_opening rfl ?_
  intro _ gpu hgpu
  show (if gpu < a.numGpus ∧ a.chunkSizeOf gpu = 0 then a.totalSteps else 0) ≥ a.totalSteps ↔ _
  split
  · rename_i hzero
    exact iff_of_true le_rfl hzero.2
  · rename_i hpos
    exact iff_of_false (by omega) fun hzero => hpos ⟨hgpu, hzero⟩

theorem initialized_eq (htwo : 2 ≤ numGpus.toNat) (hdata : 1 ≤ dataSize.toNat)
    (hfits : AlltoAll.Fits mode numGpus) :
    initialized mode numGpus dataSize =
      .ok (credited (AlltoAll.grid mode numGpus dataSize) numGpus.toNat) := by
  unfold initialized
  rw [if_neg]
  · rw [AlltoAll.admits_of_fits htwo hfits, precredited_eq (AlltoAll.lawful_grid htwo hdata hfits)]
    rfl
  · rintro rfl
    exact absurd htwo (by decide)

theorem start_credited (a : AlltoAll) : (credited a a.numGpus).start = started a := rfl

theorem exec_started (hr : a.Lawful) {act : Act} {c' : AlltoAllRun} (hen : (started a).enabled act)
    (hex : (started a).exec act = .ok c') :
    c' = started a ∧ (∃ h packetSize, act = .receive h packetSize) ∨
      c' = sendAll (opening a) (credited a a.numGpus) := by
  cases act with
  | fire i =>
      right
      have hi : i < 1 := hen
      obtain rfl := Nat.lt_one_iff.mp hi
      rw [← run_started hr]
      exact (Except.ok.inj hex).symm
  | deliver t bytes packetSize => cases hen.1
  | receive hdr packetSize =>
      left
      refine ⟨?_, hdr, packetSize, rfl⟩
      have hother : hdr.packetType ≠ .data := hen
      have hsame : (started a).onPacketReceived hdr packetSize = started a := if_pos hother
      rw [← hsame]
      exact (Except.ok.inj hex).symm

theorem Kept.step (h : Kept a c) (hr : a.Lawful) {act : Act} {c' : AlltoAllRun} (hen : c.enabled act)
    (hex : c.exec act = .ok c') : Kept a c' := by
  cases act with
  | fire i =>
      have hi : i < c.scheduled.length := hen
      have hget := List.getElem?_eq_getElem hi
      unfold exec at hex
      dsimp only at hex
      rw [hget] at hex
      obtain rfl := Except.ok.inj hex
      exact (h.fire hget).1
  | deliver t bytes packetSize =>
      obtain ⟨hsent, hbytes, hcap⟩ := hen
      rw [h.booked.plan] at hcap
      obtain rfl := Except.ok.inj hex
      exact h.deliver hr hsent hbytes hcap packetSize
  | receive hdr packetSize =>
      have hother : hdr.packetType ≠ .data := hen
      have hsame : c.onPacketReceived hdr packetSize = c := if_pos hother
      obtain rfl := Except.ok.inj hex
      rw [hsame]
      exact h

theorem stage_invariant (htwo : 2 ≤ numGpus.toNat) (hdata : 1 ≤ dataSize.toNat)
    (hfits : AlltoAll.Fits mode numGpus) :
    (alltoAllMachine mode numGpus dataSize).Invariant
      (Stage (AlltoAll.grid mode numGpus dataSize)) := by
  have hr := AlltoAll.lawful_grid htwo hdata hfits
  refine Machine.Inductive.invariant ⟨?_, ?_⟩
  · rintro c ⟨c₀, hinit, rfl⟩
    rw [initialized_eq htwo hdata hfits] at hinit
    obtain rfl := Except.ok.inj hinit
    exact .inl (start_credited _)
  · rintro c act c' (rfl | h) hen hex
    · rcases exec_started hr hen hex with ⟨rfl, -⟩ | rfl
      · exact .inl rfl
      · exact .inr (kept_opening hr)
    · exact .inr (h.step hr hen hex)

/-! ## Progress -/

theorem Kept.arrived_of_quiet (h : Kept a c) (hquiet : c.Quiet) (hdue : Due a c.log t) :
    deliveredOf c.log t = a.chunkSizeOf t.final := by
  obtain rfl := h.booked.plan
  obtain ⟨hscheduled, hcame⟩ := hquiet
  have hone := h.sends.due t hdue
  have hnone : pending c.plan [] t = 0 := rfl
  rw [hscheduled] at hone
  refine hcame t (List.count_pos_iff.mp ?_)
  omega

theorem stepOf_stepOf {step : Nat} (hdest : dest < a.numGpus) (hstep : step < a.numGpus) :
    (dest + a.numGpus - 1 - (dest + a.numGpus - 1 - step) % a.numGpus) % a.numGpus = step := by
  rcases Nat.lt_or_ge dest (step + 1) with hwraps | hnext
  · rw [Nat.mod_eq_of_lt (a := dest + a.numGpus - 1 - step) (by omega)]
    have hsplit : dest + a.numGpus - 1 - (dest + a.numGpus - 1 - step) = step := by omega
    rw [hsplit, Nat.mod_eq_of_lt hstep]
  · have hsplit : dest + a.numGpus - 1 - step = dest - 1 - step + a.numGpus := by omega
    rw [hsplit, Nat.add_mod_right, Nat.mod_eq_of_lt (a := dest - 1 - step) (by omega)]
    have hback : dest + a.numGpus - 1 - (dest - 1 - step) = step + a.numGpus := by omega
    rw [hback, Nat.add_mod_right, Nat.mod_eq_of_lt hstep]

/-- On the ring, chunks that have come at the first steps are whole ones. -/
theorem Ledger.steps_le (h : Ledger a c.log) (hmode : a.mode = .ringPipeline) (hdest : dest < a.numGpus)
    {steps : Nat} (hsteps : steps ≤ a.numGpus - 1) (hcame : ∀ step < steps, ∀ gpu < a.numGpus,
      deliveredOf c.log (a.stepTransfer gpu step) =
        a.chunkSizeOf (a.stepTransfer gpu step).final) :
    steps * a.chunkSizeOf dest ≤ arrivedAt c.log dest := by
  let origin (step : Nat) : Nat := (dest + a.numGpus - 1 - step) % a.numGpus
  have hback : ∀ step < a.numGpus, (dest + a.numGpus - 1 - origin step) % a.numGpus = step :=
    fun step hstep => stepOf_stepOf hdest hstep
  have hin : ∀ step < steps, origin step ∈ (Finset.range a.numGpus).erase dest := by
    intro step hstep
    rw [Finset.mem_erase, Finset.mem_range]
    refine ⟨?_, Nat.mod_lt _ (by omega)⟩
    intro hself
    have hlast := hback step (by omega)
    have hwrap : dest + a.numGpus - 1 - dest = a.numGpus - 1 := by omega
    rw [hself, hwrap, Nat.mod_eq_of_lt (by omega)] at hlast
    omega
  have hinj : ∀ step ∈ Finset.range steps, ∀ step' ∈ Finset.range steps,
      origin step = origin step' → step = step' := by
    intro step hstep step' hstep' heq
    rw [Finset.mem_range] at hstep hstep'
    rw [← hback step (by omega), ← hback step' (by omega), heq]
  have hwhole : ∀ step ∈ Finset.range steps,
      deliveredOf c.log (a.finalTransfer (origin step) dest) = a.chunkSizeOf dest := by
    intro step hstep
    rw [Finset.mem_range] at hstep
    obtain ⟨hne, hrange⟩ := Finset.mem_erase.mp (hin step hstep)
    have heq : a.finalTransfer (origin step) dest = a.stepTransfer (origin step) step := by
      unfold AlltoAll.finalTransfer
      rw [hmode]
      dsimp only
      rw [hback step (by omega)]
    have hall := hcame step hstep _ (Finset.mem_range.mp hrange)
    rw [← heq, AlltoAll.finalTransfer_final (Finset.mem_range.mp hrange) hdest hne] at hall
    exact hall
  rw [h.pooled dest hdest]
  calc steps * a.chunkSizeOf dest
      = ∑ step ∈ Finset.range steps, deliveredOf c.log (a.finalTransfer (origin step) dest) := by
        rw [Finset.sum_congr rfl hwhole, Finset.sum_const, Finset.card_range, smul_eq_mul]
    _ = ∑ o ∈ (Finset.range steps).image origin, deliveredOf c.log (a.finalTransfer o dest) :=
        (Finset.sum_image (f := fun o => deliveredOf c.log (a.finalTransfer o dest)) hinj).symm
    _ ≤ ∑ o ∈ (Finset.range a.numGpus).erase dest, deliveredOf c.log (a.finalTransfer o dest) := by
        apply Finset.sum_le_sum_of_subset
        intro o ho
        obtain ⟨step, hstep, rfl⟩ := Finset.mem_image.mp ho
        exact hin step (Finset.mem_range.mp hstep)

/-- A collective that is quiet has completed. -/
theorem Kept.completed_of_quiet (h : Kept a c) (hr : a.Lawful) (hquiet : c.Quiet) :
    c.completed = true := by
  have htwo := hr.two
  apply h.closing.ended.mpr
  have hledger := h.booked.ledger
  by_cases hmode : a.mode = .ringPipeline
  · by_contra hopen
    push Not at hopen
    obtain ⟨behind, hbehind, hne⟩ := hopen
    -- a rank that is behind the most
    obtain ⟨low, hlow, hmin⟩ := Finset.exists_min_image (Finset.range a.numGpus) (progress a c.log)
      ⟨behind, Finset.mem_range.mpr hbehind⟩
    rw [Finset.mem_range] at hlow
    have hpart : progress a c.log low < a.numGpus - 1 := by
      have hle := hmin behind (Finset.mem_range.mpr hbehind)
      have hbound := hledger.progress_le hbehind
      omega
    have hpos : 0 < a.chunkSizeOf low := by
      apply Nat.pos_of_ne_zero
      intro hzero
      unfold progress at hpart
      rw [if_pos hzero] at hpart
      omega
    have hwhole : (progress a c.log low + 1) * a.chunkSizeOf low ≤ arrivedAt c.log low := by
      refine hledger.steps_le hmode hlow (by omega) ?_
      intro step hstep gpu hgpu
      refine h.arrived_of_quiet hquiet (.step hmode hgpu (by omega) ?_)
      have hle := hmin gpu (Finset.mem_range.mpr hgpu)
      omega
    have hmore : progress a c.log low + 1 ≤ arrivedAt c.log low / a.chunkSizeOf low :=
      (Nat.le_div_iff_mul_le hpos).mpr hwhole
    have hquot : progress a c.log low = arrivedAt c.log low / a.chunkSizeOf low := if_neg hpos.ne'
    omega
  · intro dest hdest
    apply (hledger.full_iff hdest).mpr
    intro origin horigin hne
    have hfirst := h.arrived_of_quiet hquiet (.chunk hmode horigin hdest hne)
    rw [AlltoAll.chunkTransfer_final] at hfirst
    cases hinter : a.intermediate origin dest with
    | none => rwa [AlltoAll.chunkTransfer_eq_final hmode hinter] at hfirst
    | some inter =>
        have hfinal := AlltoAll.finalTransfer_final horigin hdest hne
        rcases Nat.eq_zero_or_pos (a.chunkSizeOf dest) with hzero | hpos
        · have hcap := hledger.cap (a.finalTransfer origin dest)
          rw [hfinal, hzero] at hcap
          rw [hzero]
          exact Nat.le_zero.mp hcap
        · have hlast := h.arrived_of_quiet hquiet (.forward horigin hdest hinter hpos hfirst)
          rwa [hfinal] at hlast

/-- The acts of the network and of the clock. -/
def Act.Moves : Act → Prop
  | .receive _ _ => False
  | _ => True

theorem Stage.completed_of_quiet (h : Stage a c) (hr : a.Lawful) (hquiet : c.Quiet) :
    c.completed = true := by
  rcases h with rfl | h
  · exact absurd hquiet.1 (List.cons_ne_nil _ _)
  · exact h.completed_of_quiet hr hquiet

theorem Stage.exists_act (h : Stage a c) (hquiet : ¬ c.Quiet) :
    ∃ act : Act, act.Moves ∧ c.enabled act := by
  cases hscheduled : c.scheduled with
  | cons ev rest =>
      refine ⟨.fire 0, trivial, ?_⟩
      show 0 < c.scheduled.length
      rw [hscheduled]
      exact Nat.succ_pos _
  | nil =>
      rcases h with rfl | h
      · cases hscheduled
      · have hflight : ∃ t, .sent t ∈ c.log ∧ deliveredOf c.log t ≠ c.plan.chunkSizeOf t.final := by
          by_contra hnone
          push Not at hnone
          exact hquiet ⟨hscheduled, hnone⟩
        obtain ⟨t, hsent, hne⟩ := hflight
        have hcap := h.booked.ledger.cap t
        rw [← h.booked.plan] at hcap
        refine ⟨.deliver t 1 0, trivial, hsent, by decide, ?_⟩
        show deliveredOf c.log t + 1 ≤ _
        omega

end AlltoAllRun

end ProtoBridge.Collective
