import ProtoBridge.Collective.NcclRails
import ProtoBridge.Collective.NcclRing

/-!
# What the NCCL rings send

A send is in the past or scheduled, never both and never twice, because a step of a rank on a channel
is over once. When the rings are done, all of them are in the past.
-/

namespace ProtoBridge.Collective

open Lib

/-- A rank, a channel and a step. -/
abbrev NcclSend := Nat × Nat × Nat

/-- The sends of the first step. -/
def initialSends (r : NcclRing) : List NcclSend :=
  (List.range r.numGpus).flatMap fun gpu => (List.range r.numChannels).map fun channel => (gpu, channel, 0)

/-- What a scheduled event sends. -/
def NcclEvent.sends (r : NcclRing) : NcclEvent → List NcclSend
  | .triggerInitialSends => initialSends r
  | .sendStepData gpu channel step => [(gpu, channel, step)]

/-- What was sent with an event of the past. -/
def RingObs.sends : RingObs → List NcclSend
  | .sent gpu channel step => [(gpu, channel, step)]
  | _ => []

/-- What was sent. -/
def sentSends (log : List RingObs) : List NcclSend := log.flatMap RingObs.sends

/-- The bytes that all ranks have sent. -/
def sentBytes (r : NcclRing) (log : List RingObs) : Nat :=
  ((sentSends log).map fun t => r.chunkSizeOf t.2.1 t.1 t.2.2).sum

theorem mem_sentSends {log : List RingObs} {gpu channel step : Nat} :
    (gpu, channel, step) ∈ sentSends log ↔ .sent gpu channel step ∈ log := by
  unfold sentSends
  rw [List.mem_flatMap]
  constructor
  · rintro ⟨e, he, hmem⟩
    cases e with
    | sent g ch s =>
        cases List.mem_singleton.mp hmem
        exact he
    | delivered | completed => cases hmem
  · exact fun he => ⟨_, he, List.mem_singleton.mpr rfl⟩

theorem mem_initialSends {r : NcclRing} {t : NcclSend} :
    t ∈ initialSends r ↔ t.1 < r.numGpus ∧ t.2.1 < r.numChannels ∧ t.2.2 = 0 := by
  obtain ⟨gpu, channel, step⟩ := t
  unfold initialSends
  simp only [List.mem_flatMap, List.mem_range, List.mem_map, Prod.mk.injEq]
  constructor
  · rintro ⟨g, hg, ch, hch, rfl, rfl, rfl⟩
    exact ⟨hg, hch, rfl⟩
  · rintro ⟨hg, hch, rfl⟩
    exact ⟨gpu, hg, channel, hch, rfl, rfl, rfl⟩

theorem nodup_initialSends (r : NcclRing) : (initialSends r).Nodup := by
  unfold initialSends
  rw [List.nodup_flatMap]
  constructor
  · intro gpu _
    refine List.Nodup.map ?_ List.nodup_range
    intro channel channel' heq
    exact congrArg (fun t : NcclSend => t.2.1) heq
  · refine List.Pairwise.imp ?_ List.nodup_range
    intro gpu gpu' hne t ht ht'
    obtain ⟨channel, -, rfl⟩ := List.mem_map.mp ht
    obtain ⟨channel', -, heq⟩ := List.mem_map.mp ht'
    exact hne (congrArg Prod.fst heq).symm

namespace NcclRingAllReduce

variable {r : NcclRing} {c : NcclRingAllReduce} {gpu channel step rounds : Nat}

/-- What was sent and what is scheduled to be sent. -/
def sends (c : NcclRingAllReduce) : List NcclSend :=
  sentSends c.log ++ c.scheduled.flatMap (NcclEvent.sends c.ring)

/-- Each send is there once, and behind the end of the step before; what has arrived was sent. -/
structure Once (c : NcclRingAllReduce) : Prop where
  once : c.sends.Nodup
  behind : ∀ gpu channel step, (gpu, channel, step + 1) ∈ c.sends → step < c.completedStep (gpu, channel)
  source : ∀ rank channel step bytes, .delivered rank channel step bytes ∈ c.log →
    ∃ gpu, c.ring.ringNext channel gpu = rank ∧ .sent gpu channel step ∈ c.log

theorem finishStep_cases (c : NcclRingAllReduce) (gpu channel : Nat) :
    (c.finishStep gpu channel).ring = c.ring ∧
      (c.finishStep gpu channel).completedStep =
        Function.update c.completedStep (gpu, channel) (c.completedStep (gpu, channel) + 1) ∧
      ((c.finishStep gpu channel).scheduled = c.scheduled ∧
          (∃ k, (c.finishStep gpu channel).log = c.log ++ List.replicate k .completed) ∨
        (c.finishStep gpu channel).log = c.log ∧
          (c.finishStep gpu channel).scheduled =
            c.scheduled ++ [.sendStepData gpu channel (c.completedStep (gpu, channel) + 1)]) := by
  unfold finishStep onStepReceiveComplete
  dsimp only
  split
  · refine ⟨?_, ?_, .inl ⟨?_, ?_⟩⟩
    · split_ifs <;> rfl
    · split_ifs <;> rfl
    · split_ifs <;> rfl
    · split_ifs
      · exact ⟨1, rfl⟩
      · exact ⟨0, (List.append_nil _).symm⟩
      · exact ⟨0, (List.append_nil _).symm⟩
  · exact ⟨rfl, rfl, .inr ⟨rfl, rfl⟩⟩

theorem sentSends_completed (log : List RingObs) (k : Nat) :
    sentSends (log ++ List.replicate k .completed) = sentSends log := by
  have hnone : (List.replicate k RingObs.completed).flatMap RingObs.sends = [] := by
    rw [List.flatMap_eq_nil_iff]
    intro e he
    rw [List.eq_of_mem_replicate he]
    rfl
  unfold sentSends
  rw [List.flatMap_append, hnone, List.append_nil]

theorem Once.finishStep (h : Once c) : Once (c.finishStep gpu channel) := by
  obtain ⟨hring, hsteps, hcases⟩ := finishStep_cases c gpu channel
  have hgrow : ∀ g ch, c.completedStep (g, ch) ≤
      Function.update c.completedStep (gpu, channel) (c.completedStep (gpu, channel) + 1) (g, ch) := by
    intro g ch
    by_cases hsame : (g, ch) = (gpu, channel)
    · rw [hsame, Function.update_self]
      exact Nat.le_succ _
    · rw [Function.update_of_ne hsame]
  rcases hcases with ⟨hscheduled, k, hlog⟩ | ⟨hlog, hscheduled⟩
  · have hsends : (c.finishStep gpu channel).sends = c.sends := by
      unfold sends
      rw [hlog, hscheduled, hring, sentSends_completed]
    refine ⟨?_, ?_, ?_⟩
    · rw [hsends]
      exact h.once
    · intro g ch s hmem
      rw [hsends] at hmem
      rw [hsteps]
      exact (h.behind g ch s hmem).trans_le (hgrow g ch)
    · intro rank ch s bytes hmem
      rw [hring]
      rw [hlog] at hmem ⊢
      rcases List.mem_append.mp hmem with hold | hnew
      · obtain ⟨g, hg, hsent⟩ := h.source rank ch s bytes hold
        exact ⟨g, hg, List.mem_append_left _ hsent⟩
      · cases List.eq_of_mem_replicate hnew
  · have hsends : (c.finishStep gpu channel).sends =
        c.sends ++ [(gpu, channel, c.completedStep (gpu, channel) + 1)] := by
      unfold sends
      rw [hlog, hscheduled, hring, List.flatMap_append, List.append_assoc]
      rfl
    -- the next step was open until now
    have hnew : (gpu, channel, c.completedStep (gpu, channel) + 1) ∉ c.sends :=
      fun hmem => Nat.lt_irrefl _ (h.behind _ _ _ hmem)
    refine ⟨?_, ?_, ?_⟩
    · rw [hsends]
      exact h.once.append (List.nodup_singleton _) (List.disjoint_singleton.mpr hnew)
    · intro g ch s hmem
      rw [hsends] at hmem
      rw [hsteps]
      rcases List.mem_append.mp hmem with hold | hnow
      · exact (h.behind g ch s hold).trans_le (hgrow g ch)
      · simp only [List.mem_singleton, Prod.mk.injEq, Nat.add_right_cancel_iff] at hnow
        obtain ⟨rfl, rfl, rfl⟩ := hnow
        rw [Function.update_self]
        exact Nat.lt_succ_self _
    · rw [hring, hlog]
      exact h.source

theorem Once.drain (h : Once c) : Once (drain gpu channel rounds c) := by
  induction rounds generalizing c with
  | zero => exact h
  | succ rounds ih =>
      unfold NcclRingAllReduce.drain
      split
      · exact ih h.finishStep
      · exact h

theorem Once.onPacketReceived (h : Once c) (p : Header) (packetSize : UInt32) :
    Once (c.onPacketReceived p packetSize) := by
  unfold NcclRingAllReduce.onPacketReceived
  dsimp only
  split_ifs
  · exact ⟨h.once, h.behind, h.source⟩
  · exact h
  · exact h
  · exact h
  · exact Once.drain ⟨h.once, h.behind, h.source⟩
  · exact Once.drain ⟨h.once, h.behind, h.source⟩

theorem sendStepData_log (c : NcclRingAllReduce) (gpu channel step : Nat) :
    sentSends (c.sendStepData gpu channel step).log = sentSends c.log ++ [(gpu, channel, step)] := by
  unfold sentSends sendStepData
  rw [List.flatMap_append]
  rfl

/-- The event sends what it stands for, and nothing else happens. -/
structure Sends (new : List NcclSend) (c c' : NcclRingAllReduce) : Prop where
  ring : c'.ring = c.ring
  scheduled : c'.scheduled = c.scheduled
  steps : c'.completedStep = c.completedStep
  log : sentSends c'.log = sentSends c.log ++ new
  delivered : ∀ rank channel step bytes, .delivered rank channel step bytes ∈ c'.log →
    .delivered rank channel step bytes ∈ c.log

theorem Sends.refl (c : NcclRingAllReduce) : Sends [] c c :=
  ⟨rfl, rfl, rfl, (List.append_nil _).symm, fun _ _ _ _ hmem => hmem⟩

theorem Sends.trans {new new' : List NcclSend} {c' c'' : NcclRingAllReduce} (h : Sends new c c')
    (h' : Sends new' c' c'') : Sends (new ++ new') c c'' := by
  refine ⟨h'.ring.trans h.ring, h'.scheduled.trans h.scheduled, h'.steps.trans h.steps, ?_, ?_⟩
  · rw [h'.log, h.log, List.append_assoc]
  · exact fun rank channel step bytes hmem => h.delivered _ _ _ _ (h'.delivered _ _ _ _ hmem)

theorem sends_sendStepData (c : NcclRingAllReduce) (gpu channel step : Nat) :
    Sends [(gpu, channel, step)] c (c.sendStepData gpu channel step) := by
  refine ⟨rfl, rfl, rfl, sendStepData_log c gpu channel step, ?_⟩
  intro rank ch s bytes hmem
  rcases List.mem_append.mp hmem with hold | hnew
  · exact hold
  · cases List.mem_singleton.mp hnew

theorem sends_foldl {α : Type} {f : NcclRingAllReduce → α → NcclRingAllReduce} {new : α → List NcclSend}
    {l : List α} (hstep : ∀ c, c.ring = r → ∀ a ∈ l, Sends (new a) c (f c a)) (hring : c.ring = r) :
    Sends (l.flatMap new) c (l.foldl f c) := by
  induction l generalizing c with
  | nil => exact .refl c
  | cons a l ih =>
      have hfirst := hstep c hring a List.mem_cons_self
      rw [List.flatMap_cons]
      apply hfirst.trans
      exact ih (fun c hc a ha => hstep c hc a (List.mem_cons_of_mem _ ha)) (hfirst.ring.trans hring)

theorem sends_run (c : NcclRingAllReduce) (e : NcclEvent) : Sends (e.sends c.ring) c (run c e) := by
  cases e with
  | triggerInitialSends =>
      unfold run triggerInitialSends NcclEvent.sends initialSends
      refine sends_foldl (r := c.ring) ?_ rfl
      intro c' hc' gpu _
      rw [hc', List.map_eq_flatMap]
      exact sends_foldl (fun c'' _ channel _ => sends_sendStepData c'' gpu channel 0) hc'
  | sendStepData gpu channel step => exact sends_sendStepData c gpu channel step

theorem Once.fire (h : Once c) {i : Nat} {e : NcclEvent} (he : c.scheduled[i]? = some e) :
    Once (run { c with scheduled := c.scheduled.eraseIdx i } e) := by
  obtain ⟨hi, hat⟩ := List.getElem?_eq_some_iff.mp he
  have hperm : List.Perm (e :: c.scheduled.eraseIdx i) c.scheduled := by
    rw [← hat]
    exact List.getElem_cons_eraseIdx_perm hi
  have hrun := sends_run { c with scheduled := c.scheduled.eraseIdx i } e
  generalize run { c with scheduled := c.scheduled.eraseIdx i } e = c' at hrun
  -- the sends of the event move from the schedule to the past
  have hmoved : List.Perm c'.sends c.sends := by
    unfold sends
    rw [hrun.log, hrun.scheduled, hrun.ring, List.append_assoc]
    apply List.Perm.append_left
    have hflat := hperm.flatMap_right (NcclEvent.sends c.ring)
    rwa [List.flatMap_cons] at hflat
  refine ⟨hmoved.nodup_iff.mpr h.once, ?_, ?_⟩
  · intro gpu channel step hmem
    rw [hrun.steps]
    exact h.behind gpu channel step (hmoved.mem_iff.mp hmem)
  · intro rank channel step bytes hmem
    obtain ⟨gpu, hgpu, hsent⟩ := h.source rank channel step bytes (hrun.delivered _ _ _ _ hmem)
    refine ⟨gpu, ?_, ?_⟩
    · rw [hrun.ring]
      exact hgpu
    · rw [← mem_sentSends, hrun.log]
      exact List.mem_append_left _ (mem_sentSends.mpr hsent)

theorem Once.deliver (h : Once c) {step : Nat} {bytes : UInt32} (packetSize : UInt32)
    (hsent : .sent gpu channel step ∈ c.log) :
    Once (NcclRingAllReduce.onPacketReceived
      { c with log := c.log ++ [.delivered (c.ring.ringNext channel gpu) channel step bytes.toNat] }
      (c.fragmentHeader gpu channel step bytes) packetSize) := by
  apply Once.onPacketReceived
  have hsends : sentSends (c.log ++ [.delivered (c.ring.ringNext channel gpu) channel step bytes.toNat]) =
      sentSends c.log := by
    unfold sentSends
    rw [List.flatMap_append]
    exact List.append_nil _
  refine ⟨?_, ?_, ?_⟩
  · unfold sends
    rw [hsends]
    exact h.once
  · intro g ch s hmem
    unfold sends at hmem
    rw [hsends] at hmem
    exact h.behind g ch s hmem
  · intro rank ch s amount hmem
    rcases List.mem_append.mp hmem with hold | hnew
    · obtain ⟨g, hg, hbefore⟩ := h.source rank ch s amount hold
      exact ⟨g, hg, List.mem_append_left _ hbefore⟩
    · simp only [List.mem_singleton, RingObs.delivered.injEq] at hnew
      obtain ⟨rfl, rfl, rfl, -⟩ := hnew
      exact ⟨gpu, rfl, List.mem_append_left _ hsent⟩

theorem Once.exec (h : Once c) {a : Act} (hen : c.enabled a) {c' : NcclRingAllReduce}
    (hex : c.exec a = .ok c') : Once c' := by
  cases a with
  | fire i =>
      unfold NcclRingAllReduce.exec at hex
      dsimp only at hex
      split at hex
      · rename_i e he
        cases hex
        exact h.fire he
      · cases hex
        exact h
  | deliver gpu channel step bytes packetSize =>
      cases hex
      exact h.deliver packetSize hen.1
  | receive p packetSize =>
      cases hex
      exact h.onPacketReceived p packetSize

theorem once_start (r : NcclRing) :
    Once { ring := r, running := true, scheduled := [.triggerInitialSends] } := by
  have hsends : sends { ring := r, running := true, scheduled := [.triggerInitialSends] } =
      initialSends r := by
    show [] ++ (initialSends r ++ []) = _
    rw [List.append_nil, List.nil_append]
  refine ⟨?_, ?_, fun _ _ _ _ hmem => nomatch hmem⟩
  · rw [hsends]
    exact nodup_initialSends r
  · intro gpu channel step hmem
    rw [hsends, mem_initialSends] at hmem
    exact absurd hmem.2.2 (Nat.succ_ne_zero step)

/-! ## Totals -/

theorem sent_of_completed (h : Going c) (honce : Once c) (hdone : .completed ∈ c.log)
    (hgpu : gpu < c.ring.numGpus) (hchannel : channel < c.ring.numChannels)
    (hstep : step < c.ring.totalSteps) : .sent gpu channel step ∈ c.log := by
  have hr := h.lawful
  obtain ⟨before, after, hlog⟩ := List.append_of_mem hdone
  have hall := h.kept.completes before .completed after hlog rfl
  obtain ⟨pred, hpred, -, hbytes⟩ := hall _ (hr.next channel gpu hgpu) channel hchannel step hstep
  have hpos : deliveredAt before (c.ring.ringNext channel gpu) channel step ≠ 0 :=
    (Nat.lt_of_lt_of_le (NcclRing.chunkSizeOf_pos hr h.data) hbytes).ne'
  -- the successor has bytes of the chunk, which only this rank sends it
  obtain ⟨e, he, hcame⟩ : ∃ e ∈ before,
      RingObs.bytesAt (c.ring.ringNext channel gpu) channel step e ≠ 0 := by
    by_contra! hnone
    refine hpos (List.sum_eq_zero fun x hx => ?_)
    obtain ⟨e, he, rfl⟩ := List.mem_map.mp hx
    exact hnone e he
  cases e with
  | sent | completed => exact absurd rfl hcame
  | delivered rank ch s bytes =>
      unfold RingObs.bytesAt at hcame
      dsimp only at hcame
      split at hcame
      · rename_i hsame
        obtain ⟨rfl, rfl, rfl⟩ := hsame
        have hin : RingObs.delivered (c.ring.ringNext ch gpu) ch s bytes ∈ c.log := by
          rw [hlog]
          exact List.mem_append_left _ he
        obtain ⟨g, hnext, hsent⟩ := honce.source _ _ _ _ hin
        have hg := (h.kept.sent g ch s hsent).1
        rw [hr.unique ch gpu g _ ⟨hgpu, rfl⟩ ⟨hg, hnext⟩]
        exact hsent
      · exact absurd rfl hcame

theorem sentBytes_of_completed (h : Going c) (honce : Once c) (hdone : .completed ∈ c.log) :
    sentBytes c.ring c.log = ∑ step ∈ Finset.range c.ring.totalSteps,
      ∑ channel ∈ Finset.range c.ring.numChannels, ∑ rank ∈ Finset.range c.ring.numGpus,
        c.ring.chunkSizeOf channel rank step := by
  have hnodup : (sentSends c.log).Nodup := (List.nodup_append.mp honce.once).1
  have hbox : (sentSends c.log).toFinset = Finset.range c.ring.numGpus ×ˢ
      Finset.range c.ring.numChannels ×ˢ Finset.range c.ring.totalSteps := by
    ext ⟨gpu, channel, step⟩
    simp only [List.mem_toFinset, mem_sentSends, Finset.mem_product, Finset.mem_range]
    constructor
    · exact h.kept.sent gpu channel step
    · exact fun ⟨hg, hch, hs⟩ => sent_of_completed h honce hdone hg hch hs
  unfold sentBytes
  rw [← List.sum_toFinset _ hnodup, hbox, Finset.sum_product_right, Finset.sum_product_right]

variable {numGpus : UInt16} {dataSize : UInt64} {gpusPerNode numNodes numChannelsCfg : UInt32}

theorem going_and_once (hinit : NcclRing.initialized numGpus dataSize gpusPerNode numNodes numChannelsCfg =
      .ok r) (hsingle : r.trivialSingleRank = false) (hzero : r.trivialZeroData = false) :
    (ncclMachine numGpus dataSize gpusPerNode numNodes numChannelsCfg).Invariant fun c =>
      c.ring = r ∧ Going c ∧ Once c := by
  have hr := NcclRing.lawful_of_initialized hinit hsingle
  refine Machine.Inductive.invariant ⟨?_, ?_⟩
  · rintro c ⟨r', hr', rfl⟩
    cases hinit.symm.trans hr'
    have hstart : start { ring := r } = { ring := r, running := true, scheduled := [.triggerInitialSends] } := by
      unfold start
      dsimp only
      rw [hsingle, hzero]
      rfl
    rw [hstart]
    refine ⟨rfl, ⟨hr, hzero, ?_⟩, once_start r⟩
    exact kept_start hr _ fun e he => List.mem_singleton.mp he
  · rintro c a c' ⟨hring, hgoing, honce⟩ hen hex
    obtain ⟨hgoing', hring'⟩ := ring_exec hgoing hen hex
    exact ⟨hring'.trans hring, hgoing', honce.exec hen hex⟩

end NcclRingAllReduce

open NcclRing in
/-- The rings of the channels are spread over the rails for every number of channels that a node has ranks
for, and for the number of channels that `Initialize` settles on; and in every run the ranks have sent
the data twice around all ranks but one when the collective is done. -/
theorem ncclRings_spread (numGpus : UInt16) (dataSize : UInt64) (gpusPerNode numNodes : UInt32)
    (htwo : 2 ≤ numGpus.toNat) (hranks : numNodes.toNat * gpusPerNode.toNat = numGpus.toNat) :
    (∀ numChannels, 0 < numChannels → numChannels ≤ gpusPerNode.toNat →
        numChannels * numGpus.toNat ≤ dataSize.toNat →
          RailSpread (layout numGpus dataSize gpusPerNode numNodes numChannels)) ∧
      ∀ numChannelsCfg, ∃ r, initialized numGpus dataSize gpusPerNode numNodes numChannelsCfg = .ok r ∧
        r = layout numGpus dataSize gpusPerNode numNodes r.numChannels ∧
        0 < r.numChannels ∧ r.numChannels ≤ gpusPerNode.toNat ∧
        (r.numChannels * numGpus.toNat ≤ dataSize.toNat →
          (ncclMachine numGpus dataSize gpusPerNode numNodes numChannelsCfg).Invariant fun c =>
            c.ring = r ∧ (.completed ∈ c.log →
              sentBytes r c.log = 2 * (numGpus.toNat - 1) * dataSize.toNat)) := by
  have hg : 0 < gpusPerNode.toNat := by
    rcases Nat.eq_zero_or_pos gpusPerNode.toNat with hzero | hpos
    · rw [hzero, Nat.mul_zero] at hranks
      omega
    · exact hpos
  refine ⟨fun numChannels hpos hle hchunks => railSpread_layout htwo hranks hpos hle hchunks, ?_⟩
  intro numChannelsCfg
  have hinit := initialized_eq dataSize htwo hranks numChannelsCfg
  have hpos := resolvedChannels_pos numChannelsCfg.toNat (2 * (numGpus.toNat - 1)) hg
  have hle := resolvedChannels_le numChannelsCfg.toNat gpusPerNode.toNat (2 * (numGpus.toNat - 1)) hg
  refine ⟨_, hinit, rfl, hpos, hle, ?_⟩
  intro hchunks c hc
  have hdata : decide (dataSize = 0) = false := by
    rw [decide_eq_false_iff_not]
    rintro rfl
    have hgrid := Nat.mul_pos hpos (by omega : 0 < numGpus.toNat)
    exact absurd (hgrid.trans_le hchunks) (Nat.lt_irrefl 0)
  obtain ⟨hring, hgoing, honce⟩ := NcclRingAllReduce.going_and_once hinit rfl hdata c hc
  refine ⟨hring, fun hdone => ?_⟩
  have htotal := NcclRingAllReduce.sentBytes_of_completed hgoing honce hdone
  rw [hring] at htotal
  rw [htotal]
  exact (railSpread_layout htwo hranks hpos hle hchunks).sends

/-- Two nodes of two ranks, with 15 bytes. -/
theorem ncclRings_spread_twoNodes :
    RailSpread (NcclRing.layout 4 15 2 2 2) ∧
      ∀ numChannelsCfg, ∃ r, NcclRing.initialized 4 15 2 2 numChannelsCfg = .ok r ∧
        r = NcclRing.layout 4 15 2 2 r.numChannels ∧ 0 < r.numChannels ∧ r.numChannels ≤ 2 ∧
        (r.numChannels * 4 ≤ 15 → (ncclMachine 4 15 2 2 numChannelsCfg).Invariant fun c =>
          c.ring = r ∧ (.completed ∈ c.log → sentBytes r c.log = 90)) := by
  have h := ncclRings_spread 4 15 2 2 (by decide) (by decide)
  exact ⟨h.1 2 (by decide) (by decide) (by decide), h.2⟩

end ProtoBridge.Collective
