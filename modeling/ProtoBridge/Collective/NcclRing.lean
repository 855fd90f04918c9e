import Mathlib.Algebra.Order.BigOperators.Group.Finset
import ProtoBridge.Collective.NcclLayout
import ProtoBridge.Collective.Service
import ProtoBridge.Lib.Count

/-!
# NcclRingAllReduce

A rank sends its chunk of the next step when it has the bytes of the step before.
The bytes of all steps of a channel go into one pool, from which the chunk of each
completed step is taken: what has come for a later step counts for the open one. So
a rank may send on too early; it never is done too early.
-/

namespace ProtoBridge.Collective

open Lib Fabric
open Function (update update_of_ne update_self)

/-- A scheduled event. -/
inductive NcclEvent
  | triggerInitialSends
  | sendStepData (gpu channel step : Nat)
  deriving DecidableEq

/-- What happened: a rank sent its chunk of a step, bytes of the chunk of a step arrived at a rank,
the completion callback was called. -/
inductive RingObs
  | sent (gpu channel step : Nat)
  | delivered (rank channel step bytes : Nat)
  | completed
  deriving DecidableEq

/-- `NcclRingAllReduce`, all of its endpoints present. The tables have a rank and a channel for
their index. -/
structure NcclRingAllReduce where
  ring : NcclRing
  running : Bool := false
  completed : Bool := false
  completedStep : Nat × Nat → Nat := fun _ => 0
  recvBytes : Nat × Nat → Nat := fun _ => 0
  doneChannels : Nat → Nat := fun _ => 0
  gpuDoneCount : Nat := 0
  permanentLossCount : Nat := 0
  sentDataBytes : Nat := 0
  scheduled : List NcclEvent := []
  log : List RingObs := []

namespace NcclRingAllReduce

/-- `Complete`. -/
def complete (c : NcclRingAllReduce) : NcclRingAllReduce :=
  { c with completed := true, running := false, log := c.log ++ [.completed] }

/-- `Start`. -/
def start (c : NcclRingAllReduce) : NcclRingAllReduce :=
  let c := { c with running := true }
  if c.ring.trivialZeroData then c.complete
  else if c.ring.trivialSingleRank then c.complete
  else { c with scheduled := c.scheduled ++ [.triggerInitialSends] }

/-- `SendStepData`. -/
def sendStepData (c : NcclRingAllReduce) (gpu channel step : Nat) : NcclRingAllReduce :=
  { c with
    sentDataBytes := wadd 64 c.sentDataBytes (c.ring.chunkSizeOf channel gpu step)
    log := c.log ++ [.sent gpu channel step] }

/-- `TriggerInitialSends`. -/
def triggerInitialSends (c : NcclRingAllReduce) : NcclRingAllReduce :=
  (List.range c.ring.numGpus).foldl (fun c gpu =>
    (List.range c.ring.numChannels).foldl (fun c channel => c.sendStepData gpu channel 0) c) c

/-- `OnStepReceiveComplete`. -/
def onStepReceiveComplete (c : NcclRingAllReduce) (gpu channel step : Nat) : NcclRingAllReduce :=
  if step + 1 ≥ c.ring.totalSteps then
    let c := { c with doneChannels := update c.doneChannels gpu (c.doneChannels gpu + 1) }
    if c.doneChannels gpu ≥ c.ring.numChannels then
      let c := { c with gpuDoneCount := c.gpuDoneCount + 1 }
      if c.gpuDoneCount ≥ c.ring.numGpus then c.complete else c
    else c
  else { c with scheduled := c.scheduled ++ [.sendStepData gpu channel (step + 1)] }

/-- The pool of a rank and a channel covers the open step. -/
def Covered (c : NcclRingAllReduce) (gpu channel : Nat) : Prop :=
  c.completedStep (gpu, channel) < c.ring.totalSteps ∧
    c.recvBytes (gpu, channel) ≥
      c.ring.expectedRecvBytes gpu channel (c.completedStep (gpu, channel))

instance (c : NcclRingAllReduce) (gpu channel : Nat) : Decidable (c.Covered gpu channel) :=
  inferInstanceAs (Decidable (_ ∧ _))

/-- One round of the loop of `OnPacketReceived`. -/
def finishStep (c : NcclRingAllReduce) (gpu channel : Nat) : NcclRingAllReduce :=
  let step := c.completedStep (gpu, channel)
  onStepReceiveComplete
    { c with
      recvBytes := update c.recvBytes (gpu, channel)
        (c.recvBytes (gpu, channel) - c.ring.expectedRecvBytes gpu channel step)
      completedStep := update c.completedStep (gpu, channel) (step + 1) }
    gpu channel step

/-- The loop of `OnPacketReceived`; every round completes a step. -/
def drain (gpu channel : Nat) : Nat → NcclRingAllReduce → NcclRingAllReduce
  | 0, c => c
  | rounds + 1, c => if c.Covered gpu channel then drain gpu channel rounds (c.finishStep gpu channel) else c

/-- `OnPacketReceived`. -/
def onPacketReceived (c : NcclRingAllReduce) (h : Header) (packetSize : UInt32) : NcclRingAllReduce :=
  if h.packetType = .permanentLoss then { c with permanentLossCount := wadd 32 c.permanentLossCount 1 }
  else if h.packetType ≠ .data then c
  else
    let gpu := h.destRank.toNat
    if gpu ≥ c.ring.numGpus ∨ h.flowId.toNat < NcclRing.flowIdBase then c
    else
      let channel := (h.flowId.toNat - NcclRing.flowIdBase) / c.ring.totalSteps
      if channel ≥ c.ring.numChannels then c
      else
        let effectiveSize := if h.effectiveDataSize = 0 then packetSize else h.effectiveDataSize
        let c := { c with
          recvBytes := update c.recvBytes (gpu, channel)
            (wadd 64 (c.recvBytes (gpu, channel)) effectiveSize.toNat) }
        drain gpu channel (c.ring.totalSteps - c.completedStep (gpu, channel)) c

/-- The header of a fragment of the chunk that a rank sends at a step. -/
def fragmentHeader (c : NcclRingAllReduce) (gpu channel step : Nat) (bytes : UInt32) : Header where
  packetType := .data
  sourceRank := UInt16.ofNat gpu
  destRank := UInt16.ofNat (c.ring.ringNext channel gpu)
  flowId := UInt16.ofNat (c.ring.flowIdOf channel step)
  effectiveDataSize := bytes

/-- What happens to a started collective. -/
inductive Act
  | fire (i : Nat)
  | deliver (gpu channel step : Nat) (bytes packetSize : UInt32)
  | receive (h : Header) (packetSize : UInt32)

/-- A scheduled event runs. -/
def run (c : NcclRingAllReduce) : NcclEvent → NcclRingAllReduce
  | .triggerInitialSends => c.triggerInitialSends
  | .sendStepData gpu channel step => c.sendStepData gpu channel step

/-- One of these. -/
def exec (c : NcclRingAllReduce) : Act → Except NcclAbort NcclRingAllReduce
  | .fire i =>
      match c.scheduled[i]? with
      | some e => .ok (run { c with scheduled := c.scheduled.eraseIdx i } e)
      | none => .ok c
  | .deliver gpu channel step bytes packetSize =>
      .ok (onPacketReceived
        { c with log := c.log ++ [.delivered (c.ring.ringNext channel gpu) channel step bytes.toNat] }
        (c.fragmentHeader gpu channel step bytes) packetSize)
  | .receive h packetSize => .ok (c.onPacketReceived h packetSize)

end NcclRingAllReduce

/-- The bytes of the chunk of a step that an event brings a rank. -/
def RingObs.bytesAt (rank channel step : Nat) : RingObs → Nat
  | .delivered r ch s bytes => if r = rank ∧ ch = channel ∧ s = step then bytes else 0
  | _ => 0

/-- The bytes of the chunk of a step that have arrived at a rank. -/
def deliveredAt (log : List RingObs) (rank channel step : Nat) : Nat :=
  (log.map (RingObs.bytesAt rank channel step)).sum

/-- The bytes that an event brings the pool of a rank and a channel. -/
def RingObs.pooledAt (r : NcclRing) (rank channel : Nat) : RingObs → Nat
  | .delivered rk ch s bytes =>
      if rk = rank ∧ ch = channel ∧ NcclRing.flowIdBase ≤ r.flowIdOf ch s then bytes else 0
  | _ => 0

/-- The bytes of all chunks of a channel that have arrived at a rank. -/
def pooledAt (r : NcclRing) (log : List RingObs) (rank channel : Nat) : Nat :=
  (log.map (RingObs.pooledAt r rank channel)).sum

/-- The bytes of the chunks of the first steps that a rank waits for. -/
def dueBytes (r : NcclRing) (rank channel steps : Nat) : Nat :=
  ∑ step ∈ Finset.range steps, r.expectedRecvBytes rank channel step

namespace NcclRingAllReduce

/-- A fragment arrives behind the send of its chunk, and each byte of a chunk arrives once. Other
packets are none of data. -/
def enabled (c : NcclRingAllReduce) : Act → Prop
  | .fire i => i < c.scheduled.length
  | .deliver gpu channel step bytes _ => .sent gpu channel step ∈ c.log ∧ bytes ≠ 0 ∧
      deliveredAt c.log (c.ring.ringNext channel gpu) channel step + bytes.toNat ≤
        c.ring.chunkSizeOf channel gpu step
  | .receive h _ => h.packetType ≠ .data

instance (c : NcclRingAllReduce) : (a : Act) → Decidable (c.enabled a)
  | .fire i => inferInstanceAs (Decidable (i < c.scheduled.length))
  | .deliver _ _ _ _ _ => inferInstanceAs (Decidable (_ ∧ _ ∧ _))
  | .receive h _ => inferInstanceAs (Decidable (h.packetType ≠ .data))

/-- As long as a chunk misses bytes at a rank, the bytes of later chunks of the channel that have
overtaken it there are fewer than those missing of it and of the chunks before. -/
def InOrder (r : NcclRing) (log : List RingObs) (rank channel : Nat) : Prop :=
  ∀ step < r.totalSteps, deliveredAt log rank channel step < r.expectedRecvBytes rank channel step →
    pooledAt r log rank channel < dueBytes r rank channel (step + 1)

instance (r : NcclRing) (log : List RingObs) (rank channel : Nat) :
    Decidable (InOrder r log rank channel) :=
  inferInstanceAs (Decidable (∀ _ < _, _ → _))

/-- A delivery keeps it so. -/
def KeepsOrder (c : NcclRingAllReduce) : Act → Prop
  | .deliver gpu channel step bytes _ =>
      InOrder c.ring
        (c.log ++ [.delivered (c.ring.ringNext channel gpu) channel step bytes.toNat])
        (c.ring.ringNext channel gpu) channel
  | _ => True

instance (c : NcclRingAllReduce) : (a : Act) → Decidable (c.KeepsOrder a)
  | .fire _ => .isTrue trivial
  | .deliver _ _ _ _ _ => inferInstanceAs (Decidable (InOrder _ _ _ _))
  | .receive _ _ => .isTrue trivial

end NcclRingAllReduce

/-- Every run of an initialized and started collective. -/
def ncclMachine (numGpus : UInt16) (dataSize : UInt64) (gpusPerNode numNodes numChannels : UInt32) :
    Machine NcclRingAllReduce NcclRingAllReduce.Act NcclAbort where
  init c := ∃ r, NcclRing.initialized numGpus dataSize gpusPerNode numNodes numChannels = .ok r ∧
    c = NcclRingAllReduce.start { ring := r }
  enabled := NcclRingAllReduce.enabled
  exec := NcclRingAllReduce.exec

instance (numGpus : UInt16) (dataSize : UInt64) (gpusPerNode numNodes numChannels : UInt32)
    (c : NcclRingAllReduce) (a : NcclRingAllReduce.Act) :
    Decidable ((ncclMachine numGpus dataSize gpusPerNode numNodes numChannels).enabled c a) :=
  inferInstanceAs (Decidable (c.enabled a))

/-- The chunk of a step that the predecessor of a rank sent has arrived there. -/
def Arrived (r : NcclRing) (log : List RingObs) (rank channel step : Nat) : Prop :=
  ∃ pred, r.Precedes channel pred rank ∧ (∀ p, r.Precedes channel p rank → p = pred) ∧
    r.chunkSizeOf channel pred step ≤ deliveredAt log rank channel step

/-- A rank sends its chunk of a step behind the arrival of the chunk of the step before. -/
def SendsBehindArrival (r : NcclRing) (log : List RingObs) : Prop :=
  Justified (fun pre e => ∀ gpu channel step, e = .sent gpu channel (step + 1) →
    Arrived r pre gpu channel step) log

/-- The callback is called when every rank has all chunks of all steps on all channels. -/
def CompletesBehindArrivals (r : NcclRing) (log : List RingObs) : Prop :=
  Justified (fun pre e => e = .completed → ∀ rank < r.numGpus, ∀ channel < r.numChannels,
    ∀ step < r.totalSteps, Arrived r pre rank channel step) log

/-! ## Bytes -/

variable {r : NcclRing} {c : NcclRingAllReduce} {log : List RingObs} {rank channel step : Nat}

theorem deliveredAt_append (log log' : List RingObs) (rank channel step : Nat) :
    deliveredAt (log ++ log') rank channel step =
      deliveredAt log rank channel step + deliveredAt log' rank channel step := by
  rw [deliveredAt, List.map_append, List.sum_append]
  rfl

theorem pooledAt_append (r : NcclRing) (log log' : List RingObs) (rank channel : Nat) :
    pooledAt r (log ++ log') rank channel =
      pooledAt r log rank channel + pooledAt r log' rank channel := by
  rw [pooledAt, List.map_append, List.sum_append]
  rfl

/-- Neither sends nor completions bring bytes. -/
def Silent (log : List RingObs) : Prop := ∀ e ∈ log, ∀ rk ch s bytes, e ≠ .delivered rk ch s bytes

variable {log' : List RingObs}

theorem Silent.deliveredAt (h : Silent log') (log : List RingObs) (rank channel step : Nat) :
    deliveredAt (log ++ log') rank channel step = deliveredAt log rank channel step := by
  rw [deliveredAt_append, Nat.add_eq_left]
  refine List.sum_eq_zero fun b hb => ?_
  obtain ⟨e, he, rfl⟩ := List.mem_map.mp hb
  cases e with
  | delivered rk ch s bytes => exact absurd rfl (h _ he rk ch s bytes)
  | sent _ _ _ => rfl
  | completed => rfl

theorem Silent.pooledAt (h : Silent log') (r : NcclRing) (log : List RingObs) (rank channel : Nat)
    : pooledAt r (log ++ log') rank channel = pooledAt r log rank channel := by
  rw [pooledAt_append, Nat.add_eq_left]
  refine List.sum_eq_zero fun b hb => ?_
  obtain ⟨e, he, rfl⟩ := List.mem_map.mp hb
  cases e with
  | delivered rk ch s bytes => exact absurd rfl (h _ he rk ch s bytes)
  | sent _ _ _ => rfl
  | completed => rfl

theorem silent_completed : Silent [.completed] := by
  intro e he rk ch s bytes heq
  rw [heq] at he
  simp at he

theorem silent_sent (gpu channel step : Nat) : Silent [.sent gpu channel step] := by
  intro e he rk ch s bytes heq
  rw [heq] at he
  simp at he

theorem deliveredAt_delivered (rk ch s bytes rank channel step : Nat) :
    deliveredAt [.delivered rk ch s bytes] rank channel step =
      if rk = rank ∧ ch = channel ∧ s = step then bytes else 0 := by
  simp [deliveredAt, RingObs.bytesAt]

theorem pooledAt_delivered (r : NcclRing) (rk ch s bytes rank channel : Nat) :
    pooledAt r [.delivered rk ch s bytes] rank channel =
      if rk = rank ∧ ch = channel ∧ NcclRing.flowIdBase ≤ r.flowIdOf ch s then bytes else 0 := by
  simp [pooledAt, RingObs.pooledAt]

theorem pooledAt_le (hsteps : ∀ rk ch s bytes, .delivered rk ch s bytes ∈ log → s < r.totalSteps) :
    pooledAt r log rank channel ≤
      ∑ step ∈ Finset.range r.totalSteps, deliveredAt log rank channel step := by
  induction log using List.reverseRecOn with
  | nil => exact Nat.zero_le _
  | append_singleton log e ih =>
      specialize ih fun rk ch s bytes hmem => hsteps rk ch s bytes (List.mem_append_left _ hmem)
      simp only [deliveredAt_append, Finset.sum_add_distrib, pooledAt_append]
      refine Nat.add_le_add ih ?_
      cases e with
      | sent _ _ _ => exact Nat.zero_le _
      | completed => exact Nat.zero_le _
      | delivered rk ch s bytes =>
          have hs := hsteps rk ch s bytes (List.mem_append_right _ List.mem_cons_self)
          have hterm : pooledAt r [.delivered rk ch s bytes] rank channel ≤
              deliveredAt [.delivered rk ch s bytes] rank channel s := by
            rw [pooledAt_delivered, deliveredAt_delivered]
            split <;> split <;> simp_all
          exact hterm.trans (Finset.single_le_sum
            (f := fun step => deliveredAt [.delivered rk ch s bytes] rank channel step)
            (fun _ _ => Nat.zero_le _) (Finset.mem_range.mpr hs))

theorem dueBytes_succ (r : NcclRing) (rank channel k : Nat) :
    dueBytes r rank channel (k + 1) =
      dueBytes r rank channel k + r.expectedRecvBytes rank channel k :=
  Finset.sum_range_succ _ k

theorem dueBytes_mono {k k' : Nat} (h : k ≤ k') :
    dueBytes r rank channel k ≤ dueBytes r rank channel k' :=
  Finset.sum_le_sum_of_subset (Finset.range_subset_range.mpr h)

theorem expected_le_delivered (hdue : dueBytes r rank channel r.totalSteps ≤ pooledAt r log rank channel)
    (hsteps : ∀ rk ch s bytes, .delivered rk ch s bytes ∈ log → s < r.totalSteps)
    (hcap : ∀ s, deliveredAt log rank channel s ≤ r.expectedRecvBytes rank channel s)
    (hstep : step < r.totalSteps) :
    r.expectedRecvBytes rank channel step ≤ deliveredAt log rank channel step := by
  have hsum : ∑ s ∈ Finset.range r.totalSteps, deliveredAt log rank channel s =
      ∑ s ∈ Finset.range r.totalSteps, r.expectedRecvBytes rank channel s :=
    le_antisymm (Finset.sum_le_sum fun s _ => hcap s) (hdue.trans (pooledAt_le hsteps))
  exact ((Finset.sum_eq_sum_iff_of_le fun s _ => hcap s).mp hsum step (Finset.mem_range.mpr hstep)).ge

theorem NcclRing.Lawful.arrived (h : r.Lawful) (hrank : rank < r.numGpus)
    (hbytes : r.expectedRecvBytes rank channel step ≤ deliveredAt log rank channel step) :
    Arrived r log rank channel step := by
  obtain ⟨pred, hpred⟩ := h.pred channel rank hrank
  refine ⟨pred, hpred, fun p hp => h.unique channel p pred rank hp hpred, ?_⟩
  rwa [← NcclRing.expectedRecvBytes_eq h hpred]

theorem NcclRing.Lawful.expected_pos (h : r.Lawful) (hzero : r.trivialZeroData = false) :
    0 < r.expectedRecvBytes rank channel step := by
  unfold NcclRing.expectedRecvBytes
  split
  · exact NcclRing.chunkSizeOf_pos h hzero
  · exact h.chunks hzero

/-! ## Books -/

namespace NcclRingAllReduce

variable {gpu rounds : Nat}

/-- The books of a collective on the ring `r`. What the completed steps took out of a pool and what
is left in it has come in. -/
structure Kept (r : NcclRing) (c : NcclRingAllReduce) : Prop where
  ring : c.ring = r
  scheduled : ∀ gpu channel step, .sendStepData gpu channel step ∈ c.scheduled →
    gpu < r.numGpus ∧ channel < r.numChannels ∧ step < r.totalSteps ∧
      ∀ k, step = k + 1 → k < c.completedStep (gpu, channel)
  sent : ∀ gpu channel step, .sent gpu channel step ∈ c.log →
    gpu < r.numGpus ∧ channel < r.numChannels ∧ step < r.totalSteps
  delivered : ∀ rank channel step bytes, .delivered rank channel step bytes ∈ c.log →
    step < r.totalSteps
  cap : ∀ rank channel step,
    deliveredAt c.log rank channel step ≤ r.expectedRecvBytes rank channel step
  pool : ∀ rank channel, c.recvBytes (rank, channel) +
    dueBytes r rank channel (c.completedStep (rank, channel)) ≤ pooledAt r c.log rank channel
  bound : ∀ rank channel, c.completedStep (rank, channel) ≤ r.totalSteps
  done : ∀ rank, c.doneChannels rank = ((Finset.range r.numChannels).filter fun channel =>
    c.completedStep (rank, channel) = r.totalSteps).card
  gpus : c.gpuDoneCount = ((Finset.range r.numGpus).filter fun rank =>
    c.doneChannels rank = r.numChannels).card
  completes : CompletesBehindArrivals r c.log

/-- A step of a rank on a channel is over. -/
theorem Kept.finishStep (h : Kept r c) (hr : r.Lawful) (hgpu : gpu < r.numGpus)
    (hchannel : channel < r.numChannels) (hcovered : c.Covered gpu channel) :
    Kept r (c.finishStep gpu channel) := by
  obtain ⟨hopen, hcovers⟩ := hcovered
  have hring := h.ring
  rw [hring] at hopen hcovers
  generalize hstep : c.completedStep (gpu, channel) = step at hopen hcovers
  have hself : update c.completedStep (gpu, channel) (step + 1) (gpu, channel) = step + 1 :=
    update_self _ _ _
  have hother : ∀ rk ch, (rk, ch) ≠ (gpu, channel) →
      update c.completedStep (gpu, channel) (step + 1) (rk, ch) = c.completedStep (rk, ch) :=
    fun rk ch hne => update_of_ne hne _ _
  have hgrow : ∀ rk ch, c.completedStep (rk, ch) ≤
      update c.completedStep (gpu, channel) (step + 1) (rk, ch) := by
    intro rk ch
    by_cases hsame : (rk, ch) = (gpu, channel)
    · rw [hsame, hself, hstep]
      omega
    · rw [hother rk ch hsame]
  have hpool : ∀ rk ch,
      update c.recvBytes (gpu, channel)
          (c.recvBytes (gpu, channel) - r.expectedRecvBytes gpu channel step) (rk, ch) +
        dueBytes r rk ch (update c.completedStep (gpu, channel) (step + 1) (rk, ch)) ≤
      pooledAt r c.log rk ch := by
    intro rk ch
    by_cases hsame : (rk, ch) = (gpu, channel)
    · have hbefore := h.pool gpu channel
      rw [hsame, update_self, hself, (Prod.mk.injEq _ _ _ _).mp hsame |>.1,
        (Prod.mk.injEq _ _ _ _).mp hsame |>.2, dueBytes_succ]
      rw [hstep] at hbefore
      omega
    · rw [update_of_ne hsame, hother rk ch hsame]
      exact h.pool rk ch
  have hbound : ∀ rk ch,
      update c.completedStep (gpu, channel) (step + 1) (rk, ch) ≤ r.totalSteps := by
    intro rk ch
    by_cases hsame : (rk, ch) = (gpu, channel)
    · rw [hsame, hself]
      omega
    · rw [hother rk ch hsame]
      exact h.bound rk ch
  have hscheduled : ∀ g ch s, .sendStepData g ch s ∈ c.scheduled →
      g < r.numGpus ∧ ch < r.numChannels ∧ s < r.totalSteps ∧
        ∀ k, s = k + 1 → k < update c.completedStep (gpu, channel) (step + 1) (g, ch) := by
    intro g ch s hmem
    obtain ⟨hg, hch, hs, hbehind⟩ := h.scheduled g ch s hmem
    exact ⟨hg, hch, hs, fun k hk => Nat.lt_of_lt_of_le (hbehind k hk) (hgrow g ch)⟩
  have hothers : ∀ rk, rk ≠ gpu →
      ((Finset.range r.numChannels).filter fun ch =>
        update c.completedStep (gpu, channel) (step + 1) (rk, ch) = r.totalSteps).card =
      c.doneChannels rk := by
    intro rk hrk
    rw [h.done rk]
    refine congrArg Finset.card (Finset.filter_congr fun ch _ => ?_)
    rw [hother rk ch fun heq => hrk (congrArg Prod.fst heq)]
  unfold NcclRingAllReduce.finishStep onStepReceiveComplete
  rw [hring, hstep]
  dsimp only
  split
  · rename_i hlast
    have hdrained : step + 1 = r.totalSteps := by omega
    have hdone : ∀ rk, update c.doneChannels gpu (c.doneChannels gpu + 1) rk =
        ((Finset.range r.numChannels).filter fun ch =>
          update c.completedStep (gpu, channel) (step + 1) (rk, ch) = r.totalSteps).card := by
      intro rk
      by_cases hrk : rk = gpu
      · rw [hrk, update_self, h.done gpu]
        refine (card_filter_insert hchannel ?_ ?_ ?_).symm
        · rw [hstep]
          omega
        · rw [hself, hdrained]
        · intro ch hch
          rw [hother gpu ch fun heq => hch (congrArg Prod.snd heq)]
      · rw [update_of_ne hrk, hothers rk hrk]
    have hcap : c.doneChannels gpu + 1 ≤ r.numChannels := by
      have hcard := hdone gpu
      rw [update_self] at hcard
      rw [hcard]
      exact (Finset.card_filter_le _ _).trans (Finset.card_range _).le
    split
    · rename_i hfull
      rw [update_self] at hfull
      have hgpus : c.gpuDoneCount + 1 = ((Finset.range r.numGpus).filter fun rk =>
          update c.doneChannels gpu (c.doneChannels gpu + 1) rk = r.numChannels).card := by
        rw [h.gpus]
        refine (card_filter_insert hgpu ?_ ?_ ?_).symm
        · omega
        · rw [update_self]
          omega
        · intro rk hrk
          rw [update_of_ne hrk]
      split
      · rename_i hall
        -- all ranks have completed all steps on all channels
        refine ⟨rfl, hscheduled, ?_, ?_, ?_, ?_, hbound, hdone, hgpus, ?_⟩
        · intro g ch s hmem
          refine h.sent g ch s ?_
          rcases List.mem_append.mp hmem with hold | hnew
          · exact hold
          · simp at hnew
        · intro rk ch s bytes hmem
          refine h.delivered rk ch s bytes ?_
          rcases List.mem_append.mp hmem with hold | hnew
          · exact hold
          · simp at hnew
        · intro rk ch s
          show deliveredAt (c.log ++ [.completed]) rk ch s ≤ _
          rw [silent_completed.deliveredAt]
          exact h.cap rk ch s
        · intro rk ch
          show _ ≤ pooledAt r (c.log ++ [.completed]) rk ch
          rw [silent_completed.pooledAt]
          exact hpool rk ch
        · refine h.completes.snoc fun _ rk hrk ch hch s hs => hr.arrived hrk ?_
          have hchannels := forall_of_card (hgpus ▸ hall) rk hrk
          rw [hdone] at hchannels
          have hsteps := forall_of_card hchannels.ge ch hch
          have hdue := hpool rk ch
          rw [hsteps] at hdue
          exact expected_le_delivered (Nat.le_of_add_left_le hdue) h.delivered (h.cap rk ch) hs
      · exact ⟨rfl, hscheduled, h.sent, h.delivered, h.cap, hpool, hbound, hdone, hgpus, h.completes⟩
    · rename_i hpart
      rw [update_self] at hpart
      have hgpus : c.gpuDoneCount = ((Finset.range r.numGpus).filter fun rk =>
          update c.doneChannels gpu (c.doneChannels gpu + 1) rk = r.numChannels).card := by
        rw [h.gpus]
        refine (card_filter_same (a := gpu) ?_ ?_ ?_).symm
        · omega
        · rw [update_self]
          omega
        · intro rk hrk
          rw [update_of_ne hrk]
      exact ⟨rfl, hscheduled, h.sent, h.delivered, h.cap, hpool, hbound, hdone, hgpus, h.completes⟩
  · rename_i hmore
    have hdone : ∀ rk, c.doneChannels rk = ((Finset.range r.numChannels).filter fun ch =>
        update c.completedStep (gpu, channel) (step + 1) (rk, ch) = r.totalSteps).card := by
      intro rk
      by_cases hrk : rk = gpu
      · rw [hrk, h.done gpu]
        refine (card_filter_same (a := channel) ?_ ?_ ?_).symm
        · rw [hstep]
          omega
        · rw [hself]
          omega
        · intro ch hch
          rw [hother gpu ch fun heq => hch (congrArg Prod.snd heq)]
      · exact (hothers rk hrk).symm
    refine ⟨rfl, ?_, h.sent, h.delivered, h.cap, hpool, hbound, hdone, h.gpus, h.completes⟩
    · intro g ch s hmem
      rcases List.mem_append.mp hmem with hold | hnew
      · exact hscheduled g ch s hold
      · simp only [List.mem_singleton, NcclEvent.sendStepData.injEq] at hnew
        obtain ⟨rfl, rfl, rfl⟩ := hnew
        refine ⟨hgpu, hchannel, by omega, fun k hk => ?_⟩
        show k < update c.completedStep (g, ch) (step + 1) (g, ch)
        rw [hself]
        omega

theorem Kept.drain (hr : r.Lawful) (hgpu : gpu < r.numGpus) (hchannel : channel < r.numChannels)
    (h : Kept r c) : Kept r (drain gpu channel rounds c) := by
  induction rounds generalizing c with
  | zero => exact h
  | succ rounds ih =>
      unfold NcclRingAllReduce.drain
      split
      · rename_i hcovered
        exact ih (h.finishStep hr hgpu hchannel hcovered)
      · exact h

theorem drain_log (gpu channel rounds : Nat) (c : NcclRingAllReduce) :
    ∃ k, (drain gpu channel rounds c).log = c.log ++ List.replicate k .completed := by
  induction rounds generalizing c with
  | zero => exact ⟨0, (List.append_nil _).symm⟩
  | succ rounds ih =>
      unfold drain
      split
      · obtain ⟨k, hk⟩ := ih (c.finishStep gpu channel)
        have hstep : (c.finishStep gpu channel).log = c.log ∨
            (c.finishStep gpu channel).log = c.log ++ [.completed] := by
          unfold finishStep onStepReceiveComplete
          dsimp only
          split_ifs
          · exact .inr rfl
          · exact .inl rfl
          · exact .inl rfl
          · exact .inl rfl
        rcases hstep with hsame | hdone
        · exact ⟨k, by rw [hk, hsame]⟩
        · exact ⟨k + 1, by rw [hk, hdone, List.append_assoc, List.replicate_succ, List.singleton_append]⟩
      · exact ⟨0, (List.append_nil _).symm⟩

variable {bytes i : Nat} {e : NcclEvent}

theorem Kept.book (h : Kept r c) (hr : r.Lawful) (recv : Nat × Nat → Nat)
    (hsent : .sent gpu channel step ∈ c.log)
    (hcap : deliveredAt c.log (r.ringNext channel gpu) channel step + bytes ≤
      r.chunkSizeOf channel gpu step) (hrecv : ∀ rk ch, recv (rk, ch) ≤ c.recvBytes (rk, ch) +
      pooledAt r [.delivered (r.ringNext channel gpu) channel step bytes] rk ch) :
    Kept r { c with
      recvBytes := recv
      log := c.log ++ [.delivered (r.ringNext channel gpu) channel step bytes] } := by
  obtain ⟨hgpu, -, hstep⟩ := h.sent gpu channel step hsent
  have hexpected : r.expectedRecvBytes (r.ringNext channel gpu) channel step =
      r.chunkSizeOf channel gpu step := NcclRing.expectedRecvBytes_eq hr ⟨hgpu, rfl⟩
  refine ⟨h.ring, h.scheduled, ?_, ?_, ?_, ?_, h.bound, h.done, h.gpus, ?_⟩
  · intro g ch s hmem
    refine h.sent g ch s ?_
    rcases List.mem_append.mp hmem with hold | hnew
    · exact hold
    · simp at hnew
  · intro rk ch s b hmem
    rcases List.mem_append.mp hmem with hold | hnew
    · exact h.delivered rk ch s b hold
    · simp only [List.mem_singleton, RingObs.delivered.injEq] at hnew
      rw [hnew.2.2.1]
      exact hstep
  -- cap
  · intro rk ch s
    show deliveredAt (c.log ++ [.delivered (r.ringNext channel gpu) channel step bytes]) rk ch s ≤ _
    rw [deliveredAt_append, deliveredAt_delivered]
    split
    · rename_i hsame
      obtain ⟨rfl, rfl, rfl⟩ := hsame
      rw [hexpected]
      exact hcap
    · exact h.cap rk ch s
  · intro rk ch
    have hpool := h.pool rk ch
    have hadd := hrecv rk ch
    show recv (rk, ch) + dueBytes r rk ch (c.completedStep (rk, ch)) ≤
      pooledAt r (c.log ++ [.delivered (r.ringNext channel gpu) channel step bytes]) rk ch
    rw [pooledAt_append]
    omega
  · exact h.completes.snoc fun he => by cases he

theorem onPacketReceived_fragment (h : Kept r c) (hr : r.Lawful) {bytes : UInt32}
    (packetSize : UInt32) (hsent : .sent gpu channel step ∈ c.log) (hbytes : bytes ≠ 0) :
    c.onPacketReceived (c.fragmentHeader gpu channel step bytes) packetSize =
      if r.flowIdOf channel step < NcclRing.flowIdBase then c
      else drain (r.ringNext channel gpu) channel
        (r.totalSteps - c.completedStep (r.ringNext channel gpu, channel))
        { c with
          recvBytes := update c.recvBytes (r.ringNext channel gpu, channel)
            (wadd 64 (c.recvBytes (r.ringNext channel gpu, channel)) bytes.toNat) } := by
  obtain ⟨hgpu, hchannel, hstep⟩ := h.sent gpu channel step hsent
  have hnext := hr.next channel gpu hgpu
  have hdest : (UInt16.ofNat (r.ringNext channel gpu)).toNat = r.ringNext channel gpu :=
    UInt16.toNat_ofNat_of_lt' (hnext.trans hr.ranks.2)
  have hflow : (UInt16.ofNat (r.flowIdOf channel step)).toNat = r.flowIdOf channel step :=
    UInt16.toNat_ofNat_of_lt' (Nat.mod_lt _ (by decide))
  have hring := h.ring
  unfold onPacketReceived fragmentHeader
  dsimp only
  rw [if_neg (by decide), if_neg (by decide), hring, hdest, hflow]
  by_cases hbase : r.flowIdOf channel step < NcclRing.flowIdBase
  · rw [if_pos (.inr hbase), if_pos hbase]
  · rw [if_neg (by rw [not_or]; exact ⟨not_le.mpr hnext, hbase⟩), if_neg hbase,
      hr.flows channel hchannel step hstep (not_lt.mp hbase), if_neg (not_le.mpr hchannel),
      if_neg hbytes]

theorem Kept.deliver (h : Kept r c) (hr : r.Lawful) {bytes : UInt32} (packetSize : UInt32)
    (hen : c.enabled (.deliver gpu channel step bytes packetSize)) :
    ∃ c', c.exec (.deliver gpu channel step bytes packetSize) = .ok c' ∧ Kept r c' ∧
      ∃ k, c'.log = c.log ++ [.delivered (r.ringNext channel gpu) channel step bytes.toNat] ++
        List.replicate k .completed := by
  have hring := h.ring
  subst hring
  obtain ⟨hsent, hbytes, hcap⟩ := hen
  obtain ⟨hgpu, hchannel, -⟩ := h.sent gpu channel step hsent
  have hlogged := h.book hr c.recvBytes hsent hcap fun rk ch => Nat.le_add_right _ _
  have hfragment := onPacketReceived_fragment hlogged hr packetSize (List.mem_append_left _ hsent) hbytes
  refine ⟨_, rfl, ?_⟩
  show Kept c.ring (onPacketReceived _ (c.fragmentHeader gpu channel step bytes) packetSize) ∧
    ∃ k, (onPacketReceived _ (c.fragmentHeader gpu channel step bytes) packetSize).log = _
  rw [show c.fragmentHeader gpu channel step bytes = fragmentHeader
    { c with log := c.log ++ [.delivered (c.ring.ringNext channel gpu) channel step bytes.toNat] }
    gpu channel step bytes from rfl, hfragment]
  split
  · exact ⟨hlogged, 0, (List.append_nil _).symm⟩
  · rename_i hbase
    refine ⟨Kept.drain hr (hr.next channel gpu hgpu) hchannel ?_, drain_log _ _ _ _⟩
    refine h.book hr _ hsent hcap fun rk ch => ?_
    rw [pooledAt_delivered]
    dsimp only
    by_cases hsame : (rk, ch) = (c.ring.ringNext channel gpu, channel)
    · have hrk := congrArg Prod.fst hsame
      have hch := congrArg Prod.snd hsame
      dsimp only at hrk hch
      rw [hsame, update_self, hrk, hch, if_pos ⟨rfl, rfl, not_lt.mp hbase⟩]
      exact Nat.mod_le _ _
    · rw [update_of_ne hsame]
      exact Nat.le_add_right _ _

theorem Kept.sendStepData (h : Kept r c) (hgpu : gpu < r.numGpus)
    (hchannel : channel < r.numChannels) (hstep : step < r.totalSteps) :
    Kept r (c.sendStepData gpu channel step) := by
  refine ⟨h.ring, h.scheduled, ?_, ?_, ?_, ?_, h.bound, h.done, h.gpus, ?_⟩
  · intro g ch s hmem
    rcases List.mem_append.mp hmem with hold | hnew
    · exact h.sent g ch s hold
    · simp only [List.mem_singleton, RingObs.sent.injEq] at hnew
      obtain ⟨rfl, rfl, rfl⟩ := hnew
      exact ⟨hgpu, hchannel, hstep⟩
  · intro rk ch s bytes hmem
    refine h.delivered rk ch s bytes ?_
    rcases List.mem_append.mp hmem with hold | hnew
    · exact hold
    · simp at hnew
  · intro rk ch s
    show deliveredAt (c.log ++ [.sent gpu channel step]) rk ch s ≤ _
    rw [(silent_sent gpu channel step).deliveredAt]
    exact h.cap rk ch s
  · intro rk ch
    show _ ≤ pooledAt r (c.log ++ [.sent gpu channel step]) rk ch
    rw [(silent_sent gpu channel step).pooledAt]
    exact h.pool rk ch
  · exact h.completes.snoc fun he => by cases he

theorem triggerInitialSends_induct {P : NcclRingAllReduce → Prop} (hring : ∀ c', P c' → c'.ring = r)
    (hsend : ∀ c', ∀ gpu < r.numGpus, ∀ channel < r.numChannels, P c' → P (c'.sendStepData gpu channel 0))
    (h : P c) : P c.triggerInitialSends := by
  unfold triggerInitialSends
  rw [hring c h]
  refine List.foldlRecOn _ _ h fun c' h' gpu hgpu => ?_
  rw [hring c' h']
  exact List.foldlRecOn _ _ h' fun c'' h'' channel hchannel =>
    hsend c'' gpu (List.mem_range.mp hgpu) channel (List.mem_range.mp hchannel) h''

theorem totalSteps_pos (hr : r.Lawful) : 0 < r.totalSteps := by
  have htwo := hr.ranks.1
  rw [hr.steps]
  omega

theorem Kept.erase (h : Kept r c) (i : Nat) : Kept r { c with scheduled := c.scheduled.eraseIdx i } :=
  ⟨h.ring, fun gpu channel step hmem => h.scheduled gpu channel step (List.mem_of_mem_eraseIdx hmem),
    h.sent, h.delivered, h.cap, h.pool, h.bound, h.done, h.gpus, h.completes⟩

theorem Kept.fire (h : Kept r c) (hr : r.Lawful) (he : c.scheduled[i]? = some e) :
    Kept r (run { c with scheduled := c.scheduled.eraseIdx i } e) := by
  cases e with
  | triggerInitialSends =>
      exact triggerInitialSends_induct (fun _ h' => h'.ring)
        (fun _ _ hgpu _ hchannel h' => h'.sendStepData hgpu hchannel (totalSteps_pos hr)) (h.erase i)
  | sendStepData gpu channel step =>
      obtain ⟨hgpu, hchannel, hstep, -⟩ := h.scheduled gpu channel step (List.mem_of_getElem? he)
      exact (h.erase i).sendStepData hgpu hchannel hstep

theorem onPacketReceived_other {h : Header} (hdata : h.packetType ≠ .data) (packetSize : UInt32) :
    c.onPacketReceived h packetSize = c ∨
      ∃ n, c.onPacketReceived h packetSize = { c with permanentLossCount := n } := by
  unfold onPacketReceived
  split
  · exact .inr ⟨_, rfl⟩
  · exact .inl rfl

theorem Kept.receive (h : Kept r c) {p : Header} (hdata : p.packetType ≠ .data) (packetSize : UInt32) :
    Kept r (c.onPacketReceived p packetSize) := by
  rcases onPacketReceived_other hdata packetSize with hsame | ⟨n, hlost⟩
  · rw [hsame]
    exact h
  · rw [hlost]
    exact ⟨h.ring, h.scheduled, h.sent, h.delivered, h.cap, h.pool, h.bound, h.done, h.gpus, h.completes⟩

/-! ## Order -/

/-- What has arrived is in order, and so were the sends. -/
structure Ordered (r : NcclRing) (log : List RingObs) : Prop where
  inOrder : ∀ rank channel, InOrder r log rank channel
  sends : SendsBehindArrival r log

theorem Kept.arrived (h : Kept r c) (hr : r.Lawful) (hrank : rank < r.numGpus)
    (hordered : InOrder r c.log rank channel) (hstep : step < c.completedStep (rank, channel)) :
    Arrived r c.log rank channel step := by
  refine hr.arrived hrank ?_
  by_contra hmissing
  have hbound := h.bound rank channel
  have hpooled := hordered step (by omega) (not_le.mp hmissing)
  have hdue : dueBytes r rank channel (step + 1) ≤
      dueBytes r rank channel (c.completedStep (rank, channel)) := dueBytes_mono hstep
  have hpool := h.pool rank channel
  omega

theorem InOrder.silent {log' : List RingObs} (h : InOrder r log rank channel) (hsilent : Silent log') :
    InOrder r (log ++ log') rank channel := by
  intro step hstep hmissing
  rw [hsilent.deliveredAt] at hmissing
  rw [hsilent.pooledAt]
  exact h step hstep hmissing

theorem Ordered.sent (h : Ordered r log)
    (harrived : ∀ k, step = k + 1 → Arrived r log gpu channel k) :
    Ordered r (log ++ [.sent gpu channel step]) := by
  refine ⟨fun rk ch => (h.inOrder rk ch).silent (silent_sent gpu channel step),
    h.sends.snoc fun g ch k heq => ?_⟩
  rw [RingObs.sent.injEq] at heq
  obtain ⟨rfl, rfl, hstep⟩ := heq
  exact harrived k hstep

theorem Ordered.completed (h : Ordered r log) (k : Nat) :
    Ordered r (log ++ List.replicate k .completed) := by
  induction k with
  | zero =>
      rw [List.replicate_zero, List.append_nil]
      exact h
  | succ k ih =>
      rw [List.replicate_succ', ← List.append_assoc]
      exact ⟨fun rk ch => (ih.inOrder rk ch).silent silent_completed,
        ih.sends.snoc fun _ _ _ heq => by cases heq⟩

theorem Ordered.delivered (h : Ordered r log)
    (hkeeps : InOrder r (log ++ [.delivered rank channel step bytes]) rank channel) :
    Ordered r (log ++ [.delivered rank channel step bytes]) := by
  refine ⟨fun rk ch => ?_, h.sends.snoc fun _ _ _ heq => by cases heq⟩
  by_cases hsame : rank = rk ∧ channel = ch
  · obtain ⟨rfl, rfl⟩ := hsame
    exact hkeeps
  · intro s hs hmissing
    rw [deliveredAt_append, deliveredAt_delivered, if_neg fun hall => hsame ⟨hall.1, hall.2.1⟩,
      Nat.add_zero] at hmissing
    rw [pooledAt_append, pooledAt_delivered, if_neg fun hall => hsame ⟨hall.1, hall.2.1⟩, Nat.add_zero]
    exact h.inOrder rk ch s hs hmissing

theorem Ordered.fire (h : Ordered r c.log) (hr : r.Lawful) (hkept : Kept r c)
    (he : c.scheduled[i]? = some e) :
    Ordered r (run { c with scheduled := c.scheduled.eraseIdx i } e).log := by
  cases e with
  | triggerInitialSends =>
      have hstart : { c with scheduled := c.scheduled.eraseIdx i }.ring = r ∧
          Ordered r { c with scheduled := c.scheduled.eraseIdx i }.log := ⟨hkept.ring, h⟩
      refine (triggerInitialSends_induct (P := fun c' => c'.ring = r ∧ Ordered r c'.log)
        (fun _ h' => h'.1) (fun c' gpu _ channel _ h' => ?_) hstart).2
      exact ⟨h'.1, h'.2.sent fun k hk => by omega⟩
  | sendStepData gpu channel step =>
      obtain ⟨hgpu, -, -, hbehind⟩ := hkept.scheduled gpu channel step (List.mem_of_getElem? he)
      exact h.sent fun k hk => hkept.arrived hr hgpu (h.inOrder gpu channel) (hbehind k hk)

/-! ## Runs -/

variable {numGpus : UInt16} {dataSize : UInt64} {gpusPerNode numNodes numChannels : UInt32}

/-- A collective without a ring, or without data, is over at once. -/
structure Over (c : NcclRingAllReduce) : Prop where
  scheduled : c.scheduled = []
  log : c.log = [.completed]
  nothing : ∀ rank < c.ring.numGpus, ∀ channel < c.ring.numChannels, ∀ step < c.ring.totalSteps,
    Arrived c.ring [] rank channel step

/-- The books of a collective with something to do. -/
structure Going (c : NcclRingAllReduce) : Prop where
  lawful : c.ring.Lawful
  data : c.ring.trivialZeroData = false
  kept : Kept c.ring c

theorem kept_start (hr : r.Lawful) (scheduled : List NcclEvent)
    (hstart : ∀ e ∈ scheduled, e = .triggerInitialSends) :
    Kept r { ring := r, running := true, scheduled } := by
  have hsteps := totalSteps_pos hr
  refine ⟨rfl, ?_, (fun _ _ _ hmem => nomatch hmem), (fun _ _ _ _ hmem => nomatch hmem),
    fun _ _ _ => Nat.zero_le _, ?_, fun _ _ => Nat.zero_le _, ?_, ?_, .nil⟩
  · intro gpu channel step hmem
    cases hstart _ hmem
  · intro rank channel
    exact Nat.zero_le _
  · intro rank
    refine (Finset.card_eq_zero.mpr (Finset.filter_eq_empty_iff.mpr fun channel _ => ?_)).symm
    exact hsteps.ne
  · refine (Finset.card_eq_zero.mpr (Finset.filter_eq_empty_iff.mpr fun rank _ => ?_)).symm
    exact hr.channels.ne

theorem start_cases (h : NcclRing.initialized numGpus dataSize gpusPerNode numNodes numChannels = .ok r) :
    Over (start { ring := r }) ∨ Going (start { ring := r }) ∧ (start { ring := r }).log = [] := by
  unfold start
  dsimp only
  cases hsingle : r.trivialSingleRank with
  | true =>
      -- there are no steps
      have hsteps : r.totalSteps = 0 := by
        unfold NcclRing.initialized at h
        dsimp only at h
        split at h
        · cases h
          rfl
        · split at h
          · cases h
          · split at h
            · cases h
            · cases h
              cases hsingle
      left
      split
      · exact ⟨rfl, rfl, fun _ _ _ _ step hstep => absurd (hsteps ▸ hstep) (Nat.not_lt_zero step)⟩
      · exact ⟨rfl, rfl, fun _ _ _ _ step hstep => absurd (hsteps ▸ hstep) (Nat.not_lt_zero step)⟩
  | false =>
      have hr := NcclRing.lawful_of_initialized h hsingle
      cases hzero : r.trivialZeroData with
      | true =>
          left
          refine ⟨rfl, rfl, fun rank hrank channel _ step _ => ?_⟩
          obtain ⟨pred, hpred⟩ := hr.pred channel rank hrank
          refine ⟨pred, hpred, fun p hp => hr.unique channel p pred rank hp hpred, ?_⟩
          exact (NcclRing.chunkSizeOf_zero hr hzero).le
      | false =>
          right
          exact ⟨⟨hr, hzero, kept_start hr _ fun e he => by simpa using he⟩, rfl⟩

variable {a : Act} {c' : NcclRingAllReduce}

theorem Over.exec (h : Over c) (hen : c.enabled a) (hex : c.exec a = .ok c')
    : Over c' ∧ c'.ring = c.ring := by
  cases a with
  | fire i =>
      have hlt : i < c.scheduled.length := hen
      rw [h.scheduled] at hlt
      exact absurd hlt (Nat.not_lt_zero _)
  | deliver gpu channel step bytes packetSize =>
      have hsent := hen.1
      rw [h.log] at hsent
      simp at hsent
  | receive p packetSize =>
      cases hex
      rcases onPacketReceived_other (c := c) hen packetSize with hsame | ⟨n, hlost⟩
      · rw [hsame]
        exact ⟨h, rfl⟩
      · rw [hlost]
        exact ⟨⟨h.scheduled, h.log, h.nothing⟩, rfl⟩

theorem Kept.exec (h : Kept r c) (hr : r.Lawful) (hen : c.enabled a) (hex : c.exec a = .ok c')
    : Kept r c' := by
  cases a with
  | fire i =>
      unfold NcclRingAllReduce.exec at hex
      dsimp only at hex
      split at hex
      · rename_i e he
        cases hex
        exact h.fire hr he
      · cases hex
        exact h
  | deliver gpu channel step bytes packetSize =>
      obtain ⟨c'', hex', hkept, -⟩ := h.deliver hr packetSize hen
      cases hex.symm.trans hex'
      exact hkept
  | receive p packetSize =>
      cases hex
      exact h.receive hen packetSize

theorem Ordered.exec (h : Ordered r c.log) (hr : r.Lawful) (hkept : Kept r c) (hen : c.enabled a)
    (horder : c.KeepsOrder a) (hex : c.exec a = .ok c') : Ordered r c'.log := by
  cases a with
  | fire i =>
      unfold NcclRingAllReduce.exec at hex
      dsimp only at hex
      split at hex
      · rename_i e he
        cases hex
        exact h.fire hr hkept he
      · cases hex
        exact h
  | deliver gpu channel step bytes packetSize =>
      obtain ⟨c'', hex', -, k, hlog⟩ := hkept.deliver hr packetSize hen
      cases hex.symm.trans hex'
      have hinOrder : InOrder c.ring _ _ _ := horder
      rw [hkept.ring] at hinOrder
      rw [hlog]
      exact (h.delivered hinOrder).completed k
  | receive p packetSize =>
      cases hex
      rcases onPacketReceived_other (c := c) hen packetSize with hsame | ⟨n, hlost⟩
      · rw [hsame]
        exact h
      · rw [hlost]
        exact h

theorem ring_exec (h : Going c) (hen : c.enabled a) (hex : c.exec a = .ok c')
    : Going c' ∧ c'.ring = c.ring := by
  have hkept := h.kept.exec h.lawful hen hex
  have hring := hkept.ring
  refine ⟨⟨?_, ?_, ?_⟩, hring⟩
  · rw [hring]
    exact h.lawful
  · rw [hring]
    exact h.data
  · rw [hring]
    exact hkept

theorem over_or_going :
    (ncclMachine numGpus dataSize gpusPerNode numNodes numChannels).Invariant
      fun c => Over c ∨ Going c := by
  refine Machine.Inductive.invariant ⟨?_, ?_⟩
  · rintro c ⟨r, hr, rfl⟩
    rcases start_cases hr with hover | ⟨hgoing, -⟩
    · exact .inl hover
    · exact .inr hgoing
  · intro c a c' h hen hex
    rcases h with hover | hgoing
    · exact .inl (hover.exec hen hex).1
    · exact .inr (ring_exec hgoing hen hex).1

theorem ordered_nil (hr : r.Lawful) (hzero : r.trivialZeroData = false) : Ordered r [] := by
  refine ⟨fun rank channel step _ _ => ?_, .nil⟩
  rw [dueBytes_succ]
  exact Nat.add_pos_right _ (hr.expected_pos hzero)

theorem ordered_invariant :
    ((ncclMachine numGpus dataSize gpusPerNode numNodes numChannels).restrict KeepsOrder).Invariant
      fun c => Over c ∨ Going c ∧ Ordered c.ring c.log := by
  refine Machine.Inductive.invariant ⟨?_, ?_⟩
  · rintro c ⟨r, hr, rfl⟩
    rcases start_cases hr with hover | ⟨hgoing, hlog⟩
    · exact .inl hover
    · refine .inr ⟨hgoing, ?_⟩
      rw [hlog]
      exact ordered_nil hgoing.lawful hgoing.data
  · intro c a c' h hen hex
    rcases h with hover | ⟨hgoing, hordered⟩
    · exact .inl (hover.exec hen.1 hex).1
    · obtain ⟨hgoing', hring⟩ := ring_exec hgoing hen.1 hex
      refine .inr ⟨hgoing', ?_⟩
      rw [hring]
      exact hordered.exec hgoing.lawful hgoing.kept hen.1 hen.2 hex

end NcclRingAllReduce

open NcclRingAllReduce in
/-- The ring is done only when all chunks are everywhere, and forwards a chunk only when it has the
one before where the chunks do not make up for one another. -/
theorem ncclRing_forwards (numGpus : UInt16) (dataSize : UInt64)
    (gpusPerNode numNodes numChannels : UInt32) :
    (ncclMachine numGpus dataSize gpusPerNode numNodes numChannels).Invariant
        (fun c => CompletesBehindArrivals c.ring c.log) ∧
      ((ncclMachine numGpus dataSize gpusPerNode numNodes numChannels).restrict KeepsOrder).Invariant
        (fun c => SendsBehindArrival c.ring c.log) := by
  refine ⟨?_, ?_⟩
  · intro c hreach
    rcases over_or_going c hreach with hover | hgoing
    · show CompletesBehindArrivals c.ring c.log
      rw [hover.log]
      exact Justified.nil.snoc fun _ => hover.nothing
    · exact hgoing.kept.completes
  · intro c hreach
    rcases ordered_invariant c hreach with hover | ⟨-, hordered⟩
    · show SendsBehindArrival c.ring c.log
      rw [hover.log]
      exact Justified.nil.snoc fun _ _ _ heq => nomatch heq
    · exact hordered.sends

section Runs

variable {M : Machine NcclRingAllReduce NcclRingAllReduce.Act NcclAbort}
  [∀ c a, Decidable (M.enabled c a)] {numGpus : UInt16} {dataSize : UInt64}
  {gpusPerNode numNodes numChannels : UInt32} {log : List RingObs}

theorem reachable_of_log (acts : List NcclRingAllReduce.Act)
    (logged : ((NcclRing.initialized numGpus dataSize gpusPerNode numNodes
      numChannels).toOption.bind fun r =>
        (M.runs (NcclRingAllReduce.start { ring := r }) acts).map fun c => c.log) = some log)
    (starts : ∀ c, (ncclMachine numGpus dataSize gpusPerNode numNodes numChannels).init c →
      M.init c) :
    ∃ c, M.Reachable c ∧ c.log = log := by
  cases built : NcclRing.initialized numGpus dataSize gpusPerNode numNodes numChannels with
  | error abort =>
      rw [built] at logged
      cases logged
  | ok r =>
      rw [built] at logged
      exact Machine.Reachable.exists_of_runs (starts _ ⟨r, built, rfl⟩) logged

end Runs

/-- A byte of the second chunk of rank 0 overtakes its first one, which makes up for it. -/
def orderedRun : List NcclRingAllReduce.Act :=
  [.fire 0, .deliver 1 0 0 2 2, .fire 0, .deliver 0 0 1 1 1, .deliver 0 0 0 2 2, .fire 0,
    .deliver 0 0 1 1 1, .deliver 1 0 1 2 2]

/-- Both ranks send on behind what they wait for, and the ring is done. -/
def orderedLog : List RingObs :=
  [.sent 0 0 0, .sent 1 0 0, .delivered 0 0 0 2, .sent 0 0 1, .delivered 1 0 1 1,
    .delivered 1 0 0 2, .sent 1 0 1, .delivered 1 0 1 1, .delivered 0 0 1 2, .completed]

theorem ncclRing_forwards_orderedRun :
    ∃ c, ((ncclMachine 2 4 2 1 1).restrict NcclRingAllReduce.KeepsOrder).Reachable c ∧
      c.log = orderedLog ∧
      CompletesBehindArrivals c.ring c.log ∧ SendsBehindArrival c.ring c.log := by
  have logged : ((NcclRing.initialized 2 4 2 1 1).toOption.bind fun r =>
      (((ncclMachine 2 4 2 1 1).restrict NcclRingAllReduce.KeepsOrder).runs
        (NcclRingAllReduce.start { ring := r }) orderedRun).map fun c => c.log) =
      some orderedLog := by
    decide +kernel
  obtain ⟨c, reach, log⟩ := reachable_of_log orderedRun logged fun _ init => init
  have forwards := ncclRing_forwards 2 4 2 1 1
  exact ⟨c, reach, log, forwards.1 c reach.of_restrict, forwards.2 c reach⟩

/-- Rank 0 has the chunk of rank 1 and sends on; its second chunk overtakes its first one. -/
def overtakenRun : List NcclRingAllReduce.Act :=
  [.fire 0, .deliver 1 0 0 1 1, .fire 0, .deliver 0 0 1 1 1, .fire 0]

/-- Rank 1 sends on without a byte of the chunk it waits for. -/
theorem sendsAhead_overtakenRun :
    ¬ ∀ (numGpus : UInt16) (dataSize : UInt64) (gpusPerNode numNodes numChannels : UInt32),
      (ncclMachine numGpus dataSize gpusPerNode numNodes numChannels).Invariant fun c =>
        SendsBehindArrival c.ring c.log := by
  intro hall
  have hlogged : ((NcclRing.initialized 2 2 2 1 1).toOption.bind fun r =>
      ((ncclMachine 2 2 2 1 1).runs (NcclRingAllReduce.start { ring := r }) overtakenRun).map
        fun c => c.log) =
      some [.sent 0 0 0, .sent 1 0 0, .delivered 0 0 0 1, .sent 0 0 1, .delivered 1 0 1 1,
        .sent 1 0 1] := by
    decide +kernel
  obtain ⟨c, hreach, hlog⟩ := reachable_of_log overtakenRun hlogged fun _ hinit => hinit
  have hsends : SendsBehindArrival c.ring c.log := hall 2 2 2 1 1 c hreach
  rw [SendsBehindArrival, hlog] at hsends
  obtain ⟨pred, -, -, hbytes⟩ := hsends [.sent 0 0 0, .sent 1 0 0, .delivered 0 0 0 1, .sent 0 0 1,
    .delivered 1 0 1 1] (.sent 1 0 1) [] rfl 1 0 0 rfl
  rcases NcclRingAllReduce.over_or_going c hreach with hover | hgoing
  · rw [hover.log] at hlog
    cases hlog
  · exact absurd (NcclRing.chunkSizeOf_pos hgoing.lawful hgoing.data) (not_lt.mpr hbytes)

end ProtoBridge.Collective
