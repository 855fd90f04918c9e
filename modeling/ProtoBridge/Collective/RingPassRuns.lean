import ProtoBridge.Collective.RingPass
import ProtoBridge.Collective.Service
import ProtoBridge.Lib.Count

/-!
# Runs of RingAllGather and RingReduceScatter

A rank sends its segment of the next step when it has the bytes of the step before. The bytes of each
step have a ledger of their own, so that what comes early waits there. What the ranks hold at the end
is read off the log of a run: a send takes along what the sender holds of its segment then, and the
receiver puts it to its own when it finishes the step.
-/

namespace ProtoBridge.Collective

open Lib Fabric
open Function (update update_of_ne update_self)

/-- A scheduled event. -/
inductive RingPassEvent
  | triggerInitialSends
  | sendGpuStepData (gpu step : Nat)
  deriving DecidableEq

/-- What happened: a rank sent its segment of a step, bytes of the segment of a step arrived at a
rank, a rank had all bytes of a step and of those before, the completion callback was called. -/
inductive RingPassObs
  | sent (gpu step : Nat)
  | delivered (rank step bytes : Nat)
  | finished (rank step : Nat)
  | completed
  deriving DecidableEq

/-- The members that change, all endpoints present. The table has a rank and a step for its index. -/
structure RingPassRun where
  ring : RingPass
  completed : Bool := false
  gpuCompletedStep : Nat → Nat := fun _ => 0
  gpuReceivedBytesByStep : Nat × Nat → Nat := fun _ => 0
  gpuDoneCount : Nat := 0
  sentDataBytes : Nat := 0
  scheduled : List RingPassEvent := []
  log : List RingPassObs := []

namespace RingPassRun

/-- The flow id of step 0. -/
def flowIdBase : Nat := 1

/-- `Complete`. -/
def complete (c : RingPassRun) : RingPassRun :=
  { c with completed := true, log := c.log ++ [.completed] }

/-- `Start`. -/
def start (c : RingPassRun) : RingPassRun :=
  if c.ring.dataSize = 0 then c.complete
  else if c.ring.numGpus ≤ 1 then c.complete
  else { c with scheduled := c.scheduled ++ [.triggerInitialSends] }

/-- `SendGpuStepData`. -/
def sendGpuStepData (c : RingPassRun) (gpu step : Nat) : RingPassRun :=
  { c with
    sentDataBytes := wadd 64 c.sentDataBytes (c.ring.segmentSizeOf gpu step)
    log := c.log ++ [.sent gpu step] }

/-- `TriggerInitialSends`. -/
def triggerInitialSends (c : RingPassRun) : RingPassRun :=
  (List.range c.ring.numGpus).foldl (fun c gpu => c.sendGpuStepData gpu 0) c

/-- `OnGpuStepReceiveComplete` and `CheckGlobalCompletion`. -/
def onGpuStepReceiveComplete (c : RingPassRun) (gpu step : Nat) : RingPassRun :=
  if c.gpuCompletedStep gpu ≥ c.ring.totalSteps then
    let c := { c with gpuDoneCount := c.gpuDoneCount + 1 }
    if c.gpuDoneCount ≥ c.ring.numGpus then c.complete else c
  else { c with scheduled := c.scheduled ++ [.sendGpuStepData gpu (step + 1)] }

/-- The ledger of the open step of a rank has all its bytes. -/
def Covered (c : RingPassRun) (gpu : Nat) : Prop :=
  c.gpuCompletedStep gpu < c.ring.totalSteps ∧
    c.gpuReceivedBytesByStep (gpu, c.gpuCompletedStep gpu) ≥
      c.ring.stepExpectedBytes gpu (c.gpuCompletedStep gpu)

instance (c : RingPassRun) (gpu : Nat) : Decidable (c.Covered gpu) :=
  inferInstanceAs (Decidable (_ ∧ _))

/-- One round of the loop of `OnPacketReceived`. -/
def finishStep (c : RingPassRun) (gpu : Nat) : RingPassRun :=
  let step := c.gpuCompletedStep gpu
  onGpuStepReceiveComplete
    { c with
      gpuReceivedBytesByStep := update c.gpuReceivedBytesByStep (gpu, step)
        (c.gpuReceivedBytesByStep (gpu, step) - c.ring.stepExpectedBytes gpu step)
      gpuCompletedStep := update c.gpuCompletedStep gpu (step + 1)
      log := c.log ++ [.finished gpu step] }
    gpu step

/-- The loop of `OnPacketReceived`; every round completes a step. -/
def drain (gpu : Nat) : Nat → RingPassRun → RingPassRun
  | 0, c => c
  | rounds + 1, c => if c.Covered gpu then drain gpu rounds (c.finishStep gpu) else c

/-- `OnPacketReceived`. -/
def onPacketReceived (c : RingPassRun) (h : Header) (packetSize : UInt32) : RingPassRun :=
  if h.packetType ≠ .data then c
  else
    let destRank := h.destRank.toNat
    if destRank ≥ c.ring.numGpus ∨ h.flowId.toNat < flowIdBase then c
    else
      let packetStep := h.flowId.toNat - flowIdBase
      if packetStep ≥ c.ring.totalSteps then c
      else
        let effectiveSize := if h.effectiveDataSize = 0 then packetSize else h.effectiveDataSize
        let c := { c with
          gpuReceivedBytesByStep := update c.gpuReceivedBytesByStep (destRank, packetStep)
            (wadd 64 (c.gpuReceivedBytesByStep (destRank, packetStep)) effectiveSize.toNat) }
        drain destRank (c.ring.totalSteps - c.gpuCompletedStep destRank) c

/-- The header of a fragment of the segment that a rank sends at a step. -/
def fragmentHeader (c : RingPassRun) (gpu step : Nat) (bytes : UInt32) : Header where
  packetType := .data
  sourceRank := UInt16.ofNat gpu
  destRank := UInt16.ofNat (c.ring.target gpu)
  flowId := UInt16.ofNat (flowIdBase + step)
  effectiveDataSize := bytes

/-- What happens to a started collective. -/
inductive Act
  | fire (i : Nat)
  | deliver (gpu step : Nat) (bytes packetSize : UInt32)
  | receive (h : Header) (packetSize : UInt32)

/-- A scheduled event runs. -/
def run (c : RingPassRun) : RingPassEvent → RingPassRun
  | .triggerInitialSends => c.triggerInitialSends
  | .sendGpuStepData gpu step => c.sendGpuStepData gpu step

/-- One of these. -/
def exec (c : RingPassRun) : Act → Except RingAbort RingPassRun
  | .fire i =>
      match c.scheduled[i]? with
      | some e => .ok (run { c with scheduled := c.scheduled.eraseIdx i } e)
      | none => .ok c
  | .deliver gpu step bytes packetSize =>
      .ok (onPacketReceived
        { c with log := c.log ++ [.delivered (c.ring.target gpu) step bytes.toNat] }
        (c.fragmentHeader gpu step bytes) packetSize)
  | .receive h packetSize => .ok (c.onPacketReceived h packetSize)

end RingPassRun

namespace RingPassObs

/-- The bytes of a step that an event brings a rank. -/
def bytesAt (rank step : Nat) : RingPassObs → Nat
  | .delivered r s bytes => if r = rank ∧ s = step then bytes else 0
  | _ => 0

/-- The step that a rank finishes. -/
def finishedAt (rank : Nat) : RingPassObs → Option Nat
  | .finished r step => if r = rank then some step else none
  | _ => none

/-- The bytes that an event sends. -/
def bytesOf (r : RingPass) : RingPassObs → Nat
  | .sent gpu step => r.segmentSizeOf gpu step
  | _ => 0

end RingPassObs

namespace RingPassRun

/-- The bytes of a step that have arrived at a rank. -/
def deliveredAt (log : List RingPassObs) (rank step : Nat) : Nat :=
  (log.map (RingPassObs.bytesAt rank step)).sum

/-- The bytes that were sent. -/
def bytesSent (r : RingPass) (log : List RingPassObs) : Nat :=
  (log.map (RingPassObs.bytesOf r)).sum

/-- A fragment arrives behind the send of its segment, and each byte arrives once. Other packets are
none of data. -/
def enabled (c : RingPassRun) : Act → Prop
  | .fire i => i < c.scheduled.length
  | .deliver gpu step bytes _ => .sent gpu step ∈ c.log ∧ bytes ≠ 0 ∧
      deliveredAt c.log (c.ring.target gpu) step + bytes.toNat ≤ c.ring.segmentSizeOf gpu step
  | .receive h _ => h.packetType ≠ .data

instance (c : RingPassRun) : (a : Act) → Decidable (c.enabled a)
  | .fire i => inferInstanceAs (Decidable (i < c.scheduled.length))
  | .deliver _ _ _ _ => inferInstanceAs (Decidable (_ ∧ _ ∧ _))
  | .receive h _ => inferInstanceAs (Decidable (h.packetType ≠ .data))

/-- Nothing is scheduled, and all bytes of the segments that were sent have arrived. -/
def Quiet (c : RingPassRun) : Prop :=
  c.scheduled = [] ∧ ∀ gpu step, .sent gpu step ∈ c.log →
    deliveredAt c.log (c.ring.target gpu) step = c.ring.segmentSizeOf gpu step

end RingPassRun

/-- Every run of an initialized and started collective. -/
def ringPassMachine (gathers : Bool) (numGpus : UInt16) (dataSize : UInt64) (next prev : Nat → Nat) :
    Machine RingPassRun RingPassRun.Act RingAbort where
  init c := ∃ r, RingPass.initialized gathers numGpus dataSize next prev = .ok r ∧
    c = RingPassRun.start { ring := r }
  enabled := RingPassRun.enabled
  exec := RingPassRun.exec

instance (gathers : Bool) (numGpus : UInt16) (dataSize : UInt64) (next prev : Nat → Nat)
    (c : RingPassRun) (a : RingPassRun.Act) :
    Decidable ((ringPassMachine gathers numGpus dataSize next prev).enabled c a) :=
  inferInstanceAs (Decidable (c.enabled a))

/-! ## Data -/

/-- What the ranks hold of the segments, and what the sends took along. -/
structure Holdings (M : Type*) where
  held : Nat → Nat → M
  carried : Nat → Nat → M

section Data

variable {M : Type*} [AddCommMonoid M]

/-- What an event makes of the data. -/
def Holdings.observe (r : RingPass) (d : Holdings M) : RingPassObs → Holdings M
  | .sent gpu step =>
      { d with
        carried := fun g s =>
          if g = gpu ∧ s = step then d.held gpu (r.segmentOf gpu step) else d.carried g s }
  | .finished rank step =>
      match r.senderTo rank with
      | none => d
      | some gpu =>
          { d with
            held := fun k segment =>
              if k = rank ∧ r.segmentOf gpu step = segment then
                r.combine (d.held k segment) (d.carried gpu step)
              else d.held k segment }
  | _ => d

/-- The data behind a log, from what the ranks own. -/
def holdings (r : RingPass) (own : Nat → Nat → M) (log : List RingPassObs) : Holdings M :=
  log.foldl (Holdings.observe r) { held := own, carried := fun _ _ => 0 }

end Data

namespace RingPassRun

/-! ## Observations of a log -/

variable {r : RingPass} {c : RingPassRun} {log : List RingPassObs} {gpu rank step : Nat}

theorem deliveredAt_append (log log' : List RingPassObs) (rank step : Nat) :
    deliveredAt (log ++ log') rank step = deliveredAt log rank step + deliveredAt log' rank step := by
  rw [deliveredAt, List.map_append, List.sum_append]
  rfl

theorem bytesSent_append (r : RingPass) (log log' : List RingPassObs) :
    bytesSent r (log ++ log') = bytesSent r log + bytesSent r log' := by
  rw [bytesSent, List.map_append, List.sum_append]
  rfl

@[simp] theorem deliveredAt_sent (g s : Nat) : deliveredAt [.sent g s] rank step = 0 := rfl

theorem deliveredAt_delivered (k s bytes : Nat) :
    deliveredAt [.delivered k s bytes] rank step = if k = rank ∧ s = step then bytes else 0 := by
  simp [deliveredAt, RingPassObs.bytesAt]

theorem deliveredAt_snoc {e : RingPassObs} (h : ∀ k s, deliveredAt [e] k s = 0) (rank step : Nat) :
    deliveredAt (log ++ [e]) rank step = deliveredAt log rank step := by
  rw [deliveredAt_append, h rank step, Nat.add_zero]

/-! ## Books -/

/-- The layout is one of a ring, with segments that are not empty and fit a word. -/
structure Lawful (r : RingPass) : Prop where
  placed : r.Placed
  two : 2 ≤ r.numGpus
  few : r.numGpus ≤ 65535
  bounds : ∀ segment, 0 < r.segmentBytes segment ∧ r.segmentBytes segment < 2 ^ 64
  sizes : ∑ segment ∈ Finset.range r.numGpus, r.segmentBytes segment = r.dataSize
  data : r.dataSize ≠ 0

/-- A rank sends its segment of a step behind all bytes of the steps before. -/
def SendsBehindArrivals (r : RingPass) (log : List RingPassObs) : Prop :=
  Justified (fun pre e => ∀ gpu step, e = .sent gpu step → ∀ s < step,
    deliveredAt pre gpu s = r.stepExpectedBytes gpu s) log

/-- The callback is called behind all bytes of all steps. -/
def CompletesBehindArrivals (r : RingPass) (log : List RingPassObs) : Prop :=
  Justified (fun pre e => e = .completed → ∀ rank < r.numGpus, ∀ step < r.totalSteps,
    deliveredAt pre rank step = r.stepExpectedBytes rank step) log

/-- The books of a collective on the ring `r` behind the first sends. A rank that is at a step has
sent its segments up to this step or will; the steps before have all their bytes; the ledgers of the
others have what has arrived. -/
structure Kept (r : RingPass) (c : RingPassRun) : Prop where
  ring : c.ring = r
  initial : .triggerInitialSends ∉ c.scheduled
  sends : ∀ gpu step, c.log.count (.sent gpu step) + c.scheduled.count (.sendGpuStepData gpu step) =
    if gpu < r.numGpus ∧ step ≤ c.gpuCompletedStep gpu ∧ step < r.totalSteps then 1 else 0
  bound : ∀ rank, c.gpuCompletedStep rank ≤ r.totalSteps
  pool : ∀ rank step, c.gpuReceivedBytesByStep (rank, step) =
    if step < c.gpuCompletedStep rank then 0 else deliveredAt c.log rank step
  behind : ∀ rank, ∀ step < c.gpuCompletedStep rank,
    deliveredAt c.log rank step = r.stepExpectedBytes rank step
  cap : ∀ rank < r.numGpus, ∀ step, deliveredAt c.log rank step ≤ r.stepExpectedBytes rank step
  flown : ∀ gpu < r.numGpus, ∀ step, deliveredAt c.log (r.target gpu) step ≠ 0 →
    .sent gpu step ∈ c.log
  done : c.gpuDoneCount =
    ((Finset.range r.numGpus).filter fun rank => c.gpuCompletedStep rank = r.totalSteps).card
  ended : c.completed = true ↔ ∀ rank < r.numGpus, c.gpuCompletedStep rank = r.totalSteps
  once : c.log.count .completed = if c.completed then 1 else 0
  finished : ∀ rank,
    c.log.filterMap (RingPassObs.finishedAt rank) = List.range (c.gpuCompletedStep rank)
  bytes : c.sentDataBytes = bytesSent r c.log % 2 ^ 64
  forwards : SendsBehindArrivals r c.log
  completes : CompletesBehindArrivals r c.log

theorem Lawful.expected_pos (h : Lawful r) (rank step : Nat) : 0 < r.stepExpectedBytes rank step := by
  unfold RingPass.stepExpectedBytes
  split
  · exact (h.bounds _).1
  · have := (h.bounds r.segmentRemainder).1
    simpa [RingPass.segmentBytes] using this

theorem Lawful.segment_lt (h : Lawful r) (gpu step : Nat) : r.segmentSizeOf gpu step < 2 ^ 64 :=
  (h.bounds _).2

theorem Kept.send (h : Kept r c) {i : Nat}
    (hevent : c.scheduled[i]? = some (.sendGpuStepData gpu step)) :
    Kept r (sendGpuStepData { c with scheduled := c.scheduled.eraseIdx i } gpu step) := by
  obtain ⟨hi, hget⟩ := List.getElem?_eq_some_iff.mp hevent
  have hperm : List.Perm (.sendGpuStepData gpu step :: c.scheduled.eraseIdx i) c.scheduled := by
    rw [← hget]
    exact List.getElem_cons_eraseIdx_perm hi
  have hcounts : ∀ g s, (c.scheduled.eraseIdx i).count (.sendGpuStepData g s) +
      (if gpu = g ∧ step = s then 1 else 0) = c.scheduled.count (.sendGpuStepData g s) := by
    intro g s
    rw [← hperm.count_eq, List.count_cons]
    simp
  have hone := h.sends gpu step
  have hnow := hcounts gpu step
  rw [if_pos ⟨rfl, rfl⟩] at hnow
  split at hone
  · rename_i hopen
    obtain ⟨hgpu, hstep, hlast⟩ := hopen
    have hsame : ∀ k s, deliveredAt (c.log ++ [RingPassObs.sent gpu step]) k s = deliveredAt c.log k s :=
      deliveredAt_snoc fun k s => rfl
    refine ⟨h.ring, fun hmem => h.initial (List.eraseIdx_subset hmem), ?_, h.bound, ?_, ?_, ?_, ?_,
      h.done, h.ended, ?_, ?_, ?_, ?_, ?_⟩
    · intro g s
      show (c.log ++ [RingPassObs.sent gpu step]).count (RingPassObs.sent g s) +
        (c.scheduled.eraseIdx i).count (.sendGpuStepData g s) =
          if g < r.numGpus ∧ s ≤ c.gpuCompletedStep g ∧ s < r.totalSteps then 1 else 0
      rw [← h.sends g s, ← hcounts g s, List.count_append, List.count_singleton]
      simp only [beq_iff_eq, RingPassObs.sent.injEq]
      exact (Nat.add_right_comm _ _ _).trans (Nat.add_assoc _ _ _)
    · intro k s
      show _ = if _ then 0 else deliveredAt (c.log ++ [RingPassObs.sent gpu step]) k s
      rw [hsame]
      exact h.pool k s
    · intro k s hs
      exact (hsame k s).trans (h.behind k s hs)
    · intro k hk s
      exact (hsame k s).le.trans (h.cap k hk s)
    · intro g hg s hcame
      refine List.mem_append_left _ (h.flown g hg s ?_)
      rwa [← hsame]
    · show (c.log ++ [RingPassObs.sent gpu step]).count RingPassObs.completed = _
      rw [List.count_append, h.once]
      rfl
    · intro k
      show (c.log ++ [RingPassObs.sent gpu step]).filterMap _ = _
      rw [List.filterMap_append, h.finished]
      exact List.append_nil _
    · show wadd 64 c.sentDataBytes (c.ring.segmentSizeOf gpu step) =
        bytesSent r (c.log ++ [RingPassObs.sent gpu step]) % 2 ^ 64
      rw [bytesSent_append, h.bytes, h.ring, wadd, Nat.mod_add_mod]
      rfl
    · refine h.forwards.snoc ?_
      rintro g s ⟨rfl, rfl⟩ s' hs'
      exact h.behind gpu s' (by omega)
    · exact h.completes.snoc fun heq => nomatch heq
  · omega

/-- A rank closes a step: its bytes leave the table, and the next step is open. -/
def close (c : RingPassRun) (gpu step : Nat) : RingPassRun :=
  { c with
    gpuReceivedBytesByStep := update c.gpuReceivedBytesByStep (gpu, step)
      (c.gpuReceivedBytesByStep (gpu, step) - c.ring.stepExpectedBytes gpu step)
    gpuCompletedStep := update c.gpuCompletedStep gpu (step + 1)
    log := c.log ++ [.finished gpu step] }

/-- What holds when a rank has closed a step, before it is looked at what is next: another send of
this rank, or the end of its part. -/
structure Closed (r : RingPass) (c : RingPassRun) (gpu step : Nat) : Prop where
  rank : gpu < r.numGpus
  ring : c.ring = r
  initial : .triggerInitialSends ∉ c.scheduled
  next : c.gpuCompletedStep gpu = step + 1
  sends : ∀ g s, c.log.count (.sent g s) + c.scheduled.count (.sendGpuStepData g s) +
    (if gpu = g ∧ step + 1 = s ∧ s < r.totalSteps then 1 else 0) =
      if g < r.numGpus ∧ s ≤ c.gpuCompletedStep g ∧ s < r.totalSteps then 1 else 0
  bound : ∀ k, c.gpuCompletedStep k ≤ r.totalSteps
  pool : ∀ k s, c.gpuReceivedBytesByStep (k, s) =
    if s < c.gpuCompletedStep k then 0 else deliveredAt c.log k s
  behind : ∀ k, ∀ s < c.gpuCompletedStep k, deliveredAt c.log k s = r.stepExpectedBytes k s
  cap : ∀ k < r.numGpus, ∀ s, deliveredAt c.log k s ≤ r.stepExpectedBytes k s
  flown : ∀ g < r.numGpus, ∀ s, deliveredAt c.log (r.target g) s ≠ 0 → .sent g s ∈ c.log
  done : c.gpuDoneCount + (if step + 1 = r.totalSteps then 1 else 0) =
    ((Finset.range r.numGpus).filter fun k => c.gpuCompletedStep k = r.totalSteps).card
  pending : c.completed = false
  none : c.log.count .completed = 0
  finished : ∀ k, c.log.filterMap (RingPassObs.finishedAt k) = List.range (c.gpuCompletedStep k)
  bytes : c.sentDataBytes = bytesSent r c.log % 2 ^ 64
  forwards : SendsBehindArrivals r c.log
  completes : CompletesBehindArrivals r c.log

theorem Kept.exact (h : Kept r c) (hgpu : gpu < r.numGpus) (hcovered : c.Covered gpu) :
    deliveredAt c.log gpu (c.gpuCompletedStep gpu) =
      r.stepExpectedBytes gpu (c.gpuCompletedStep gpu) := by
  have hcovers := hcovered.2
  rw [h.ring, h.pool gpu, if_neg (lt_irrefl _)] at hcovers
  exact le_antisymm (h.cap gpu hgpu _) hcovers

theorem Kept.close (h : Kept r c) (hgpu : gpu < r.numGpus) (hcovered : c.Covered gpu)
    (hstep : c.gpuCompletedStep gpu = step) : Closed r (c.close gpu step) gpu step := by
  have hexact := h.exact hgpu hcovered
  have hopen := hcovered.1
  rw [h.ring, hstep] at hopen
  rw [hstep] at hexact
  have hpending : c.completed = false := by
    by_contra hover
    have hall := h.ended.mp (by simpa using hover) gpu hgpu
    omega
  have hself : update c.gpuCompletedStep gpu (step + 1) gpu = step + 1 :=
    update_self _ _ _
  have hother : ∀ k, k ≠ gpu → update c.gpuCompletedStep gpu (step + 1) k =
      c.gpuCompletedStep k := fun k hk => update_of_ne hk _ _
  have hsame : ∀ k s, deliveredAt (c.log ++ [.finished gpu step]) k s = deliveredAt c.log k s :=
    deliveredAt_snoc fun k s => rfl
  constructor
  case rank => exact hgpu
  case ring => exact h.ring
  case initial => exact h.initial
  case next => exact hself
  case pending => exact hpending
  case sends =>
    intro g s
    show (c.log ++ [RingPassObs.finished gpu step]).count (RingPassObs.sent g s) + _ + _ =
      if g < r.numGpus ∧ s ≤ update c.gpuCompletedStep gpu (step + 1) g ∧ s < r.totalSteps
        then 1 else 0
    have hsent : (c.log ++ [RingPassObs.finished gpu step]).count (RingPassObs.sent g s) =
        c.log.count (.sent g s) := List.count_append
    rw [hsent]
    show _ + c.scheduled.count (RingPassEvent.sendGpuStepData g s) + _ = _
    rw [h.sends]
    by_cases hg : g = gpu
    · subst hg
      rw [hself, hstep]
      split_ifs <;> omega
    · have hnew : ¬ (gpu = g ∧ step + 1 = s ∧ s < r.totalSteps) := fun heq => hg heq.1.symm
      rw [hother g hg, if_neg hnew, Nat.add_zero]
  case bound =>
    intro k
    show update c.gpuCompletedStep gpu (step + 1) k ≤ r.totalSteps
    by_cases hk : k = gpu
    · rw [hk, hself]
      exact hopen
    · rw [hother k hk]
      exact h.bound k
  case pool =>
    intro k s
    show update c.gpuReceivedBytesByStep (gpu, step)
      (c.gpuReceivedBytesByStep (gpu, step) - c.ring.stepExpectedBytes gpu step) (k, s) =
        if s < update c.gpuCompletedStep gpu (step + 1) k then 0
        else deliveredAt (c.log ++ [.finished gpu step]) k s
    rw [hsame, h.ring]
    have hold := h.pool k s
    by_cases hk : k = gpu
    · subst hk
      rw [hself]
      rw [hstep] at hold
      by_cases hs : s = step
      · subst hs
        rw [if_neg (lt_irrefl s)] at hold
        rw [update_self, if_pos (Nat.lt_succ_self s), hold, hexact, Nat.sub_self]
      · rw [update_of_ne fun heq => hs (congrArg Prod.snd heq), hold]
        refine if_congr ?_ rfl rfl
        omega
    · rw [update_of_ne fun heq => hk (congrArg Prod.fst heq), hother k hk]
      exact hold
  case behind =>
    intro k s hs
    replace hs : s < update c.gpuCompletedStep gpu (step + 1) k := hs
    refine (hsame k s).trans ?_
    by_cases hk : k = gpu
    · subst hk
      rw [hself] at hs
      rcases Nat.lt_or_eq_of_le (Nat.lt_succ_iff.mp hs) with hlt | rfl
      · exact h.behind k s (by omega)
      · exact hexact
    · rw [hother k hk] at hs
      exact h.behind k s hs
  case cap => exact fun k hk s => (hsame k s).le.trans (h.cap k hk s)
  case flown =>
    exact fun g hg s hcame => List.mem_append_left _ (h.flown g hg s (hsame _ s ▸ hcame))
  case done =>
    show c.gpuDoneCount + _ = ((Finset.range r.numGpus).filter fun k =>
      update c.gpuCompletedStep gpu (step + 1) k = r.totalSteps).card
    rw [h.done]
    have hrest : ∀ k ≠ gpu, (update c.gpuCompletedStep gpu (step + 1) k = r.totalSteps ↔
        c.gpuCompletedStep k = r.totalSteps) := by
      intro k hk
      rw [hother k hk]
    by_cases hlast : step + 1 = r.totalSteps
    · rw [if_pos hlast]
      refine (card_filter_insert hgpu ?_ ?_ hrest).symm
      · omega
      · rw [hself, hlast]
    · rw [if_neg hlast]
      refine (card_filter_same (a := gpu) ?_ ?_ hrest).symm
      · omega
      · rw [hself]
        exact hlast
  case none =>
    show (c.log ++ [RingPassObs.finished gpu step]).count RingPassObs.completed = 0
    rw [List.count_append, h.once, hpending]
    rfl
  case finished =>
    intro k
    show (c.log ++ [RingPassObs.finished gpu step]).filterMap (RingPassObs.finishedAt k) =
      List.range (update c.gpuCompletedStep gpu (step + 1) k)
    rw [List.filterMap_append, h.finished]
    by_cases hk : k = gpu
    · subst hk
      rw [hself, hstep, List.range_succ]
      simp [RingPassObs.finishedAt]
    · rw [hother k hk]
      simp [RingPassObs.finishedAt, Ne.symm hk]
  case bytes =>
    show c.sentDataBytes = bytesSent r (c.log ++ [.finished gpu step]) % 2 ^ 64
    rw [bytesSent_append, h.bytes]
    rfl
  case forwards => exact h.forwards.snoc fun g s heq => nomatch heq
  case completes => exact h.completes.snoc fun heq => nomatch heq

namespace Closed

theorem more (h : Closed r c gpu step) (hmore : step + 1 < r.totalSteps) :
    Kept r { c with scheduled := c.scheduled ++ [.sendGpuStepData gpu (step + 1)] } := by
  have hsome : ¬ ∀ k < r.numGpus, c.gpuCompletedStep k = r.totalSteps := by
    intro hall
    have := hall gpu h.rank
    rw [h.next] at this
    omega
  refine ⟨h.ring, ?_, ?_, h.bound, h.pool, h.behind, h.cap, h.flown, ?_,
    iff_of_false (by simp [h.pending]) hsome, ?_, h.finished, h.bytes, h.forwards, h.completes⟩
  · intro hmem
    rcases List.mem_append.mp hmem with hmem | hmem
    · exact h.initial hmem
    · simp at hmem
  · intro g s
    show c.log.count (.sent g s) +
      (c.scheduled ++ [RingPassEvent.sendGpuStepData gpu (step + 1)]).count
        (RingPassEvent.sendGpuStepData g s) = _
    rw [← h.sends, List.count_append, List.count_singleton, ← Nat.add_assoc]
    simp only [beq_iff_eq, RingPassEvent.sendGpuStepData.injEq]
    refine congrArg _ (if_congr ?_ rfl rfl)
    omega
  · have := h.done
    rwa [if_neg hmore.ne] at this
  · show c.log.count .completed = if c.completed then 1 else 0
    rw [h.none, h.pending]
    rfl

theorem sends_last (h : Closed r c gpu step) (hlast : step + 1 = r.totalSteps) (g s : Nat) :
    c.log.count (.sent g s) + c.scheduled.count (.sendGpuStepData g s) =
      if g < r.numGpus ∧ s ≤ c.gpuCompletedStep g ∧ s < r.totalSteps then 1 else 0 := by
  rw [← h.sends, if_neg (by omega), Nat.add_zero]

theorem part (h : Closed r c gpu step) (hlast : step + 1 = r.totalSteps)
    (hpart : c.gpuDoneCount + 1 < r.numGpus) :
    Kept r { c with gpuDoneCount := c.gpuDoneCount + 1 } := by
  have hdone := h.done
  rw [if_pos hlast] at hdone
  have hsome : ¬ ∀ k < r.numGpus, c.gpuCompletedStep k = r.totalSteps := by
    intro hall
    rw [hdone, Finset.filter_true_of_mem fun k hk => hall k (Finset.mem_range.mp hk),
      Finset.card_range] at hpart
    exact lt_irrefl _ hpart
  refine ⟨h.ring, h.initial, h.sends_last hlast, h.bound, h.pool, h.behind, h.cap, h.flown, hdone,
    iff_of_false (by simp [h.pending]) hsome, ?_, h.finished, h.bytes, h.forwards, h.completes⟩
  show c.log.count .completed = if c.completed then 1 else 0
  rw [h.none, h.pending]
  rfl

theorem finish (h : Closed r c gpu step) (hlast : step + 1 = r.totalSteps)
    (hfull : r.numGpus ≤ c.gpuDoneCount + 1) :
    Kept r (complete { c with gpuDoneCount := c.gpuDoneCount + 1 }) := by
  have hdone := h.done
  rw [if_pos hlast] at hdone
  have hall := forall_of_card (hdone ▸ hfull)
  have hlater : ∀ k s, deliveredAt (c.log ++ [RingPassObs.completed]) k s =
      deliveredAt c.log k s := deliveredAt_snoc fun k s => rfl
  refine ⟨h.ring, h.initial, ?_, h.bound, ?_, ?_, ?_, ?_, hdone, iff_of_true rfl hall, ?_, ?_, ?_,
    ?_, ?_⟩
  · intro g s
    show (c.log ++ [RingPassObs.completed]).count (RingPassObs.sent g s) + _ = _
    rw [List.count_append]
    exact h.sends_last hlast g s
  · intro k s
    show _ = if _ then 0 else deliveredAt (c.log ++ [RingPassObs.completed]) k s
    rw [hlater]
    exact h.pool k s
  · exact fun k s hs => (hlater k s).trans (h.behind k s hs)
  · exact fun k hk s => (hlater k s).le.trans (h.cap k hk s)
  · exact fun g hg s hcame => List.mem_append_left _ (h.flown g hg s (hlater _ s ▸ hcame))
  · show (c.log ++ [RingPassObs.completed]).count RingPassObs.completed = 1
    rw [List.count_append, h.none]
    rfl
  · intro k
    show (c.log ++ [RingPassObs.completed]).filterMap _ = _
    rw [List.filterMap_append, h.finished]
    exact List.append_nil _
  · show c.sentDataBytes = bytesSent r (c.log ++ [RingPassObs.completed]) % 2 ^ 64
    rw [bytesSent_append, h.bytes]
    rfl
  · exact h.forwards.snoc fun g s heq => nomatch heq
  · refine h.completes.snoc fun _ k hk s hs => h.behind k s ?_
    rw [hall k hk]
    exact hs

end Closed

theorem Kept.finishStep (h : Kept r c) (hgpu : gpu < r.numGpus)
    (hcovered : c.Covered gpu) : Kept r (c.finishStep gpu) := by
  have hclosed := h.close hgpu hcovered rfl
  show Kept r ((c.close gpu (c.gpuCompletedStep gpu)).onGpuStepReceiveComplete gpu
    (c.gpuCompletedStep gpu))
  unfold onGpuStepReceiveComplete
  split
  · rename_i hlast
    rw [hclosed.ring, hclosed.next] at hlast
    have hlast := le_antisymm (hclosed.next ▸ hclosed.bound gpu) hlast
    dsimp only
    split
    · rename_i hfull
      exact hclosed.finish hlast (hclosed.ring ▸ hfull)
    · rename_i hpart
      exact hclosed.part hlast (hclosed.ring ▸ Nat.lt_of_not_le hpart)
  · rename_i hmore
    rw [hclosed.ring, hclosed.next] at hmore
    exact hclosed.more (Nat.lt_of_not_le hmore)

/-! ## Data -/

section Data

variable {M : Type*} [AddCommMonoid M] {own : Nat → Nat → M}

/-- The data of a rank are those behind the steps that it has finished. A send took along what its
sender had at this step. -/
structure Carried (r : RingPass) (own : Nat → Nat → M) (c : RingPassRun) : Prop where
  held : ∀ rank < r.numGpus, ∀ segment,
    (holdings r own c.log).held rank segment = r.heldAfter own (c.gpuCompletedStep rank) rank segment
  carried : ∀ gpu step, .sent gpu step ∈ c.log → (holdings r own c.log).carried gpu step =
    r.heldAfter own step gpu (r.segmentOf gpu step)

theorem holdings_snoc (r : RingPass) (own : Nat → Nat → M) (log : List RingPassObs)
    (e : RingPassObs) : holdings r own (log ++ [e]) = (holdings r own log).observe r e := by
  rw [holdings, List.foldl_append]
  rfl

theorem Carried.send (h : Carried r own c) (hkept : Kept r c) (hr : Lawful r) {i : Nat}
    (hevent : c.scheduled[i]? = some (.sendGpuStepData gpu step)) :
    Carried r own (sendGpuStepData { c with scheduled := c.scheduled.eraseIdx i } gpu step) := by
  have hone := hkept.sends gpu step
  have hmem := List.count_pos_iff.mpr (List.mem_of_getElem? hevent)
  split at hone
  · rename_i hopen
    obtain ⟨hgpu, hstep, hlast⟩ := hopen
    have hsteps := hr.placed.steps
    have hbound := hkept.bound gpu
    have htwo := hr.two
    have hnow : (holdings r own c.log).held gpu (r.segmentOf gpu step) =
        r.heldAfter own step gpu (r.segmentOf gpu step) := by
      rw [h.held gpu hgpu]
      exact hr.placed.heldAfter_stable hgpu hstep (by omega)
    have hlog : (sendGpuStepData { c with scheduled := c.scheduled.eraseIdx i } gpu step).log =
        c.log ++ [.sent gpu step] := rfl
    constructor
    · intro rank hrank segment
      rw [hlog, holdings_snoc]
      exact h.held rank hrank segment
    · intro g s hsent
      rw [hlog, holdings_snoc]
      show (if g = gpu ∧ s = step then _ else _) = _
      split
      · rename_i heq
        rw [heq.1, heq.2]
        exact hnow
      · rename_i hne
        rw [hlog] at hsent
        rcases List.mem_append.mp hsent with hsent | hsent
        · exact h.carried g s hsent
        · simp only [List.mem_singleton, RingPassObs.sent.injEq] at hsent
          exact absurd hsent hne
  · omega

end Data

/-! ## Rounds of the loop -/

theorem finishStep_ring (c : RingPassRun) (gpu : Nat) : (c.finishStep gpu).ring = c.ring := by
  unfold RingPassRun.finishStep onGpuStepReceiveComplete
  dsimp only
  split_ifs <;> rfl

theorem finishStep_gpuCompletedStep (c : RingPassRun) (gpu : Nat) :
    (c.finishStep gpu).gpuCompletedStep =
      update c.gpuCompletedStep gpu (c.gpuCompletedStep gpu + 1) := by
  unfold RingPassRun.finishStep onGpuStepReceiveComplete
  dsimp only
  split_ifs <;> rfl

variable {k rounds : Nat} {gathers : Bool} {numGpus : UInt16} {dataSize : UInt64}
  {next prev : Nat → Nat}

theorem finishStep_pool (c : RingPassRun) (hk : k ≠ gpu) (s : Nat) :
    (c.finishStep gpu).gpuReceivedBytesByStep (k, s) = c.gpuReceivedBytesByStep (k, s) := by
  unfold RingPassRun.finishStep onGpuStepReceiveComplete
  dsimp only
  split_ifs <;> exact update_of_ne (fun heq => hk (congrArg Prod.fst heq)) _ _

theorem finishStep_log (c : RingPassRun) (gpu : Nat) :
    (c.finishStep gpu).log = c.log ++ [.finished gpu (c.gpuCompletedStep gpu)] ∨
      (c.finishStep gpu).log =
        c.log ++ [.finished gpu (c.gpuCompletedStep gpu)] ++ [.completed] := by
  unfold RingPassRun.finishStep onGpuStepReceiveComplete
  dsimp only
  split_ifs
  · exact .inr rfl
  · exact .inl rfl
  · exact .inl rfl

theorem drain_induct {P : RingPassRun → Prop}
    (hstep : ∀ c, P c → c.Covered gpu → P (c.finishStep gpu)) (h : P c)
    : P (drain gpu rounds c) := by
  induction rounds generalizing c with
  | zero => exact h
  | succ rounds ih =>
      unfold drain
      split
      · rename_i hcovered
        exact ih (hstep c h hcovered)
      · exact h

theorem not_covered_drain (hrounds : c.ring.totalSteps - c.gpuCompletedStep gpu ≤ rounds) :
    ¬ (drain gpu rounds c).Covered gpu := by
  induction rounds generalizing c with
  | zero =>
      intro hcovered
      have hopen : c.gpuCompletedStep gpu < c.ring.totalSteps := hcovered.1
      omega
  | succ rounds ih =>
      unfold drain
      split
      · apply ih
        rw [finishStep_ring, finishStep_gpuCompletedStep, update_self]
        omega
      · assumption

theorem covered_drain (hk : k ≠ gpu) : (drain gpu rounds c).Covered k ↔ c.Covered k := by
  refine drain_induct (P := fun c' => c'.Covered k ↔ c.Covered k) ?_ Iff.rfl
  intro c' h _
  refine Iff.trans ?_ h
  unfold Covered
  rw [finishStep_ring, finishStep_gpuCompletedStep, update_of_ne hk, finishStep_pool c' hk]

section Data

variable {M : Type*} [AddCommMonoid M] {own : Nat → Nat → M}

theorem Carried.finishStep (h : Carried r own c) (hkept : Kept r c) (hr : Lawful r)
    (hgpu : gpu < r.numGpus) (hcovered : c.Covered gpu) : Carried r own (c.finishStep gpu) := by
  obtain ⟨hopen, hcovers⟩ := hcovered
  rw [hkept.ring] at hopen hcovers
  obtain ⟨sender, hsender, rfl⟩ := hr.placed.exists_sender hgpu
  generalize hstep : c.gpuCompletedStep (r.target sender) = step at hopen hcovers
  have hpos := hr.expected_pos (r.target sender) step
  -- the segment has been sent, so it took along what its sender had
  have hsent : .sent sender step ∈ c.log := by
    have hpool := hkept.pool (r.target sender) step
    rw [hstep, if_neg (lt_irrefl step)] at hpool
    exact hkept.flown sender hsender step (by omega)
  have hafter : holdings r own (c.finishStep (r.target sender)).log =
      (holdings r own c.log).observe r (.finished (r.target sender) step) := by
    rw [← hstep, ← holdings_snoc]
    rcases c.finishStep_log (r.target sender) with hlog | hlog
    · rw [hlog]
    · rw [hlog, holdings_snoc r own (_ ++ _)]
      rfl
  have hobserve : (holdings r own c.log).observe r (.finished (r.target sender) step) =
      { holdings r own c.log with
        held := fun k segment =>
          if k = r.target sender ∧ r.segmentOf sender step = segment then
            r.combine ((holdings r own c.log).held k segment)
              ((holdings r own c.log).carried sender step)
          else (holdings r own c.log).held k segment } := by
    unfold Holdings.observe
    dsimp only
    rw [hr.placed.senderTo_target hsender]
  rw [hobserve] at hafter
  constructor
  · intro rank hrank segment
    rw [hafter, finishStep_gpuCompletedStep]
    show (if rank = r.target sender ∧ r.segmentOf sender step = segment then _ else _) = _
    by_cases hk : rank = r.target sender
    · subst hk
      rw [update_self, hstep, hr.placed.heldAfter_target hsender, h.held _ hrank, hstep,
        h.carried sender step hsent]
      by_cases hsegment : r.segmentOf sender step = segment
      · rw [if_pos ⟨rfl, hsegment⟩, if_pos hsegment, hsegment]
      · rw [if_neg fun heq => hsegment heq.2, if_neg hsegment]
    · rw [if_neg fun heq => hk heq.1, update_of_ne hk]
      exact h.held rank hrank segment
  · intro g s hmem
    rw [hafter]
    refine h.carried g s ?_
    rcases c.finishStep_log (r.target sender) with hlog | hlog
    · rw [hlog] at hmem
      simpa using hmem
    · rw [hlog] at hmem
      simpa using hmem

end Data

/-! ## Arrivals -/

/-- The bytes of a segment that is in flight are booked for its step. -/
theorem Kept.book (h : Kept r c) (hr : Lawful r) {bytes : Nat} (hsent : .sent gpu step ∈ c.log)
    (hbytes : bytes ≠ 0)
    (hfits : deliveredAt c.log (r.target gpu) step + bytes ≤ r.segmentSizeOf gpu step) :
    Kept r { c with
      gpuReceivedBytesByStep := update c.gpuReceivedBytesByStep (r.target gpu, step)
        (wadd 64 (c.gpuReceivedBytesByStep (r.target gpu, step)) bytes)
      log := c.log ++ [.delivered (r.target gpu) step bytes] } := by
  have hone := h.sends gpu step
  have hmem := List.count_pos_iff.mpr hsent
  split at hone
  · rename_i hopen
    obtain ⟨hgpu, hstep, hlast⟩ := hopen
    have hexpected := hr.placed.stepExpectedBytes_target step hgpu
    have hlt := hr.segment_lt gpu step
    -- a step that is finished has all its bytes already
    have hnew : c.gpuCompletedStep (r.target gpu) ≤ step := by
      by_contra hpast
      have := h.behind (r.target gpu) step (by omega)
      omega
    have hafter : ∀ k s, deliveredAt (c.log ++ [.delivered (r.target gpu) step bytes]) k s =
        deliveredAt c.log k s + if r.target gpu = k ∧ step = s then bytes else 0 := by
      intro k s
      rw [deliveredAt_append, deliveredAt_delivered]
    have hadd : wadd 64 (c.gpuReceivedBytesByStep (r.target gpu, step)) bytes =
        deliveredAt c.log (r.target gpu) step + bytes := by
      rw [h.pool, if_neg (by omega)]
      exact wadd_eq (by omega)
    rw [hadd]
    refine ⟨h.ring, h.initial, ?_, h.bound, ?_, ?_, ?_, ?_, h.done, h.ended, ?_, ?_, ?_, ?_, ?_⟩
    · intro g s
      show (c.log ++ [RingPassObs.delivered (r.target gpu) step bytes]).count
        (RingPassObs.sent g s) + _ = _
      rw [List.count_append]
      exact h.sends g s
    -- pool
    · intro k s
      show update c.gpuReceivedBytesByStep (r.target gpu, step)
        (deliveredAt c.log (r.target gpu) step + bytes) (k, s) = if s < c.gpuCompletedStep k then 0
          else deliveredAt (c.log ++ [RingPassObs.delivered (r.target gpu) step bytes]) k s
      rw [hafter]
      by_cases heq : r.target gpu = k ∧ step = s
      · obtain ⟨rfl, rfl⟩ := heq
        rw [update_self, if_neg (by omega), if_pos ⟨rfl, rfl⟩]
      · rw [update_of_ne fun hpair => heq ⟨(congrArg Prod.fst hpair).symm,
          (congrArg Prod.snd hpair).symm⟩, if_neg heq, Nat.add_zero]
        exact h.pool k s
    · intro k s hs
      replace hs : s < c.gpuCompletedStep k := hs
      have hothers : ¬ (r.target gpu = k ∧ step = s) := by
        rintro ⟨rfl, rfl⟩
        omega
      refine (hafter k s).trans ?_
      rw [h.behind k s hs, if_neg hothers, Nat.add_zero]
    · intro k hk s
      refine (hafter k s).le.trans ?_
      have hcap := h.cap k hk s
      split
      · rename_i heq
        obtain ⟨rfl, rfl⟩ := heq
        omega
      · exact hcap
    · intro g hg s hcame
      refine List.mem_append_left _ ?_
      replace hcame := fun heq => hcame ((hafter (r.target g) s).trans heq)
      by_cases heq : r.target gpu = r.target g ∧ step = s
      · rw [← hr.placed.target_injective hgpu hg heq.1, ← heq.2]
        exact hsent
      · rw [if_neg heq] at hcame
        exact h.flown g hg s hcame
    · show (c.log ++ [RingPassObs.delivered (r.target gpu) step bytes]).count
        RingPassObs.completed = _
      rw [List.count_append, h.once]
      rfl
    · intro k
      show (c.log ++ [RingPassObs.delivered (r.target gpu) step bytes]).filterMap _ = _
      rw [List.filterMap_append, h.finished]
      exact List.append_nil _
    · show c.sentDataBytes =
        bytesSent r (c.log ++ [RingPassObs.delivered (r.target gpu) step bytes]) % 2 ^ 64
      rw [bytesSent_append, h.bytes]
      rfl
    · exact h.forwards.snoc fun g s heq => nomatch heq
    · exact h.completes.snoc fun heq => nomatch heq
  · omega

theorem onPacketReceived_fragment (h : Kept r c) (hr : Lawful r) {bytes : UInt32}
    (hsent : .sent gpu step ∈ c.log) (hbytes : bytes ≠ 0) (packetSize : UInt32) :
    onPacketReceived { c with log := c.log ++ [.delivered (r.target gpu) step bytes.toNat] }
        (c.fragmentHeader gpu step bytes) packetSize =
      drain (r.target gpu) (r.totalSteps - c.gpuCompletedStep (r.target gpu))
        { c with
          gpuReceivedBytesByStep := update c.gpuReceivedBytesByStep (r.target gpu, step)
            (wadd 64 (c.gpuReceivedBytesByStep (r.target gpu, step)) bytes.toNat)
          log := c.log ++ [.delivered (r.target gpu) step bytes.toNat] } := by
  have hone := h.sends gpu step
  have hmem := List.count_pos_iff.mpr hsent
  split at hone
  · rename_i hopen
    obtain ⟨hgpu, -, hlast⟩ := hopen
    have htarget := hr.placed.target gpu hgpu
    have hsteps := hr.placed.steps
    have hfew := hr.few
    have hdest : (UInt16.ofNat (r.target gpu)).toNat = r.target gpu :=
      UInt16.toNat_ofNat_of_lt' (by simp [UInt16.size]; omega)
    have hflow : (UInt16.ofNat (flowIdBase + step)).toNat = flowIdBase + step :=
      UInt16.toNat_ofNat_of_lt' (by simp [UInt16.size, flowIdBase]; omega)
    unfold onPacketReceived
    rw [if_neg (by simp [fragmentHeader]),
      if_neg (show ¬ (c.fragmentHeader gpu step bytes).effectiveDataSize = 0 from hbytes)]
    dsimp only [fragmentHeader]
    simp only [h.ring, hdest, hflow]
    rw [if_neg (by omega), Nat.add_sub_cancel_left, if_neg (by omega)]
  · omega

theorem onPacketReceived_other {p : Header} (hdata : p.packetType ≠ .data) (packetSize : UInt32) :
    c.onPacketReceived p packetSize = c := by
  unfold onPacketReceived
  rw [if_pos hdata]

/-! ## Runs -/

section Runs

variable {M : Type*} [AddCommMonoid M] {own : Nat → Nat → M}

/-- Behind the first sends the books are kept, and no rank has all bytes of a step that it has not
finished. -/
structure Going (r : RingPass) (own : Nat → Nat → M) (c : RingPassRun) : Prop where
  kept : Kept r c
  carried : Carried r own c
  waits : ∀ rank < r.numGpus, ¬ c.Covered rank

theorem Going.send (h : Going r own c) (hr : Lawful r) {i : Nat}
    (hevent : c.scheduled[i]? = some (.sendGpuStepData gpu step)) :
    Going r own (sendGpuStepData { c with scheduled := c.scheduled.eraseIdx i } gpu step) :=
  ⟨h.kept.send hevent, h.carried.send h.kept hr hevent, h.waits⟩

theorem Going.deliver (h : Going r own c) (hr : Lawful r) {bytes : UInt32}
    (hsent : .sent gpu step ∈ c.log) (hbytes : bytes ≠ 0)
    (hfits : deliveredAt c.log (r.target gpu) step + bytes.toNat ≤ r.segmentSizeOf gpu step)
    (packetSize : UInt32) :
    Going r own (onPacketReceived
      { c with log := c.log ++ [.delivered (r.target gpu) step bytes.toNat] }
      (c.fragmentHeader gpu step bytes) packetSize) := by
  have hpos : bytes.toNat ≠ 0 := fun hzero => hbytes (UInt32.toNat_inj.mp hzero)
  have htarget : r.target gpu < r.numGpus := by
    have hone := h.kept.sends gpu step
    have hmem := List.count_pos_iff.mpr hsent
    split at hone
    · rename_i hopen
      exact hr.placed.target gpu hopen.1
    · omega
  rw [onPacketReceived_fragment h.kept hr hsent hbytes]
  have hbook := h.kept.book hr hsent hpos hfits
  generalize hbooked : ({ c with
    gpuReceivedBytesByStep := update c.gpuReceivedBytesByStep (r.target gpu, step)
      (wadd 64 (c.gpuReceivedBytesByStep (r.target gpu, step)) bytes.toNat)
    log := c.log ++ [.delivered (r.target gpu) step bytes.toNat] } : RingPassRun) = booked at hbook ⊢
  have hlog : booked.log = c.log ++ [.delivered (r.target gpu) step bytes.toNat] := by rw [← hbooked]
  have hsteps : booked.gpuCompletedStep = c.gpuCompletedStep := by rw [← hbooked]
  have hcarried : Carried r own booked := by
    constructor
    · intro rank hrank segment
      rw [hlog, holdings_snoc, hsteps]
      exact h.carried.held rank hrank segment
    · intro g s hmem
      rw [hlog, holdings_snoc]
      refine h.carried.carried g s ?_
      rw [hlog] at hmem
      simpa using hmem
  obtain ⟨hkept, hheld⟩ : Kept r (drain (r.target gpu)
      (r.totalSteps - c.gpuCompletedStep (r.target gpu)) booked) ∧
        Carried r own (drain (r.target gpu)
          (r.totalSteps - c.gpuCompletedStep (r.target gpu)) booked) := by
    refine drain_induct (P := fun c => Kept r c ∧ Carried r own c) ?_ ⟨hbook, hcarried⟩
    intro c' h' hcovered
    exact ⟨h'.1.finishStep htarget hcovered, h'.2.finishStep h'.1 hr htarget hcovered⟩
  refine ⟨hkept, hheld, ?_⟩
  intro rank hrank
  by_cases hk : rank = r.target gpu
  · rw [hk]
    apply not_covered_drain
    rw [hbook.ring, hsteps]
  · rw [covered_drain hk]
    intro hcovered
    apply h.waits rank hrank
    unfold Covered at hcovered ⊢
    rw [hbook.ring, hsteps, ← hbooked] at hcovered
    dsimp only at hcovered
    rw [update_of_ne fun hpair => hk (congrArg Prod.fst hpair)] at hcovered
    rwa [h.kept.ring]

/-- The log behind the first sends. -/
def firstSends (ranks : Nat) : List RingPassObs := (List.range ranks).map fun gpu => .sent gpu 0

theorem firstSends_succ (ranks : Nat) :
    firstSends (ranks + 1) = firstSends ranks ++ [.sent ranks 0] := by
  rw [firstSends, List.range_succ, List.map_append]
  rfl

theorem mem_firstSends {e : RingPassObs} {ranks : Nat} :
    e ∈ firstSends ranks ↔ ∃ gpu < ranks, e = .sent gpu 0 := by
  simp only [firstSends, List.mem_map, List.mem_range]
  exact ⟨fun ⟨gpu, hgpu, heq⟩ => ⟨gpu, hgpu, heq.symm⟩, fun ⟨gpu, hgpu, heq⟩ => ⟨gpu, hgpu, heq.symm⟩⟩

theorem deliveredAt_firstSends (ranks rank step : Nat) :
    deliveredAt (firstSends ranks) rank step = 0 := by
  induction ranks with
  | zero => rfl
  | succ ranks ih => rw [firstSends_succ, deliveredAt_append, ih, deliveredAt_sent]

theorem holdings_firstSends (r : RingPass) (own : Nat → Nat → M) (ranks : Nat) :
    (holdings r own (firstSends ranks)).held = own ∧ ∀ gpu < ranks,
      (holdings r own (firstSends ranks)).carried gpu 0 = own gpu (r.segmentOf gpu 0) := by
  induction ranks with
  | zero => exact ⟨rfl, fun gpu hgpu => absurd hgpu (Nat.not_lt_zero gpu)⟩
  | succ ranks ih =>
      rw [firstSends_succ, holdings_snoc]
      refine ⟨ih.1, ?_⟩
      intro gpu hgpu
      show (if gpu = ranks ∧ 0 = 0 then _ else _) = _
      split
      · rename_i heq
        rw [ih.1, heq.1]
      · rename_i hne
        exact ih.2 gpu (by omega)

theorem triggerInitialSends_eq (r : RingPass) : ∃ bytes,
    bytes = bytesSent r (firstSends r.numGpus) % 2 ^ 64 ∧
      triggerInitialSends { ring := r } =
        { ring := r, sentDataBytes := bytes, log := firstSends r.numGpus } := by
  suffices h : ∀ ranks, ∃ bytes, bytes = bytesSent r (firstSends ranks) % 2 ^ 64 ∧
      (List.range ranks).foldl (fun c gpu => sendGpuStepData c gpu 0) { ring := r } =
        { ring := r, sentDataBytes := bytes, log := firstSends ranks } from h r.numGpus
  intro ranks
  induction ranks with
  | zero => exact ⟨0, rfl, rfl⟩
  | succ ranks ih =>
      obtain ⟨bytes, hbytes, hfold⟩ := ih
      refine ⟨wadd 64 bytes (r.segmentSizeOf ranks 0), ?_, ?_⟩
      · rw [firstSends_succ, bytesSent_append, hbytes, wadd, Nat.mod_add_mod]
        rfl
      · rw [List.range_succ, List.foldl_append, hfold, firstSends_succ]
        rfl

theorem going_firstSends (hr : Lawful r) {bytes : Nat}
    (hbytes : bytes = bytesSent r (firstSends r.numGpus) % 2 ^ 64) :
    Going r own { ring := r, sentDataBytes := bytes, log := firstSends r.numGpus } := by
  have hsteps := hr.placed.steps
  have htwo := hr.two
  refine ⟨⟨rfl, List.not_mem_nil, ?_, fun rank => Nat.zero_le _, ?_, ?_, ?_, ?_, ?_, ?_, ?_, ?_, hbytes,
    ?_, ?_⟩, ⟨?_, ?_⟩, ?_⟩
  · intro gpu step
    have hnodup : (firstSends r.numGpus).Nodup :=
      List.nodup_range.map fun a b heq => (RingPassObs.sent.inj heq).1
    show (firstSends r.numGpus).count (RingPassObs.sent gpu step) + 0 =
      if gpu < r.numGpus ∧ step ≤ 0 ∧ step < r.totalSteps then 1 else 0
    rw [hnodup.count, Nat.add_zero]
    refine if_congr ?_ rfl rfl
    rw [mem_firstSends]
    constructor
    · rintro ⟨g, hg, heq⟩
      cases heq
      omega
    · rintro ⟨hgpu, hstep, -⟩
      exact ⟨gpu, hgpu, by rw [Nat.le_zero.mp hstep]⟩
  · intro rank step
    show 0 = if step < 0 then 0 else deliveredAt (firstSends r.numGpus) rank step
    rw [deliveredAt_firstSends, ite_self]
  · exact fun rank step hstep => absurd hstep (Nat.not_lt_zero step)
  · intro rank _ step
    exact (deliveredAt_firstSends _ rank step).trans_le (Nat.zero_le _)
  · intro gpu _ step hcame
    exact absurd (deliveredAt_firstSends _ _ step) hcame
  · show 0 = ((Finset.range r.numGpus).filter fun rank => 0 = r.totalSteps).card
    rw [Finset.filter_false_of_mem]
    · rfl
    · intro rank _
      omega
  · refine iff_of_false Bool.false_ne_true ?_
    intro hall
    have : 0 = r.totalSteps := hall 0 (by omega)
    omega
  · show (firstSends r.numGpus).count RingPassObs.completed = 0
    rw [List.count_eq_zero, mem_firstSends]
    rintro ⟨gpu, -, heq⟩
    cases heq
  · intro rank
    show (firstSends r.numGpus).filterMap (RingPassObs.finishedAt rank) = []
    rw [List.filterMap_eq_nil_iff]
    intro e he
    obtain ⟨gpu, -, rfl⟩ := mem_firstSends.mp he
    rfl
  · intro pre e post hlog gpu step heq s hs
    replace hlog : firstSends r.numGpus = pre ++ e :: post := hlog
    have hmem : e ∈ firstSends r.numGpus := hlog ▸ List.mem_append_right _ List.mem_cons_self
    obtain ⟨g, -, rfl⟩ := mem_firstSends.mp hmem
    cases heq
    exact absurd hs (Nat.not_lt_zero s)
  · intro pre e post hlog heq
    replace hlog : firstSends r.numGpus = pre ++ e :: post := hlog
    have hmem : e ∈ firstSends r.numGpus := hlog ▸ List.mem_append_right _ List.mem_cons_self
    obtain ⟨g, -, rfl⟩ := mem_firstSends.mp hmem
    cases heq
  · intro rank _ segment
    exact congrFun (congrFun (holdings_firstSends r own r.numGpus).1 rank) segment
  · intro gpu step hsent
    obtain ⟨g, hg, heq⟩ := mem_firstSends.mp hsent
    cases heq
    exact (holdings_firstSends r own r.numGpus).2 gpu hg
  · rintro rank _ ⟨-, hcovers⟩
    exact absurd (hr.expected_pos rank 0) (Nat.not_lt.mpr hcovers)

/-- What a run is at: the first sends are scheduled, or the collective is going. -/
def Stage (r : RingPass) (own : Nat → Nat → M) (c : RingPassRun) : Prop :=
  c = { ring := r, scheduled := [.triggerInitialSends] } ∨ Going r own c

theorem Stage.exec (h : Stage r own c) (hr : Lawful r) {a : Act} (hen : c.enabled a)
    {c' : RingPassRun} (hex : c.exec a = .ok c') : Stage r own c' := by
  rcases h with rfl | h
  · cases a with
    | fire i =>
        have hi : i = 0 := Nat.lt_one_iff.mp hen
        subst hi
        cases hex
        obtain ⟨bytes, hbytes, heq⟩ := triggerInitialSends_eq r
        right
        show Going r own (triggerInitialSends { ring := r })
        rw [heq]
        exact going_firstSends hr hbytes
    | deliver gpu step bytes packetSize => exact absurd hen.1 List.not_mem_nil
    | receive p packetSize =>
        cases hex
        rw [onPacketReceived_other hen]
        exact .inl rfl
  · right
    cases a with
    | fire i =>
        have hi : i < c.scheduled.length := hen
        unfold RingPassRun.exec at hex
        dsimp only at hex
        rw [List.getElem?_eq_getElem hi] at hex
        cases hex
        cases hevent : c.scheduled[i] with
        | triggerInitialSends =>
            exact absurd (hevent ▸ List.getElem_mem hi) h.kept.initial
        | sendGpuStepData gpu step =>
            exact h.send hr ((List.getElem?_eq_getElem hi).trans (congrArg some hevent))
    | deliver gpu step bytes packetSize =>
        cases hex
        obtain ⟨hsent, hbytes, hfits⟩ := hen
        have hring := h.kept.ring
        subst hring
        exact h.deliver hr hsent hbytes hfits packetSize
    | receive p packetSize =>
        cases hex
        rw [onPacketReceived_other hen]
        exact h

end Runs

theorem lawful_of_initialized (h : RingPass.initialized gathers numGpus dataSize next prev = .ok r)
    (htwo : 2 ≤ numGpus.toNat) (hdata : numGpus.toNat ≤ dataSize.toNat)
    (hembedding : RingEmbedding numGpus.toNat next prev) : Lawful r := by
  obtain ⟨-, hn, hd, -⟩ := RingPass.initialized_fields h
  have hpos : 0 < r.numGpus := by omega
  refine ⟨RingPass.placed_of_initialized h hembedding, by omega, ?_,
    RingPass.segmentBytes_bounds h hpos hdata, RingPass.sum_segmentBytes h hpos hdata, by omega⟩
  have := numGpus.toNat_lt
  omega

theorem stage_invariant {M : Type*} [AddCommMonoid M]
    (h : RingPass.initialized gathers numGpus dataSize next prev = .ok r) (hr : Lawful r)
    (own : Nat → Nat → M) :
    (ringPassMachine gathers numGpus dataSize next prev).Invariant (Stage r own) := by
  refine Machine.Inductive.invariant ⟨?_, ?_⟩
  · rintro c ⟨r', h', rfl⟩
    cases h.symm.trans h'
    left
    have htwo := hr.two
    unfold start
    rw [if_neg hr.data, if_neg (by dsimp only; omega)]
    rfl
  · intro c a c' hc hen hex
    exact hc.exec hr hen hex

end RingPassRun

end ProtoBridge.Collective
