import ProtoBridge.Collective.Service
import ProtoBridge.Lib.Grid

/-!
# AlltoAllInjector

Each rank sends each other rank the chunk of the other: one after the other around the ring, all at once,
or all at once over two hops of a grid of ranks. A rank counts the bytes that have come to it, of whatever
step or source, and goes on at each multiple of its chunk. Ranks whose chunk is empty are credited with
all receives when the collective is initialized.
-/

namespace ProtoBridge.Collective

open Lib Fabric
open Function (update)

/-- `AlltoAllMode`, with the grid of `SetTwoDimensionalRouting`. -/
inductive AlltoAllMode
  | ringPipeline
  | concurrent
  | twoDimensional (rows cols : UInt32)
  deriving DecidableEq

/-- `NS_ABORT_MSG_IF` of `Initialize` and `SetTwoDimensionalRouting`. -/
inductive AlltoAllAbort
  | noGpu
  | emptyGrid
  | gridSize
  | tooManyGpus
  deriving DecidableEq

/-- What is fixed before the start. -/
structure AlltoAll where
  mode : AlltoAllMode
  numGpus : Nat
  dataSize : Nat
  chunkSize : Nat
  chunkRemainder : Nat
  totalSteps : Nat

/-- A transfer, with the rank that its chunk comes from and the rank that it is for. -/
structure AlltoAllTransfer where
  origin : Nat
  src : Nat
  dst : Nat
  final : Nat
  flowId : Nat
  deriving DecidableEq

namespace AlltoAll

/-- `ChunkSizeOf`. -/
def chunkSizeOf (a : AlltoAll) (gpu : Nat) : Nat :=
  a.chunkSize + if gpu < a.chunkRemainder then 1 else 0

/-- The first part of `Initialize`. -/
def grid (mode : AlltoAllMode) (numGpus : UInt16) (dataSize : UInt64) : AlltoAll :=
  let chunkSize := dataSize.toNat / numGpus.toNat
  let small := chunkSize = 0 ∧ dataSize.toNat > 0
  { mode
    numGpus := numGpus.toNat
    dataSize := dataSize.toNat
    chunkSize
    chunkRemainder := if small then dataSize.toNat else dataSize.toNat % numGpus.toNat
    totalSteps := numGpus.toNat - 1 }

/-- The checks of `SetTwoDimensionalRouting`. -/
def admits (mode : AlltoAllMode) (numGpus : UInt16) : Except AlltoAllAbort Unit :=
  match mode with
  | .twoDimensional rows cols =>
      if rows = 0 ∨ cols = 0 then .error .emptyGrid
      else if (rows * cols).toNat ≠ numGpus.toNat then .error .gridSize
      else if numGpus ≥ 0x8000 then .error .tooManyGpus
      else .ok ()
  | _ => .ok ()

/-- The transfer of `SendGpuStepData`. -/
def stepTransfer (a : AlltoAll) (gpu step : Nat) : AlltoAllTransfer :=
  let dest := (gpu + step + 1) % a.numGpus
  { origin := gpu, src := gpu, dst := dest, final := dest, flowId := (1 + step) % 2 ^ 16 }

/-- The rank that a chunk goes to first, when it takes two hops. -/
def intermediate (a : AlltoAll) (gpu dest : Nat) : Option Nat :=
  match a.mode with
  | .twoDimensional _ cols =>
      let srcRow := gpu / cols.toNat
      let srcCol := gpu % cols.toNat
      let dstRow := dest / cols.toNat
      let dstCol := dest % cols.toNat
      if srcRow ≠ dstRow ∧ srcCol ≠ dstCol then some ((srcRow * cols.toNat + dstCol) % 2 ^ 16) else none
  | _ => none

/-- The transfer of `SendGpuConcurrentChunk`. -/
def chunkTransfer (a : AlltoAll) (gpu dest : Nat) : AlltoAllTransfer :=
  match a.intermediate gpu dest with
  | some nextHop =>
      { origin := gpu, src := gpu, dst := nextHop, final := dest, flowId := (0x8000 ||| dest) % 2 ^ 16 }
  | none => { origin := gpu, src := gpu, dst := dest, final := dest, flowId := (dest + 1) % 2 ^ 16 }

end AlltoAll

/-- A scheduled event. That of `ForwardTwoDimensionalChunk` has the rank that the chunk comes from, which
the source does not keep. -/
inductive AlltoAllEvent
  | triggerInitialSends
  | triggerConcurrentSends
  | sendGpuStepData (gpu step : Nat)
  | forwardTwoDimensionalChunk (origin intermediate finalDest flowId : Nat)
  deriving DecidableEq

/-- What happened: a transfer was started, bytes of it arrived, the completion callback was called. -/
inductive AlltoAllObs
  | sent (t : AlltoAllTransfer)
  | delivered (t : AlltoAllTransfer) (bytes : Nat)
  | completed
  deriving DecidableEq

/-- The members that change, all endpoints present. A key that `m_firstHopReceivedBytes` does not have
counts as zero bytes. -/
structure AlltoAllRun where
  plan : AlltoAll
  completed : Bool := false
  gpuCompletedStep : Nat → Nat := fun _ => 0
  gpuStepReceivedBytes : Nat → Nat := fun _ => 0
  gpuReceivedBytes : Nat → Nat := fun _ => 0
  gpuSourcesReceived : Nat → Nat := fun _ => 0
  totalCompletedGpus : Nat := 0
  firstHopReceivedBytes : Nat × Nat → Nat := fun _ => 0
  sentDataBytes : Nat := 0
  scheduled : List AlltoAllEvent := []
  log : List AlltoAllObs := []

namespace AlltoAllRun

/-- `Complete`. -/
def complete (c : AlltoAllRun) : AlltoAllRun :=
  { c with completed := true, log := c.log ++ [.completed] }

/-- `Initialize` credits a rank with all its receives. -/
def credit (c : AlltoAllRun) (rank : Nat) : AlltoAllRun :=
  { c with
    gpuSourcesReceived := update c.gpuSourcesReceived rank (c.plan.numGpus - 1)
    gpuCompletedStep := update c.gpuCompletedStep rank c.plan.totalSteps
    totalCompletedGpus := c.totalCompletedGpus + 1 }

/-- The end of `Initialize`. -/
def precredited (a : AlltoAll) : AlltoAllRun :=
  let c : AlltoAllRun := { plan := a }
  let c :=
    if a.chunkSize = 0 ∧ a.chunkRemainder < a.numGpus then
      (List.range a.numGpus).foldl (fun c rank => if a.chunkSizeOf rank = 0 then c.credit rank else c) c
    else c
  let c := if a.numGpus ≤ 1 then (List.range a.numGpus).foldl credit c else c
  if c.totalCompletedGpus ≥ a.numGpus ∧ a.numGpus > 0 then c.complete else c

/-- `Initialize`, and the setter of the mode behind it. -/
def initialized (mode : AlltoAllMode) (numGpus : UInt16) (dataSize : UInt64) :
    Except AlltoAllAbort AlltoAllRun :=
  if numGpus = 0 then .error .noGpu
  else do
    AlltoAll.admits mode numGpus
    return precredited (AlltoAll.grid mode numGpus dataSize)

/-- `Start`. -/
def start (c : AlltoAllRun) : AlltoAllRun :=
  if c.completed then { c with log := c.log ++ [.completed] }
  else
    { c with
      scheduled := c.scheduled ++
        [if c.plan.mode = .ringPipeline then .triggerInitialSends else .triggerConcurrentSends] }

/-- A transfer starts. -/
def send (c : AlltoAllRun) (t : AlltoAllTransfer) : AlltoAllRun :=
  { c with
    sentDataBytes := wadd 64 c.sentDataBytes (c.plan.chunkSizeOf t.final)
    log := c.log ++ [.sent t] }

/-- `SendGpuStepData`. -/
def sendGpuStepData (c : AlltoAllRun) (gpu step : Nat) : AlltoAllRun :=
  c.send (c.plan.stepTransfer gpu step)

/-- `TriggerInitialSends`. -/
def triggerInitialSends (c : AlltoAllRun) : AlltoAllRun :=
  let c := (List.range c.plan.numGpus).foldl (fun c gpu => c.sendGpuStepData gpu 0) c
  (List.range c.plan.numGpus).foldl (fun c gpu =>
    if c.gpuCompletedStep gpu ≥ c.plan.totalSteps then
      (List.range' 1 (c.plan.totalSteps - 1)).foldl (fun c step => c.sendGpuStepData gpu step) c
    else c) c

/-- `SendGpuConcurrentChunk`. -/
def sendGpuConcurrentChunk (c : AlltoAllRun) (gpu dest : Nat) : AlltoAllRun :=
  c.send (c.plan.chunkTransfer gpu dest)

/-- `TriggerConcurrentSends`. -/
def triggerConcurrentSends (c : AlltoAllRun) : AlltoAllRun :=
  (List.range c.plan.numGpus).foldl (fun c gpu =>
    (List.range c.plan.numGpus).foldl (fun c dest =>
      if dest = gpu then c else c.sendGpuConcurrentChunk gpu dest) c) c

/-- `ForwardTwoDimensionalChunk`. -/
def forwardTwoDimensionalChunk (c : AlltoAllRun) (origin intermediate finalDest flowId : Nat) :
    AlltoAllRun :=
  c.send { origin, src := intermediate, dst := finalDest, final := finalDest, flowId }

/-- `CheckGlobalCompletion`, behind one more rank that is done. -/
def checkGlobalCompletion (c : AlltoAllRun) : AlltoAllRun :=
  let c := { c with totalCompletedGpus := c.totalCompletedGpus + 1 }
  if c.totalCompletedGpus ≥ c.plan.numGpus then c.complete else c

/-- `OnGpuStepReceiveComplete`. -/
def onGpuStepReceiveComplete (c : AlltoAllRun) (gpu step : Nat) : AlltoAllRun :=
  if c.gpuCompletedStep gpu ≥ c.plan.totalSteps then c.checkGlobalCompletion
  else { c with scheduled := c.scheduled ++ [.sendGpuStepData gpu (step + 1)] }

/-- A round of the loop of `OnPacketReceived`. -/
def finishStep (c : AlltoAllRun) (destRank : Nat) : AlltoAllRun :=
  let currentStep := c.gpuCompletedStep destRank
  onGpuStepReceiveComplete
    { c with
      gpuStepReceivedBytes := update c.gpuStepReceivedBytes destRank
        (c.gpuStepReceivedBytes destRank - c.plan.chunkSizeOf destRank)
      gpuCompletedStep := update c.gpuCompletedStep destRank (currentStep + 1) }
    destRank currentStep

/-- The loop of `OnPacketReceived`; every round takes a chunk away. -/
def drain (destRank : Nat) : Nat → AlltoAllRun → AlltoAllRun
  | 0, c => c
  | rounds + 1, c =>
      if c.plan.chunkSizeOf destRank > 0 ∧
          c.gpuStepReceivedBytes destRank ≥ c.plan.chunkSizeOf destRank then
        drain destRank rounds (c.finishStep destRank)
      else c

/-- `OnPacketReceived`, for bytes of a first hop. -/
def receiveFirstHop (c : AlltoAllRun) (sourceRank destRank finalDest effectiveSize : Nat) :
    AlltoAllRun :=
  let received := wadd 64 (c.firstHopReceivedBytes (sourceRank, finalDest)) effectiveSize
  if received ≥ c.plan.chunkSizeOf finalDest then
    { c with
      firstHopReceivedBytes := update c.firstHopReceivedBytes (sourceRank, finalDest) 0
      scheduled := c.scheduled ++
        [.forwardTwoDimensionalChunk sourceRank destRank finalDest ((finalDest + 1) % 2 ^ 16)] }
  else
    { c with
      firstHopReceivedBytes := update c.firstHopReceivedBytes (sourceRank, finalDest) received }

/-- `OnPacketReceived`, for bytes of a chunk that is for the rank, all modes but the ring. -/
def receiveChunk (c : AlltoAllRun) (destRank effectiveSize : Nat) : AlltoAllRun :=
  let c := { c with
    gpuReceivedBytes := update c.gpuReceivedBytes destRank
      (wadd 64 (c.gpuReceivedBytes destRank) effectiveSize) }
  if c.gpuReceivedBytes destRank ≥
      c.plan.chunkSizeOf destRank * (c.gpuSourcesReceived destRank + 1) % 2 ^ 64 then
    let c := { c with
      gpuSourcesReceived := update c.gpuSourcesReceived destRank
        (c.gpuSourcesReceived destRank + 1) }
    if c.gpuSourcesReceived destRank ≥ c.plan.numGpus - 1 then c.checkGlobalCompletion else c
  else c

/-- `OnPacketReceived`, for the ring. -/
def receiveStep (c : AlltoAllRun) (destRank effectiveSize : Nat) : AlltoAllRun :=
  let c := { c with
    gpuStepReceivedBytes := update c.gpuStepReceivedBytes destRank
      (wadd 64 (c.gpuStepReceivedBytes destRank) effectiveSize) }
  drain destRank (c.gpuStepReceivedBytes destRank) c

/-- `OnPacketReceived`. -/
def onPacketReceived (c : AlltoAllRun) (h : Header) (packetSize : UInt32) : AlltoAllRun :=
  if h.packetType ≠ .data then c
  else
    let destRank := h.destRank.toNat
    let effectiveSize := if h.effectiveDataSize = 0 then packetSize else h.effectiveDataSize
    match c.plan.mode with
    | .ringPipeline => c.receiveStep destRank effectiveSize.toNat
    | .concurrent => c.receiveChunk destRank effectiveSize.toNat
    | .twoDimensional _ _ =>
        if h.flowId.toNat &&& 0x8000 ≠ 0 then
          c.receiveFirstHop h.sourceRank.toNat destRank (h.flowId.toNat &&& 0x7fff) effectiveSize.toNat
        else c.receiveChunk destRank effectiveSize.toNat

/-- The header of a fragment of a transfer. -/
def fragmentHeader (t : AlltoAllTransfer) (bytes : UInt32) : Header where
  packetType := .data
  sourceRank := UInt16.ofNat t.src
  destRank := UInt16.ofNat t.dst
  flowId := UInt16.ofNat t.flowId
  effectiveDataSize := bytes

/-- What happens to a started collective. -/
inductive Act
  | fire (i : Nat)
  | deliver (t : AlltoAllTransfer) (bytes packetSize : UInt32)
  | receive (h : Header) (packetSize : UInt32)

/-- A scheduled event runs. -/
def run (c : AlltoAllRun) : AlltoAllEvent → AlltoAllRun
  | .triggerInitialSends => c.triggerInitialSends
  | .triggerConcurrentSends => c.triggerConcurrentSends
  | .sendGpuStepData gpu step => c.sendGpuStepData gpu step
  | .forwardTwoDimensionalChunk origin intermediate finalDest flowId =>
      c.forwardTwoDimensionalChunk origin intermediate finalDest flowId

/-- One of these. -/
def exec (c : AlltoAllRun) : Act → Except AlltoAllAbort AlltoAllRun
  | .fire i =>
      match c.scheduled[i]? with
      | some e => .ok (run { c with scheduled := c.scheduled.eraseIdx i } e)
      | none => .ok c
  | .deliver t bytes packetSize =>
      .ok (onPacketReceived { c with log := c.log ++ [.delivered t bytes.toNat] }
        (fragmentHeader t bytes) packetSize)
  | .receive h packetSize => .ok (c.onPacketReceived h packetSize)

end AlltoAllRun

namespace AlltoAllObs

/-- The bytes of a transfer that an event brings. -/
def bytesOf (t : AlltoAllTransfer) : AlltoAllObs → Nat
  | .delivered t' bytes => if t' = t then bytes else 0
  | _ => 0

/-- The bytes that an event sends. -/
def sentBytes (a : AlltoAll) : AlltoAllObs → Nat
  | .sent t => a.chunkSizeOf t.final
  | _ => 0

end AlltoAllObs

namespace AlltoAllRun

/-- The bytes of a transfer that have arrived. -/
def deliveredOf (log : List AlltoAllObs) (t : AlltoAllTransfer) : Nat :=
  (log.map (AlltoAllObs.bytesOf t)).sum

/-- The bytes that were sent. -/
def bytesSent (a : AlltoAll) (log : List AlltoAllObs) : Nat :=
  (log.map (AlltoAllObs.sentBytes a)).sum

/-- A fragment arrives behind the start of its transfer, and each byte arrives once. Other packets are
none of data. -/
def enabled (c : AlltoAllRun) : Act → Prop
  | .fire i => i < c.scheduled.length
  | .deliver t bytes _ => .sent t ∈ c.log ∧ bytes ≠ 0 ∧
      deliveredOf c.log t + bytes.toNat ≤ c.plan.chunkSizeOf t.final
  | .receive h _ => h.packetType ≠ .data

instance (c : AlltoAllRun) : (a : Act) → Decidable (c.enabled a)
  | .fire i => inferInstanceAs (Decidable (i < c.scheduled.length))
  | .deliver _ _ _ => inferInstanceAs (Decidable (_ ∧ _ ∧ _))
  | .receive h _ => inferInstanceAs (Decidable (h.packetType ≠ .data))

/-- Nothing is scheduled, and all bytes of the transfers have arrived. -/
def Quiet (c : AlltoAllRun) : Prop :=
  c.scheduled = [] ∧ ∀ t, .sent t ∈ c.log → deliveredOf c.log t = c.plan.chunkSizeOf t.final

end AlltoAllRun

/-- Every run behind `Initialize`, the setter of the mode, and `Start`. -/
def alltoAllMachine (mode : AlltoAllMode) (numGpus : UInt16) (dataSize : UInt64) :
    Machine AlltoAllRun AlltoAllRun.Act AlltoAllAbort where
  init c := ∃ c₀, AlltoAllRun.initialized mode numGpus dataSize = .ok c₀ ∧ c = c₀.start
  enabled := AlltoAllRun.enabled
  exec := AlltoAllRun.exec

instance (mode : AlltoAllMode) (numGpus : UInt16) (dataSize : UInt64) (c : AlltoAllRun)
    (a : AlltoAllRun.Act) : Decidable ((alltoAllMachine mode numGpus dataSize).enabled c a) :=
  inferInstanceAs (Decidable (c.enabled a))

end ProtoBridge.Collective
