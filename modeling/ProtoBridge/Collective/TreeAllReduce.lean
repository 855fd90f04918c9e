import ProtoBridge.Collective.Service
import ProtoBridge.Lib.Heap
import ProtoBridge.Lib.Pump

/-!
# TreeAllReduce

The ranks are a heap-shaped tree. The data go up the tree, where a rank sends on what it has got from all
its children, and down again from the root, both in pieces and at the same time. A piece is paced: it is
sent at once or an event of its own sends it. Progress is counted in bytes for each edge.
-/

namespace ProtoBridge.Collective

open Lib Fabric

/-- What `Initialize` and the setters fix. -/
structure TreeAllReduce where
  numGpus : Nat
  dataSize : Nat
  pipeChunkSize : Nat
  depth : Nat
  perStepSwOverheadNs : Nat
  swOverheadPerByteNs : Nat

/-- `NS_ABORT_MSG_IF` of `Initialize`. -/
inductive TreeAbort
  | noGpu
  deriving DecidableEq

namespace TreeAllReduce

def noRank : Nat := 65535

def pipeChunkMin : Nat := 64 * 1024

def pipeChunkMax : Nat := 8 * 1024 * 1024

/-- `GetTreeDepth`. -/
def getTreeDepth (numGpus : Nat) : Nat := if halvings numGpus = 0 then 1 else halvings numGpus

/-- `Initialize`, behind `SetPerStepSwOverhead` and `SetSwOverheadPerByteNs`. -/
def initialized (numGpus : UInt16) (dataSize perStepSwOverheadNs swOverheadPerByteNs : UInt64) :
    Except TreeAbort TreeAllReduce :=
  if numGpus = 0 then .error .noGpu
  else
    let depth := getTreeDepth numGpus.toNat
    .ok
      { numGpus := numGpus.toNat
        dataSize := dataSize.toNat
        pipeChunkSize := max pipeChunkMin (min (dataSize.toNat / (32 * depth)) pipeChunkMax)
        depth
        perStepSwOverheadNs := perStepSwOverheadNs.toNat
        swOverheadPerByteNs := swOverheadPerByteNs.toNat }

/-- `GetParent`. -/
def getParent (gpu : Nat) : Nat :=
  if gpu = noRank then noRank else if gpu = 0 then noRank else heapParent gpu

/-- `GetLeftChild`. -/
def getLeftChild (t : TreeAllReduce) (gpu : Nat) : Nat :=
  let child := (2 * gpu + 1) % 2 ^ 16
  if child < t.numGpus then child else noRank

/-- `GetRightChild`. -/
def getRightChild (t : TreeAllReduce) (gpu : Nat) : Nat :=
  let child := (2 * gpu + 2) % 2 ^ 16
  if child < t.numGpus then child else noRank

/-- The walk of `GetTreeLevel`, of at most `guard` steps. -/
def walk : Nat → Nat → Nat
  | 0, _ => 0
  | guard + 1, g =>
      if g ≠ noRank ∧ getParent g ≠ noRank then walk guard (getParent g) + 1 else 0

/-- `GetTreeLevel`. -/
def getTreeLevel (t : TreeAllReduce) (gpu : Nat) : Nat := walk (t.numGpus + 1) gpu

end TreeAllReduce

/-- The flows `FLOW_UP` and `FLOW_DOWN`. -/
inductive TreeFlow
  | up
  | down
  deriving DecidableEq

/-- A scheduled event. -/
inductive TreeEvent
  | triggerInitialSends
  | doSend (gpu target bytes : Nat)
  deriving DecidableEq

/-- What happened: a rank sent a piece, bytes of a piece arrived, a step was logged, the completion
callback was called. -/
inductive TreeObs
  | sent (src dst bytes : Nat)
  | delivered (src dst bytes : Nat)
  | stepComplete (gpu step : Nat)
  | completed
  deriving DecidableEq

/-- The members that change, all endpoints present. What a rank has sent, and when it may send again, has
the flow for an index. -/
structure TreeRun where
  tree : TreeAllReduce
  completed : Bool := false
  upRecvFromChild : Nat → Nat := fun _ => 0
  downRecv : Nat → Nat := fun _ => 0
  sentBytes : TreeFlow × Nat → Nat := fun _ => 0
  nextFreeNs : TreeFlow × Nat → Nat := fun _ => 0
  upDone : Nat → Bool := fun _ => false
  downDone : Nat → Bool := fun _ => false
  gpuDoneCount : Nat := 0
  scheduled : List TreeEvent := []
  log : List TreeObs := []

namespace TreeRun

/-- `Complete`. -/
def complete (c : TreeRun) : TreeRun := { c with completed := true, log := c.log ++ [.completed] }

/-- `Start`. -/
def start (c : TreeRun) : TreeRun :=
  if c.tree.dataSize = 0 then c.complete
  else { c with scheduled := c.scheduled ++ [.triggerInitialSends] }

/-- `UpReadyBytes`. -/
def upReadyBytes (c : TreeRun) (gpu : Nat) : Nat :=
  let left := c.tree.getLeftChild gpu
  let right := c.tree.getRightChild gpu
  let ready := c.tree.dataSize
  let ready := if left ≠ TreeAllReduce.noRank then min ready (c.upRecvFromChild left) else ready
  if right ≠ TreeAllReduce.noRank then min ready (c.upRecvFromChild right) else ready

/-- `PacedSendDelayNs`: the delay, and when the flow may send again. -/
def pacedSendDelayNs (t : TreeAllReduce) (now nextFreeNs : Nat) (firstOfFlow : Bool) (bytes : Nat) :
    Nat × Nat :=
  let sendAt := max now nextFreeNs
  let sendAt := if firstOfFlow then wadd 64 sendAt t.perStepSwOverheadNs else sendAt
  let sendAt := wadd 64 sendAt (t.swOverheadPerByteNs * bytes % 2 ^ 64)
  (wsub 64 sendAt now, sendAt)

/-- `DoSend`. -/
def doSend (c : TreeRun) (gpu target bytes : Nat) : TreeRun :=
  { c with log := c.log ++ [.sent gpu target bytes] }

/-- `ScheduleOrSend`. -/
def scheduleOrSend (c : TreeRun) (gpu target bytes delayNs : Nat) : TreeRun :=
  if delayNs = 0 then c.doSend gpu target bytes
  else { c with scheduled := c.scheduled ++ [.doSend gpu target bytes] }

/-- A round of the loop of `PumpUp` or `PumpDown`. -/
def sendChunk (now : Nat) (flow : TreeFlow) (gpu : Nat) (targets : List Nat) (c : TreeRun)
    (chunk : Nat) : TreeRun :=
  let paced := pacedSendDelayNs c.tree now (c.nextFreeNs (flow, gpu)) (c.sentBytes (flow, gpu) = 0) chunk
  let c := { c with nextFreeNs := Function.update c.nextFreeNs (flow, gpu) paced.2 }
  let c := targets.foldl (fun c target => c.scheduleOrSend gpu target chunk paced.1) c
  { c with sentBytes := Function.update c.sentBytes (flow, gpu) (c.sentBytes (flow, gpu) + chunk) }

/-- The loop of `PumpUp` or `PumpDown`. -/
def pump (c : TreeRun) (now : Nat) (flow : TreeFlow) (gpu : Nat) (targets : List Nat) (ready : Nat) :
    TreeRun :=
  (pieces c.tree.pipeChunkSize c.tree.dataSize ready (c.sentBytes (flow, gpu))).foldl
    (sendChunk now flow gpu targets) c

/-- `PumpUp`. -/
def pumpUp (c : TreeRun) (now gpu : Nat) : TreeRun :=
  let parent := TreeAllReduce.getParent gpu
  if parent = TreeAllReduce.noRank then c else c.pump now .up gpu [parent] (c.upReadyBytes gpu)

/-- What a rank may send down. -/
def downReadyBytes (c : TreeRun) (gpu : Nat) : Nat :=
  if gpu = 0 then c.upReadyBytes 0 else min (c.downRecv gpu) c.tree.dataSize

/-- `PumpDown`. -/
def pumpDown (c : TreeRun) (now gpu : Nat) : TreeRun :=
  let left := c.tree.getLeftChild gpu
  let right := c.tree.getRightChild gpu
  if left = TreeAllReduce.noRank ∧ right = TreeAllReduce.noRank then c
  else
    let targets := if right ≠ TreeAllReduce.noRank then [left, right] else [left]
    c.pump now .down gpu targets (c.downReadyBytes gpu)

/-- `TriggerInitialSends`. -/
def triggerInitialSends (c : TreeRun) (now : Nat) : TreeRun :=
  if c.tree.numGpus ≤ 1 then complete { c with gpuDoneCount := c.tree.numGpus }
  else
    (List.range' 1 (c.tree.numGpus - 1)).foldl (fun c gpu =>
      if c.tree.getLeftChild gpu = TreeAllReduce.noRank ∧
          c.tree.getRightChild gpu = TreeAllReduce.noRank then c.pumpUp now gpu
      else c) c

/-- `MarkGpuDone` and `CheckGlobalCompletion`. -/
def markGpuDone (c : TreeRun) : TreeRun :=
  let c := { c with gpuDoneCount := c.gpuDoneCount + 1 }
  if c.gpuDoneCount ≥ c.tree.numGpus then c.complete else c

/-- `LogStepComplete`, with the conversion of the step to its parameter. -/
def logStepComplete (c : TreeRun) (gpu : Nat) (step : Int) : TreeRun :=
  { c with log := c.log ++ [.stepComplete gpu (step % 2 ^ 32).toNat] }

/-- The end of `OnPacketReceived` for a packet of the parent. -/
def finishDown (c : TreeRun) (destRank : Nat) : TreeRun :=
  if c.downDone destRank = false ∧ c.downRecv destRank ≥ c.tree.dataSize then
    let c := { c with downDone := Function.update c.downDone destRank true }
    (c.logStepComplete destRank (c.tree.depth + c.tree.getTreeLevel destRank - 1)).markGpuDone
  else c

/-- The end of `OnPacketReceived` for a packet of a child. -/
def finishUp (c : TreeRun) (destRank : Nat) : TreeRun :=
  if c.upDone destRank = false ∧ c.upReadyBytes destRank ≥ c.tree.dataSize then
    let c := { c with upDone := Function.update c.upDone destRank true }
    let c := c.logStepComplete destRank (c.tree.depth - 1 - c.tree.getTreeLevel destRank)
    if destRank = 0 then c.markGpuDone else c
  else c

/-- `OnPacketReceived`. -/
def onPacketReceived (c : TreeRun) (now : Nat) (h : Header) (packetSize : UInt32) : TreeRun :=
  if h.packetType ≠ .data then c
  else
    let sender := h.sourceRank.toNat
    let destRank := h.destRank.toNat
    if destRank ≥ c.tree.numGpus ∨ c.completed then c
    else
      let effectiveSize := if h.effectiveDataSize = 0 then packetSize else h.effectiveDataSize
      if sender = TreeAllReduce.getParent destRank then
        let c := { c with
          downRecv := Function.update c.downRecv destRank
            (wadd 64 (c.downRecv destRank) effectiveSize.toNat) }
        (c.pumpDown now destRank).finishDown destRank
      else if sender = c.tree.getLeftChild destRank ∨ sender = c.tree.getRightChild destRank then
        let c := { c with
          upRecvFromChild := Function.update c.upRecvFromChild sender
            (wadd 64 (c.upRecvFromChild sender) effectiveSize.toNat) }
        (if destRank = 0 then c.pumpDown now 0 else c.pumpUp now destRank).finishUp destRank
      else c

/-- The header of a fragment between two ranks. -/
def fragmentHeader (src dst : Nat) (bytes : UInt32) : Header where
  packetType := .data
  sourceRank := UInt16.ofNat src
  destRank := UInt16.ofNat dst
  effectiveDataSize := bytes

/-- What happens to a started collective, and when. -/
inductive Act
  | fire (now i : Nat)
  | deliver (now src dst : Nat) (bytes packetSize : UInt32)
  | receive (now : Nat) (h : Header) (packetSize : UInt32)

/-- A scheduled event runs. -/
def run (c : TreeRun) (now : Nat) : TreeEvent → TreeRun
  | .triggerInitialSends => c.triggerInitialSends now
  | .doSend gpu target bytes => c.doSend gpu target bytes

/-- One of these. -/
def exec (c : TreeRun) : Act → Except TreeAbort TreeRun
  | .fire now i =>
      match c.scheduled[i]? with
      | some e => .ok (run { c with scheduled := c.scheduled.eraseIdx i } now e)
      | none => .ok c
  | .deliver now src dst bytes packetSize =>
      .ok (onPacketReceived { c with log := c.log ++ [.delivered src dst bytes.toNat] } now
        (fragmentHeader src dst bytes) packetSize)
  | .receive now h packetSize => .ok (c.onPacketReceived now h packetSize)

end TreeRun

namespace TreeObs

/-- The bytes that an event sends from a rank to a rank. -/
def sentOn (src dst : Nat) : TreeObs → Nat
  | .sent s d bytes => if s = src ∧ d = dst then bytes else 0
  | _ => 0

/-- The bytes that an event brings from a rank to a rank. -/
def deliveredOn (src dst : Nat) : TreeObs → Nat
  | .delivered s d bytes => if s = src ∧ d = dst then bytes else 0
  | _ => 0

end TreeObs

namespace TreeRun

/-- The bytes that one rank has sent another. -/
def edgeSent (log : List TreeObs) (src dst : Nat) : Nat := (log.map (TreeObs.sentOn src dst)).sum

/-- Those that have arrived. -/
def edgeDelivered (log : List TreeObs) (src dst : Nat) : Nat :=
  (log.map (TreeObs.deliveredOn src dst)).sum

/-- Each byte arrives once. Other packets are none of data. -/
def enabled (c : TreeRun) : Act → Prop
  | .fire _ i => i < c.scheduled.length
  | .deliver _ src dst bytes _ => bytes ≠ 0 ∧
      edgeDelivered c.log src dst + bytes.toNat ≤ edgeSent c.log src dst
  | .receive _ h _ => h.packetType ≠ .data

instance (c : TreeRun) : (a : Act) → Decidable (c.enabled a)
  | .fire _ i => inferInstanceAs (Decidable (i < c.scheduled.length))
  | .deliver _ _ _ _ _ => inferInstanceAs (Decidable (_ ∧ _))
  | .receive _ h _ => inferInstanceAs (Decidable (h.packetType ≠ .data))

/-- Nothing is scheduled and nothing in flight. -/
def Quiet (c : TreeRun) : Prop :=
  c.scheduled = [] ∧ ∀ src dst, edgeDelivered c.log src dst = edgeSent c.log src dst

end TreeRun

/-- Every run of an initialized and started collective, whatever the times. -/
def treeMachine (numGpus : UInt16) (dataSize perStepSwOverheadNs swOverheadPerByteNs : UInt64) :
    Machine TreeRun TreeRun.Act TreeAbort where
  init c := ∃ t, TreeAllReduce.initialized numGpus dataSize perStepSwOverheadNs swOverheadPerByteNs =
    .ok t ∧ c = TreeRun.start { tree := t }
  enabled := TreeRun.enabled
  exec := TreeRun.exec

instance (numGpus : UInt16) (dataSize perStepSwOverheadNs swOverheadPerByteNs : UInt64) (c : TreeRun)
    (a : TreeRun.Act) :
    Decidable ((treeMachine numGpus dataSize perStepSwOverheadNs swOverheadPerByteNs).enabled c a) :=
  inferInstanceAs (Decidable (c.enabled a))

end ProtoBridge.Collective
