import ProtoBridge.Collective.RingLayout
import ProtoBridge.Collective.Service
import ProtoBridge.Lib.Pump

/-!
# RingBroadcast and RingReduce

Both send the whole data along a chain of ranks, in pieces. The broadcast goes down the ring from the
root to the rank before it; the reduce goes up the ring, from the rank before the root to the root. A
rank on the way sends on what it has received, and holds back what is less than a piece until the data
end. Progress is counted in bytes.
-/

namespace ProtoBridge.Collective

open Lib Fabric

/-- What `Initialize` fixes, of a `RingBroadcast` or a `RingReduce`. -/
structure RingPipe where
  reduces : Bool
  numGpus : Nat
  dataSize : Nat
  pipeChunkSize : Nat
  rootRank : Nat
  ringNext : Nat → Nat
  ringPrev : Nat → Nat

namespace RingPipe

def pipeChunkMin : Nat := 64 * 1024

def pipeChunkMax : Nat := 8 * 1024 * 1024

/-- `Initialize`, with the neighbors that the endpoints are given. -/
def initialized (reduces : Bool) (numGpus : UInt16) (dataSize : UInt64) (rootRank : UInt16)
    (ringNext ringPrev : Nat → Nat) : Except RingAbort RingPipe :=
  if numGpus = 0 then .error .noGpu
  else
    let hops := if numGpus.toNat > 1 then numGpus.toNat - 1 else 1
    .ok
      { reduces
        numGpus := numGpus.toNat
        dataSize := dataSize.toNat
        pipeChunkSize := max pipeChunkMin (min (dataSize.toNat / (32 * hops)) pipeChunkMax)
        rootRank := rootRank.toNat
        ringNext
        ringPrev }

/-- `RingNextOf`. -/
def ringNextOf (p : RingPipe) (gpu : Nat) : Nat :=
  if p.ringNext gpu ≠ RingLayout.noNeighbor then p.ringNext gpu else (gpu + 1) % p.numGpus

/-- `RingPrevOf`. -/
def ringPrevOf (p : RingPipe) (gpu : Nat) : Nat :=
  if p.ringPrev gpu ≠ RingLayout.noNeighbor then p.ringPrev gpu
  else (gpu + p.numGpus - 1) % p.numGpus

/-- The rank that `PumpForward` sends to. -/
def target (p : RingPipe) (gpu : Nat) : Nat :=
  if p.reduces then p.ringPrevOf gpu else p.ringNextOf gpu

/-- `PumpForward` sends nothing: the chain ends here. -/
def Ends (p : RingPipe) (gpu : Nat) : Prop :=
  if p.reduces then gpu = p.rootRank else p.target gpu = p.rootRank

instance (p : RingPipe) (gpu : Nat) : Decidable (p.Ends gpu) :=
  inferInstanceAs (Decidable (if p.reduces then _ else _))

end RingPipe

/-- What happened: a rank sent a piece, bytes of a piece arrived, the completion callback was
called. -/
inductive RingPipeObs
  | sent (src dst bytes : Nat)
  | delivered (src dst bytes : Nat)
  | completed
  deriving DecidableEq

/-- The members that change, all endpoints present. `scheduled` says that the event of
`TriggerInitialSends` is. -/
structure RingPipeRun where
  pipe : RingPipe
  completed : Bool := false
  headRank : Nat := 0
  recvBytes : Nat → Nat := fun _ => 0
  fwdBytes : Nat → Nat := fun _ => 0
  gpuDoneCount : Nat := 0
  scheduled : Bool := false
  log : List RingPipeObs := []

namespace RingPipeRun

/-- `Complete`. -/
def complete (c : RingPipeRun) : RingPipeRun :=
  { c with completed := true, log := c.log ++ [.completed] }

/-- `Start`. -/
def start (c : RingPipeRun) : RingPipeRun :=
  if c.pipe.dataSize = 0 then c.complete else { c with scheduled := true }

/-- The rank that all data are ready at. -/
def source (c : RingPipeRun) : Nat := if c.pipe.reduces then c.headRank else c.pipe.rootRank

/-- What a rank may send on. -/
def ready (c : RingPipeRun) (gpu : Nat) : Nat :=
  if gpu = c.source then c.pipe.dataSize else min (c.recvBytes gpu) c.pipe.dataSize

/-- A piece is sent. -/
def forward (c : RingPipeRun) (gpu chunk : Nat) : RingPipeRun :=
  { c with
    fwdBytes := Function.update c.fwdBytes gpu (c.fwdBytes gpu + chunk)
    log := c.log ++ [.sent gpu (c.pipe.target gpu) chunk] }

/-- `PumpForward`. -/
def pumpForward (c : RingPipeRun) (gpu : Nat) : RingPipeRun :=
  if gpu ≥ c.pipe.numGpus then c
  else if c.pipe.Ends gpu then c
  else
    (pieces c.pipe.pipeChunkSize c.pipe.dataSize (c.ready gpu) (c.fwdBytes gpu)).foldl
      (fun c chunk => c.forward gpu chunk) c

/-- `TriggerInitialSends`. -/
def triggerInitialSends (c : RingPipeRun) : RingPipeRun :=
  if c.pipe.numGpus ≤ 1 then c.complete
  else if c.pipe.reduces then
    let c := { c with headRank := c.pipe.ringPrevOf c.pipe.rootRank }
    c.pumpForward c.headRank
  else c.pumpForward c.pipe.rootRank

/-- The end of `OnPacketReceived` of a `RingBroadcast`. -/
def markReceived (c : RingPipeRun) (destRank : Nat) (wasDone : Bool) : RingPipeRun :=
  if wasDone = false ∧ c.recvBytes destRank ≥ c.pipe.dataSize then
    let c := { c with gpuDoneCount := c.gpuDoneCount + 1 }
    if c.gpuDoneCount ≥ c.pipe.numGpus - 1 then c.complete else c
  else c

/-- `OnPacketReceived`. -/
def onPacketReceived (c : RingPipeRun) (h : Header) (packetSize : UInt32) : RingPipeRun :=
  if h.packetType ≠ .data then c
  else
    let destRank := h.destRank.toNat
    if destRank ≥ c.pipe.numGpus ∨ (c.pipe.reduces = false ∧ destRank = c.pipe.rootRank) ∨
        c.completed then c
    else
      let effectiveSize := if h.effectiveDataSize = 0 then packetSize else h.effectiveDataSize
      let wasDone := decide (c.recvBytes destRank ≥ c.pipe.dataSize)
      let c := { c with
        recvBytes := Function.update c.recvBytes destRank
          (wadd 64 (c.recvBytes destRank) effectiveSize.toNat) }
      if c.pipe.reduces then
        if destRank = c.pipe.rootRank then
          if c.recvBytes destRank ≥ c.pipe.dataSize then c.complete else c
        else c.pumpForward destRank
      else (c.pumpForward destRank).markReceived destRank wasDone

/-- The flow id of all pieces. -/
def flowId : UInt16 := 1

/-- The header of a fragment between two ranks. -/
def fragmentHeader (src dst : Nat) (bytes : UInt32) : Header where
  packetType := .data
  sourceRank := UInt16.ofNat src
  destRank := UInt16.ofNat dst
  flowId := flowId
  effectiveDataSize := bytes

/-- What happens to a started collective. -/
inductive Act
  | trigger
  | deliver (src dst : Nat) (bytes packetSize : UInt32)
  | receive (h : Header) (packetSize : UInt32)

/-- One of these. -/
def exec (c : RingPipeRun) : Act → Except RingAbort RingPipeRun
  | .trigger => .ok (triggerInitialSends { c with scheduled := false })
  | .deliver src dst bytes packetSize =>
      .ok (onPacketReceived { c with log := c.log ++ [.delivered src dst bytes.toNat] }
        (fragmentHeader src dst bytes) packetSize)
  | .receive h packetSize => .ok (c.onPacketReceived h packetSize)

end RingPipeRun

namespace RingPipeObs

/-- The bytes that an event sends from a rank to a rank. -/
def sentOn (src dst : Nat) : RingPipeObs → Nat
  | .sent s d bytes => if s = src ∧ d = dst then bytes else 0
  | _ => 0

/-- The bytes that an event brings from a rank to a rank. -/
def deliveredOn (src dst : Nat) : RingPipeObs → Nat
  | .delivered s d bytes => if s = src ∧ d = dst then bytes else 0
  | _ => 0

end RingPipeObs

namespace RingPipeRun

/-- The bytes that one rank has sent another. -/
def edgeSent (log : List RingPipeObs) (src dst : Nat) : Nat :=
  (log.map (RingPipeObs.sentOn src dst)).sum

/-- Those that have arrived. -/
def edgeDelivered (log : List RingPipeObs) (src dst : Nat) : Nat :=
  (log.map (RingPipeObs.deliveredOn src dst)).sum

/-- Each byte arrives once. Other packets are none of data. -/
def enabled (c : RingPipeRun) : Act → Prop
  | .trigger => c.scheduled = true
  | .deliver src dst bytes _ => bytes ≠ 0 ∧
      edgeDelivered c.log src dst + bytes.toNat ≤ edgeSent c.log src dst
  | .receive h _ => h.packetType ≠ .data

instance (c : RingPipeRun) : (a : Act) → Decidable (c.enabled a)
  | .trigger => inferInstanceAs (Decidable (c.scheduled = true))
  | .deliver _ _ _ _ => inferInstanceAs (Decidable (_ ∧ _))
  | .receive h _ => inferInstanceAs (Decidable (h.packetType ≠ .data))

/-- Nothing is scheduled and nothing in flight. -/
def Quiet (c : RingPipeRun) : Prop :=
  c.scheduled = false ∧ ∀ src dst, edgeDelivered c.log src dst = edgeSent c.log src dst

end RingPipeRun

/-- Every run of an initialized and started collective. -/
def ringPipeMachine (reduces : Bool) (numGpus : UInt16) (dataSize : UInt64) (rootRank : UInt16)
    (next prev : Nat → Nat) : Machine RingPipeRun RingPipeRun.Act RingAbort where
  init c := ∃ p, RingPipe.initialized reduces numGpus dataSize rootRank next prev = .ok p ∧
    c = RingPipeRun.start { pipe := p }
  enabled := RingPipeRun.enabled
  exec := RingPipeRun.exec

instance (reduces : Bool) (numGpus : UInt16) (dataSize : UInt64) (rootRank : UInt16)
    (next prev : Nat → Nat) (c : RingPipeRun) (a : RingPipeRun.Act) :
    Decidable ((ringPipeMachine reduces numGpus dataSize rootRank next prev).enabled c a) :=
  inferInstanceAs (Decidable (c.enabled a))

end ProtoBridge.Collective
