import Mathlib.Tactic.IntervalCases
import Mathlib.Data.List.Basic

/-!
# RDMA data model

The vocabulary of `rdma-operation.h`, the limits of `RdmaConfig`, and the records
the operation engine keeps. Addresses, sizes and identifiers are naturals, and
every comparison against `UINT64_MAX` is written out; the contents of a memory
word are `UInt64`, so that an update wraps as in the source.

Left out because nothing modelled reads it: time stamps, bandwidths and the
statistics that are only reported.
-/

namespace ProtoBridge.Rdma

/-- `UINT64_MAX`. -/
def u64Max : Nat := 2 ^ 64 - 1

/-- `Time::Max()`, in ticks. -/
def horizon : Nat := 2 ^ 63 - 1

/-! ## Operations -/

/-- `RdmaOpcode`. -/
inductive Opcode
  | write
  | read
  | send
  | writeImm
  | sendImm
  | fetchAdd
  | compareSwap
  | putSignal
  | signal
  deriving DecidableEq

/-- `RdmaSignalOp`. -/
inductive SignalOp
  | set
  | add
  deriving DecidableEq

/-- `RdmaComparison`. -/
inductive Comparison
  | eq
  | ne
  | gt
  | ge
  | lt
  | le
  deriving DecidableEq

/-- `RdmaPhase`. -/
inductive Phase
  | data
  | request
  | readResponse
  | atomicResponse
  | rnr
  | complete
  deriving DecidableEq

/-- `RdmaHasSourcePayload`. -/
def Opcode.hasSourcePayload : Opcode → Bool
  | .write | .send | .writeImm | .sendImm | .putSignal => true
  | _ => false

/-- `RdmaUsesReadAtomicCredit`. -/
def Opcode.usesReadAtomicCredit : Opcode → Bool
  | .read | .fetchAdd | .compareSwap | .signal => true
  | _ => false

/-- `RdmaNeedsReceive`. -/
def Opcode.needsReceive : Opcode → Bool
  | .send | .sendImm | .writeImm => true
  | _ => false

/-- The operations whose payload lands in the buffer of the posted receive. -/
def Opcode.isSend : Opcode → Bool
  | .send | .sendImm => true
  | _ => false

/-- `Compare`. -/
def Comparison.test (c : Comparison) (actual expected : UInt64) : Bool :=
  match c with
  | .eq => actual == expected
  | .ne => actual != expected
  | .gt => actual > expected
  | .ge => actual ≥ expected
  | .lt => actual < expected
  | .le => actual ≤ expected

/-- `RdmaOperationTag`: the metadata of one packet. -/
structure Tag where
  opcode : Opcode := .write
  phase : Phase := .data
  owner : Nat := 0
  workId : Nat := 0
  requestId : Nat := 0
  bytes : Nat := 0
  offset : Nat := 0
  fragmentOffset : Nat := 0
  localAddress : Nat := 0
  remoteAddress : Nat := 0
  signalAddress : Nat := 0
  signalValue : UInt64 := 1
  operand : UInt64 := 0
  compare : UInt64 := 0
  localKey : Nat := 1
  remoteKey : Nat := 1
  immediate : Nat := 0
  attempt : Nat := 0
  signalOp : SignalOp := .set
  zeroPayload : Bool := true
  success : Bool := true
  deriving DecidableEq

/-- The map key of a work request, `(owner, workId)`. -/
abbrev Key := Nat × Nat

/-- The work request a packet belongs to. -/
def Tag.key (tag : Tag) : Key := (tag.owner, tag.workId)

/-- The word an atomic or a signal updates. -/
def Tag.word (tag : Tag) : Nat :=
  if tag.opcode = .signal then tag.signalAddress else tag.remoteAddress

/-- The packet answers a request of this rank. -/
def Tag.isResponse (tag : Tag) : Bool :=
  tag.phase == .readResponse || tag.phase == .atomicResponse

/-- The tag of a completion that rides on an acknowledgement. -/
def Tag.completed (tag : Tag) (success : Bool) : Tag :=
  { tag with phase := .complete, success := success }

/-- `RdmaRequest`. -/
structure Request where
  opcode : Opcode := .write
  peer : Nat := 0
  bytes : Nat := 0
  localAddress : Nat := 0
  remoteAddress : Nat := 0
  localKey : Nat := 1
  remoteKey : Nat := 1
  operand : UInt64 := 1
  compare : UInt64 := 0
  immediate : Nat := 0
  signalAddress : Nat := 0
  signalValue : UInt64 := 1
  signalOp : SignalOp := .set
  flowId : Nat := 1
  vc : Nat := 0
  deriving DecidableEq

/-- The fields of `RdmaWorkTiming` that identify a work request. -/
structure WorkTiming where
  id : Nat
  requestId : Nat
  offset : Nat := 0
  bytes : Nat
  peer : Nat
  producer : Nat := 0
  qp : Nat := 0
  opcode : Opcode := .write
  deriving DecidableEq

/-- `RdmaReceiveCompletion`. -/
structure ReceiveCompletion where
  receiveId : Nat := 0
  requestId : Nat := 0
  offset : Nat := 0
  peer : Nat := 0
  qp : Nat := 0
  opcode : Opcode := .send
  bytes : Nat := 0
  success : Bool := true
  hasImmediate : Bool := false
  immediate : Nat := 0
  deriving DecidableEq

/-- The fields of `FabricHeader` the engine reads. -/
structure Header where
  data : Bool := true
  sourceRank : Nat := 0
  destRank : Nat := 0
  virtualChannel : Nat := 0
  flowId : Nat := 0
  sequenceNumber : Nat := 0
  effectiveDataSize : Nat := 0
  deriving DecidableEq

/-- `PacketKey`: rank, channel, flow and sequence number. -/
abbrev PacketKey := Nat × Nat × Nat × Nat

/-- `AckKey`. -/
def Header.ackKey (h : Header) : PacketKey :=
  (h.sourceRank, h.virtualChannel, h.flowId, h.sequenceNumber)

/-- `TxKey`. -/
def Header.txKey (h : Header) : PacketKey :=
  (h.destRank, h.virtualChannel, h.flowId, h.sequenceNumber)

/-! ## Configuration -/

/-- `rdmaDataPath`. -/
inductive DataPath
  | host
  | staged
  | gpudirect
  deriving DecidableEq

/-- `pcieModel`. -/
inductive PcieModel
  | bandwidth
  | tlp
  deriving DecidableEq

/-- `rdmaInitiator`. -/
inductive Initiator
  | cpu
  | gpu
  deriving DecidableEq

/-- `RdmaConfig`. Of the latencies, in ticks, only `cpuHandoff`, `batchTimeout` and
`rnrRetry` are looked at. -/
structure Config where
  pcieModel : PcieModel := .bandwidth
  initiator : Initiator := .gpu
  dataPath : DataPath := .gpudirect
  cpuWorkers : Nat := 1
  producers : Nat := 1
  qpsPerPeer : Nat := 1
  queueDepth : Nat := 128
  doorbellBatch : Nat := 1
  cqModeration : Nat := 1
  mtuBytes : Nat := 4096
  mapQpByProducer : Bool := true
  batchTimeout : Nat := 100
  cpuHandoff : Nat := 0
  rnrRetry : Nat := 1000
  stagingChunkBytes : Nat := 65536
  stagingBufferBytes : Nat := 131072
  maxReadAtomic : Nat := 16
  responderDepth : Nat := 16
  receiveQueueDepth : Nat := 128
  rnrRetryLimit : Nat := 7
  deriving DecidableEq

/-- `ProducerCount`. -/
def Config.producerCount (c : Config) : Nat :=
  if c.initiator = .cpu then c.cpuWorkers else c.producers

/-- `RdmaConfig::Validate` on those fields: the first violated limit, by its message. -/
def Config.validate (c : Config) : Except String Unit :=
  if c.maxReadAtomic > 65536 || c.responderDepth == 0 || c.responderDepth > 65536 ||
      c.receiveQueueDepth == 0 || c.receiveQueueDepth > 1048576 || c.rnrRetryLimit > 65536 then
    .error "RDMA read/atomic/receive limits exceed supported bounds"
  else if c.rnrRetry == 0 then
    .error "rdmaRnrRetryNs must be positive"
  else if c.cpuWorkers == 0 || c.cpuWorkers > 65536 then
    .error "RDMA CPU workers must be in [1,65536]"
  else if c.stagingChunkBytes == 0 || c.stagingBufferBytes < c.stagingChunkBytes then
    .error "RDMA staging buffer must hold at least one nonzero staging chunk"
  else if c.producers == 0 || c.qpsPerPeer == 0 || c.queueDepth == 0 then
    .error "RDMA producers, QPs and queue depth must be positive"
  else if c.producers > 65536 || c.qpsPerPeer > 65536 || c.queueDepth > 1048576 then
    .error "RDMA counts exceed supported producer/QP/queue bounds"
  else if c.doorbellBatch == 0 || c.doorbellBatch > c.queueDepth || c.cqModeration == 0 ||
      c.cqModeration > c.queueDepth then
    .error "RDMA doorbell batch and CQ moderation must be in [1, queueDepth]"
  else if c.mtuBytes == 0 || c.mtuBytes > 2 ^ 20 then
    .error "RDMA needs MTU in [1,1048576] B and positive WQE bytes"
  else if c.doorbellBatch > 1 && c.batchTimeout == 0 then
    .error "RDMA batching needs a positive timeout to flush partial batches"
  else .ok ()

/-! ## Words in byte memory -/

/-- `WordBytes`: byte `i` of a little-endian word. -/
def wordByte (value : UInt64) (i : Nat) : UInt8 := (value >>> (8 * i).toUInt64 &&& 255).toUInt8

/-- `WordBytes`. -/
def wordBytes (value : UInt64) : List UInt8 := (List.range 8).map (wordByte value)

/-- The loop of `ReadWord` over eight bytes. -/
def joinWord (byte : Nat → UInt8) : UInt64 :=
  (List.range 8).foldl (fun value i => value ||| (byte i).toUInt64 <<< (8 * i).toUInt64) 0

theorem joinWord_wordByte (value : UInt64) : joinWord (wordByte value) = value := by
  apply UInt64.toBitVec_inj.mp
  apply BitVec.eq_of_getLsbD_eq
  intro i hi
  simp only [joinWord, wordByte, List.range_succ, List.range_zero, List.nil_append, List.cons_append,
    List.foldl_cons, List.foldl_nil, UInt64.toBitVec_or, BitVec.getLsbD_or,
    UInt64.toBitVec_shiftLeft, UInt8.toBitVec_toUInt64, UInt64.toBitVec_toUInt8,
    UInt64.toBitVec_and, UInt64.toBitVec_shiftRight]
  simp only [Nat.toUInt64_eq, mul_zero, mul_one, Nat.reduceMul, UInt64.reduceOfNat,
    UInt64.toBitVec_ofNat, BitVec.ofNat_eq_ofNat, BitVec.reduceMod, BitVec.zero_umod,
    BitVec.shiftLeft_eq', BitVec.ushiftRight_eq', BitVec.toNat_ofNat, Nat.reducePow, Nat.reduceMod,
    Nat.zero_mod, BitVec.getLsbD_shiftLeft, BitVec.getLsbD_setWidth, BitVec.getLsbD_and,
    BitVec.getLsbD_ushiftRight, BitVec.getLsbD_zero, Bool.false_or, hi, decide_true, Bool.true_and,
    Nat.sub_zero, Nat.zero_add]
  -- one bit at a time: bit `i` survives in byte `i / 8` only
  interval_cases i <;> simp

theorem joinWord_congr {f g : Nat → UInt8} (h : ∀ i < 8, f i = g i) : joinWord f = joinWord g := by
  simp only [joinWord, List.range_succ, List.range_zero, List.nil_append, List.cons_append,
    List.foldl_cons, List.foldl_nil]
  rw [h 0 (by omega), h 1 (by omega), h 2 (by omega), h 3 (by omega), h 4 (by omega), h 5 (by omega),
    h 6 (by omega), h 7 (by omega)]

end ProtoBridge.Rdma
