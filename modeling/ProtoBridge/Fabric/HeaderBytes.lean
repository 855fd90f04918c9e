import ProtoBridge.Fabric.Header
import ProtoBridge.Lib.Bytes

/-!
# The header on the wire

`Serialize` writes a header as 39 bytes, and `Deserialize` reads it back.
-/

namespace ProtoBridge.Fabric

open Lib

/-- The type with a value. -/
def PacketType.ofCode (code : UInt8) : Option PacketType :=
  [.data, .credit, .ack, .nack, .allReduce, .allGather, .allToAll, .reduceScatter, .broadcast, .p2p,
    .memoryRead, .memoryWrite, .memoryResp, .retryRequest, .retryAck, .permanentLoss, .cnp,
    .rttProbe, .rttResponse, .pfcPause, .pfcResume].find? fun t => t.code == code

/-- The value of the enumerator. -/
def FabricType.code : FabricType → UInt8
  | .nvlink => 0
  | .ethernet => 1
  | .hybrid => 2
  | .ici => 3
  | .hccs => 4
  | .xgmi => 5
  | .roce => 6
  | .ub => 7
  | .metaxlink => 8

/-- The type with a value. -/
def FabricType.ofCode (code : UInt8) : Option FabricType :=
  [.nvlink, .ethernet, .hybrid, .ici, .hccs, .xgmi, .roce, .ub, .metaxlink].find?
    fun t => t.code == code

/-- The value of the enumerator. -/
def MemoryAccessType.code : MemoryAccessType → UInt8
  | .dmaBulk => 0
  | .syncLoadStore => 1
  | .asyncUrma => 2

/-- The type with a value. -/
def MemoryAccessType.ofCode (code : UInt8) : Option MemoryAccessType :=
  [.dmaBulk, .syncLoadStore, .asyncUrma].find? fun t => t.code == code

@[simp] theorem PacketType.ofCode_code (t : PacketType) : ofCode t.code = some t := by
  cases t <;> rfl

@[simp] theorem FabricType.ofCode_code (t : FabricType) : ofCode t.code = some t := by
  cases t <;> rfl

@[simp] theorem MemoryAccessType.ofCode_code (t : MemoryAccessType) : ofCode t.code = some t := by
  cases t <;> rfl

namespace Header

/-- `Serialize`. -/
def serialize (h : Header) : List UInt8 :=
  bytesOf 1 h.packetType.code.toNat ++ (bytesOf 1 h.fabricType.code.toNat ++
    (bytesOf 1 h.virtualChannel.toNat ++ (bytesOf 1 h.virtualLaneByte.toNat ++
    (bytesOf 1 h.memoryAccessType.code.toNat ++ (bytesOf 2 h.flowId.toNat ++
    (bytesOf 4 h.sequenceNumber.toNat ++ (bytesOf 2 h.sourceRank.toNat ++
    (bytesOf 2 h.destRank.toNat ++ (bytesOf 4 h.payloadSize.toNat ++
    (bytesOf 2 h.creditCount.toNat ++ (bytesOf 1 h.protocol.toNat ++ (bytesOf 1 h.ttl.toNat ++
    (bytesOf 4 h.effectiveDataSize.toNat ++
    (bytesOf 6 h.sourceMac ++ (bytesOf 6 h.destMac ++ [])))))))))))))))

/-- `Deserialize`. The types of a header are those that have a name. -/
def deserialize (bytes : List UInt8) : Option Header := do
  let (packetType, bytes) ← readBytes 1 bytes
  let (fabricType, bytes) ← readBytes 1 bytes
  let (virtualChannel, bytes) ← readBytes 1 bytes
  let (virtualLaneByte, bytes) ← readBytes 1 bytes
  let (memoryAccessType, bytes) ← readBytes 1 bytes
  let (flowId, bytes) ← readBytes 2 bytes
  let (sequenceNumber, bytes) ← readBytes 4 bytes
  let (sourceRank, bytes) ← readBytes 2 bytes
  let (destRank, bytes) ← readBytes 2 bytes
  let (payloadSize, bytes) ← readBytes 4 bytes
  let (creditCount, bytes) ← readBytes 2 bytes
  let (protocol, bytes) ← readBytes 1 bytes
  let (ttl, bytes) ← readBytes 1 bytes
  let (effectiveDataSize, bytes) ← readBytes 4 bytes
  let (sourceMac, bytes) ← readBytes 6 bytes
  let (destMac, _) ← readBytes 6 bytes
  let packetType ← PacketType.ofCode (UInt8.ofNat packetType)
  let fabricType ← FabricType.ofCode (UInt8.ofNat fabricType)
  let memoryAccessType ← MemoryAccessType.ofCode (UInt8.ofNat memoryAccessType)
  return {
    packetType
    fabricType
    virtualChannel := UInt8.ofNat virtualChannel
    virtualLaneByte := UInt8.ofNat virtualLaneByte
    memoryAccessType
    flowId := UInt16.ofNat flowId
    sequenceNumber := UInt32.ofNat sequenceNumber
    sourceRank := UInt16.ofNat sourceRank
    destRank := UInt16.ofNat destRank
    payloadSize := UInt32.ofNat payloadSize
    creditCount := UInt16.ofNat creditCount
    protocol := UInt8.ofNat protocol
    ttl := UInt8.ofNat ttl
    effectiveDataSize := UInt32.ofNat effectiveDataSize
    sourceMac
    destMac }

/-- A header with its addresses in 48 bits. -/
def clip (h : Header) : Header :=
  { h with sourceMac := h.sourceMac % 2 ^ 48, destMac := h.destMac % 2 ^ 48 }

theorem length_serialize (h : Header) : h.serialize.length = 39 := by
  simp [serialize]

theorem deserialize_serialize (h : Header) : deserialize h.serialize = some h.clip := by
  have byte (x : UInt8) : UInt8.ofNat (x.toNat % 256 ^ 1) = x := by
    rw [Nat.mod_eq_of_lt (show x.toNat < 256 ^ 1 from x.toNat_lt), UInt8.ofNat_toNat]
  have short (x : UInt16) : UInt16.ofNat (x.toNat % 256 ^ 2) = x := by
    rw [Nat.mod_eq_of_lt (show x.toNat < 256 ^ 2 from x.toNat_lt), UInt16.ofNat_toNat]
  have long (x : UInt32) : UInt32.ofNat (x.toNat % 256 ^ 4) = x := by
    rw [Nat.mod_eq_of_lt (show x.toNat < 256 ^ 4 from x.toNat_lt), UInt32.ofNat_toNat]
  rw [deserialize, serialize]
  iterate 16
    rw [readBytes_bind]
    dsimp only
  rw [byte, byte, byte, PacketType.ofCode_code, FabricType.ofCode_code,
    MemoryAccessType.ofCode_code, byte, byte, byte, byte, short, short, short, short, long, long,
    long]
  rfl

end Header

end ProtoBridge.Fabric
