import Mathlib.Data.UInt
import ProtoBridge.Fabric.Types

/-!
# The fabric header

`FabricHeader`, with the flag that shares a byte with the virtual lane.
-/

namespace ProtoBridge.Fabric

/-- `FabricType`. -/
inductive FabricType
  | nvlink
  | ethernet
  | hybrid
  | ici
  | hccs
  | xgmi
  | roce
  | ub
  | metaxlink
  deriving DecidableEq

/-- `MemoryAccessType`. -/
inductive MemoryAccessType
  | dmaBulk
  | syncLoadStore
  | asyncUrma
  deriving DecidableEq

/-- `FabricHeader`, as it is constructed. A MAC address is a number below 2^48. -/
structure Header where
  packetType : PacketType := .data
  fabricType : FabricType := .nvlink
  virtualChannel : UInt8 := 0
  virtualLaneByte : UInt8 := 0
  memoryAccessType : MemoryAccessType := .dmaBulk
  flowId : UInt16 := 0
  sequenceNumber : UInt32 := 0
  sourceRank : UInt16 := 0
  destRank : UInt16 := 0
  payloadSize : UInt32 := 0
  creditCount : UInt16 := 0
  protocol : UInt8 := 0
  ttl : UInt8 := 64
  effectiveDataSize : UInt32 := 0
  sourceMac : Nat := 0
  destMac : Nat := 0
  deriving DecidableEq

/-- `IsControlPacket`, of the type. -/
def PacketType.isControl : PacketType → Bool
  | .credit | .ack | .nack | .permanentLoss | .cnp | .rttProbe | .rttResponse | .pfcPause
  | .pfcResume => true
  | _ => false

/-- `IsRetryPacket`, of the type. -/
def PacketType.isRetry : PacketType → Bool
  | .retryRequest | .retryAck => true
  | _ => false

/-- `IsCreditBypassPacket`, of the type. -/
def PacketType.isCreditBypass : PacketType → Bool
  | .allReduce | .allGather => true
  | _ => false

namespace Header

/-- `PROTOCOL_FRAMED_FLAG`. -/
def protocolFramedFlag : UInt8 := 0x80

/-- `GetVirtualLane`. -/
def virtualLane (h : Header) : UInt8 := h.virtualLaneByte &&& ~~~protocolFramedFlag

/-- `SetVirtualLane`. -/
def setVirtualLane (h : Header) (lane : UInt8) : Header :=
  { h with
    virtualLaneByte := (lane &&& ~~~protocolFramedFlag) ||| (h.virtualLaneByte &&& protocolFramedFlag) }

/-- `IsProtocolFramed`. -/
def isProtocolFramed (h : Header) : Bool := h.virtualLaneByte &&& protocolFramedFlag != 0

/-- `SetProtocolFramed`. -/
def setProtocolFramed (h : Header) (framed : Bool) : Header :=
  if framed then { h with virtualLaneByte := h.virtualLaneByte ||| protocolFramedFlag }
  else { h with virtualLaneByte := h.virtualLaneByte &&& ~~~protocolFramedFlag }

end Header

end ProtoBridge.Fabric
