/-!
# Packets of the fabric

What the components above and inside the fabric agree on.
-/

namespace ProtoBridge.Fabric

/-- `FabricPacketType`. -/
inductive PacketType
  | data
  | credit
  | ack
  | nack
  | allReduce
  | allGather
  | allToAll
  | reduceScatter
  | broadcast
  | p2p
  | memoryRead
  | memoryWrite
  | memoryResp
  | retryRequest
  | retryAck
  | permanentLoss
  | cnp
  | rttProbe
  | rttResponse
  | pfcPause
  | pfcResume
  deriving DecidableEq

/-- The value of the enumerator. -/
def PacketType.code : PacketType → UInt8
  | .data => 0
  | .credit => 1
  | .ack => 2
  | .nack => 3
  | .allReduce => 4
  | .allGather => 5
  | .allToAll => 6
  | .reduceScatter => 7
  | .broadcast => 8
  | .p2p => 9
  | .memoryRead => 10
  | .memoryWrite => 11
  | .memoryResp => 12
  | .retryRequest => 13
  | .retryAck => 14
  | .permanentLoss => 15
  | .cnp => 16
  | .rttProbe => 17
  | .rttResponse => 18
  | .pfcPause => 19
  | .pfcResume => 20

end ProtoBridge.Fabric
