import ProtoBridge.Fabric.Header
import ProtoBridge.Lib.Bytes
import ProtoBridge.Lib.Machine

/-!
# Memory requests

Endpoints send each other reads, writes and responses of memory, with one sequence counter for each destination.
`ProcessMemoryPacket` runs a packet only at its first arrival and acknowledges it at every one. What is sent may
arrive at its destination in any order, late, several times or never.
-/

namespace ProtoBridge.Endpoint

open Lib

/-- The `FabricPacketType` of the packets here. -/
inductive MemoryPacketType
  | memoryRead
  | memoryWrite
  | memoryResp
  deriving DecidableEq

/-- What is read of the `FabricHeader` of such a packet. -/
structure MemoryHeader where
  packetType : MemoryPacketType
  flowId : UInt16
  sequenceNumber : UInt32
  virtualChannel : UInt8
  sourceRank : UInt16
  destRank : UInt16
  payloadSize : UInt32
  deriving DecidableEq

structure MemoryPacket where
  header : MemoryHeader
  payload : List UInt8
  deriving DecidableEq

/-- What a packet was made for. -/
inductive RemoteAccess
  | read (address : UInt64) (size : UInt32)
  | write (address : UInt64) (data : List UInt8)
  | response (data : List UInt8)
  deriving DecidableEq

/-- `MEMORY_FLOW_ID`. -/
def memoryFlowId : UInt16 := 0xFFFF

/-- `MakeSeqKey`. -/
def makeSeqKey (destRank : UInt16) (vcId : UInt8) (flowId : UInt16) : UInt64 :=
  destRank.toUInt64 <<< 24 ||| vcId.toUInt64 <<< 16 ||| flowId.toUInt64

/-- `MakeMemorySeqKey`. -/
def makeMemorySeqKey (destRank : UInt16) : UInt64 := makeSeqKey destRank 0 0 ||| (1 : UInt64) <<< 63

/-- The flow of a packet in the set of those that have arrived. -/
def memoryFlowKey (header : MemoryHeader) : UInt64 :=
  header.virtualChannel.toUInt64 <<< 48 ||| header.flowId.toUInt64 <<< 32 ||| header.sourceRank.toUInt64

/-- The number of `width` bytes in memory, the lowest first. -/
def packNumber (width n : Nat) : List UInt8 := (bytesOf width n).reverse

/-- The number that the first `width` bytes spell. -/
def unpackNumber (width : Nat) (bytes : List UInt8) : Nat := ofBytes (bytes.take width).reverse

/-- The attributes of an endpoint. -/
structure MemoryConfig where
  memoryDevice : Bool := false
  memorySize : UInt64 := 0
  memoryLatency : Nat := 100
  llr : Bool := false
  soTxWindow : UInt32 := 0
  ibgda : Bool := false
  isLocalRank : UInt16 → Bool
  requestCallback : Bool := false
  responseCallback : Bool := false
  receiveCallback : Bool := false

/-- A `SendMemoryResponse` in the simulator; it has no address if its pointer is null. -/
structure DeferredResponse where
  sourceRank : UInt16
  destRank : UInt16
  address : Option UInt64
  size : UInt32
  deriving DecidableEq

/-- What an arrival has done. -/
inductive MemoryOutcome
  | duplicate
  | tooSmall
  | read (notified scheduled : Bool)
  | write (stored : Bool)
  | response (delivered : Bool)
  deriving DecidableEq

/-- A response was scheduled. -/
def MemoryOutcome.schedules : MemoryOutcome → Bool
  | .read _ scheduled => scheduled
  | _ => false

/-- An endpoint. -/
structure MemoryEndpoint where
  nextSeqNum : UInt64 → UInt32 := fun _ => 0
  memoryDelivered : Finset (UInt64 × UInt32) := ∅
  memoryData : List UInt8 := []

/-- `Time::Max()`, in ticks. -/
def MemoryConfig.horizon : Nat := 2 ^ 63 - 1

/-- `SendLlrAckPacket` sends an acknowledgement to a source. -/
def MemoryConfig.acknowledges (c : MemoryConfig) (sourceRank : UInt16) : Bool :=
  (c.llr || c.soTxWindow != 0 || (c.ibgda && !c.isLocalRank sourceRank)) && sourceRank != 0xFFFF

namespace MemoryEndpoint

/-- The endpoint after `StartApplication`. -/
def start (c : MemoryConfig) : MemoryEndpoint :=
  { memoryData := if c.memoryDevice ∧ c.memorySize > 0 then List.replicate c.memorySize.toNat 0 else [] }

/-- The next number to a destination is taken. -/
def takeSeqNum (e : MemoryEndpoint) (destRank : UInt16) : MemoryEndpoint :=
  { e with
    nextSeqNum := Function.update e.nextSeqNum (makeMemorySeqKey destRank)
      (e.nextSeqNum (makeMemorySeqKey destRank) + 1) }

/-- The packet of a type and a payload, with the next number to its destination. -/
def makePacket (e : MemoryEndpoint) (type : MemoryPacketType) (sourceRank destRank : UInt16)
    (payload : List UInt8) : MemoryPacket where
  header :=
    { packetType := type
      flowId := memoryFlowId
      sequenceNumber := e.nextSeqNum (makeMemorySeqKey destRank)
      virtualChannel := 0
      sourceRank
      destRank
      payloadSize := UInt32.ofNat payload.length }
  payload

/-- The payload of a read. -/
def readPayload (address : UInt64) (size : UInt32) : List UInt8 :=
  packNumber 8 address.toNat ++ packNumber 4 size.toNat

/-- The payload of a write. -/
def writePayload (address : UInt64) (data : List UInt8) : List UInt8 := packNumber 8 address.toNat ++ data

/-- What a MEMORY endpoint schedules for a read. -/
def service (e : MemoryEndpoint) (rank sourceRank : UInt16) (address : UInt64) (readSize : UInt32) :
    DeferredResponse :=
  let size := UInt64.ofNat e.memoryData.length
  let availSize := if address < size then min readSize (size - address).toUInt32 else 0
  { sourceRank := rank, destRank := sourceRank
    address := if availSize > 0 then some address else none, size := availSize }

/-- `std::memcpy` into the backing store. -/
def copyInto (memory : List UInt8) (address : Nat) (data : List UInt8) : List UInt8 :=
  memory.take address ++ data ++ memory.drop (address + data.length)

/-- `ProcessMemoryPacket`: the endpoint, a response that is scheduled, what was done, and whether an
acknowledgement was sent. -/
def processMemoryPacket (c : MemoryConfig) (now : Nat) (e : MemoryEndpoint) (packet : MemoryPacket) :
    MemoryEndpoint × Option DeferredResponse × MemoryOutcome × Bool :=
  let header := packet.header
  let deliveredKey := (memoryFlowKey header, header.sequenceNumber)
  let acknowledged := c.acknowledges header.sourceRank
  if deliveredKey ∈ e.memoryDelivered then (e, none, .duplicate, acknowledged)
  else
    let e := { e with memoryDelivered := insert deliveredKey e.memoryDelivered }
    match header.packetType with
    | .memoryRead =>
        if packet.payload.length < 12 then (e, none, .tooSmall, false)
        else
          let address := UInt64.ofNat (unpackNumber 8 packet.payload)
          let readSize := UInt32.ofNat (unpackNumber 4 (packet.payload.drop 8))
          if c.memoryDevice ∧ c.memoryLatency < MemoryConfig.horizon - now then
            (e, some (e.service header.destRank header.sourceRank address readSize),
              .read c.requestCallback true, acknowledged)
          else (e, none, .read c.requestCallback false, acknowledged)
    | .memoryWrite =>
        if packet.payload.length < 8 then (e, none, .tooSmall, false)
        else
          let address := UInt64.ofNat (unpackNumber 8 packet.payload)
          let writeSize := UInt32.ofNat packet.payload.length - 8
          let size := UInt64.ofNat e.memoryData.length
          if c.memoryDevice ∧ e.memoryData ≠ [] ∧ address ≤ size ∧ writeSize.toUInt64 ≤ size - address then
            ({ e with
                memoryData := copyInto e.memoryData address.toNat
                  ((packet.payload.drop 8).take writeSize.toNat) },
              none, .write true, acknowledged)
          else (e, none, .write false, acknowledged)
    | .memoryResp => (e, none, .response (c.responseCallback || c.receiveCallback), acknowledged)

end MemoryEndpoint

/-! ## The fabric -/

/-- What was sent, what has arrived and which reads were answered; the number is the place of a packet on the
wire. -/
inductive MemoryEvent
  | sent (i : Nat)
  | responded (i : Nat)
  | arrived (i : Nat) (outcome : MemoryOutcome) (acknowledged : Bool)
  deriving DecidableEq

/-- Endpoints, everything that was ever sent, and the responses that are scheduled, each with the place of its
read. -/
structure MemoryFabric where
  config : UInt16 → MemoryConfig
  endpoints : UInt16 → MemoryEndpoint
  wire : List (RemoteAccess × MemoryPacket) := []
  deferred : List (Nat × DeferredResponse) := []
  now : Nat := 0
  log : List MemoryEvent := []

/-- Why a send is refused. -/
inductive SendAbort
  | noRoomForAddress (size : UInt32)
  deriving DecidableEq

namespace MemoryFabric

/-- How many packets were sent from one endpoint to another. -/
def countBetween (σ : MemoryFabric) (sourceRank destRank : UInt16) : Nat :=
  σ.wire.countP fun entry =>
    entry.2.header.sourceRank = sourceRank ∧ entry.2.header.destRank = destRank

/-- A packet leaves, now or when it has credits. -/
def emit (σ : MemoryFabric) (request : RemoteAccess) (type : MemoryPacketType) (sourceRank destRank : UInt16)
    (payload : List UInt8) : MemoryFabric :=
  let e := σ.endpoints sourceRank
  { σ with
    endpoints := Function.update σ.endpoints sourceRank (e.takeSeqNum destRank)
    wire := σ.wire ++ [(request, e.makePacket type sourceRank destRank payload)]
    log := σ.log ++ [.sent σ.wire.length] }

/-- `SendMemoryRead`. -/
def sendMemoryRead (σ : MemoryFabric) (sourceRank destRank : UInt16) (address : UInt64) (size : UInt32) :
    MemoryFabric :=
  σ.emit (.read address size) .memoryRead sourceRank destRank (MemoryEndpoint.readPayload address size)

/-- `SendMemoryWrite`. -/
def sendMemoryWrite (σ : MemoryFabric) (sourceRank destRank : UInt16) (address : UInt64) (data : List UInt8) :
    Except SendAbort MemoryFabric :=
  let size := UInt32.ofNat data.length
  if size > 0xFFFFFFFF - 8 then .error (.noRoomForAddress size)
  else .ok (σ.emit (.write address data) .memoryWrite sourceRank destRank
    (MemoryEndpoint.writePayload address data))

/-- `SendMemoryResponse`. -/
def sendMemoryResponse (σ : MemoryFabric) (sourceRank destRank : UInt16) (data : List UInt8) : MemoryFabric :=
  σ.emit (.response data) .memoryResp sourceRank destRank data

/-- `SendMemorySemantic`. -/
def sendMemorySemantic (σ : MemoryFabric) (sourceRank destRank : UInt16) (address : UInt64)
    (data : Option (List UInt8)) (size : UInt32) (accessType : Fabric.MemoryAccessType) :
    Except SendAbort MemoryFabric :=
  match accessType, data with
  | .dmaBulk, some data => σ.sendMemoryWrite sourceRank destRank address data
  | .dmaBulk, none => .ok (σ.sendMemoryRead sourceRank destRank address size)
  | _, none =>
      .ok (σ.emit (.read address size) .memoryRead sourceRank destRank
        (MemoryEndpoint.readPayload address size))
  | _, some data =>
      if size > 0xFFFFFFFF - 8 then .error (.noRoomForAddress size)
      else .ok (σ.emit (.write address data) .memoryWrite sourceRank destRank
        (MemoryEndpoint.writePayload address data))

/-- A packet arrives at its destination. -/
def arrive (σ : MemoryFabric) (i : Nat) (packet : MemoryPacket) : MemoryFabric :=
  let rank := packet.header.destRank
  let (e, response, outcome, acknowledged) :=
    (σ.endpoints rank).processMemoryPacket (σ.config rank) σ.now packet
  { σ with
    endpoints := Function.update σ.endpoints rank e
    deferred := σ.deferred ++ response.toList.map fun d => (i, d)
    log := σ.log ++ [.arrived i outcome acknowledged] }

/-- A response that was scheduled is sent, with what the memory holds by then. -/
def respond (σ : MemoryFabric) (i : Nat) (d : DeferredResponse) : MemoryFabric :=
  let memory := (σ.endpoints d.sourceRank).memoryData
  let σ : MemoryFabric := { σ with log := σ.log ++ [.responded i] }
  σ.sendMemoryResponse d.sourceRank d.destRank
    (match d.address with
      | none => []
      | some address => (memory.drop address.toNat).take d.size.toNat)

end MemoryFabric

/-- A call, an arrival, a response that is due, or time that passes. -/
inductive MemoryFabricAct
  | sendMemoryRead (sourceRank destRank : UInt16) (address : UInt64) (size : UInt32)
  | sendMemoryWrite (sourceRank destRank : UInt16) (address : UInt64) (data : List UInt8)
  | sendMemoryResponse (sourceRank destRank : UInt16) (data : List UInt8)
  | sendMemorySemantic (sourceRank destRank : UInt16) (address : UInt64) (data : Option (List UInt8))
      (size : UInt32) (accessType : Fabric.MemoryAccessType)
  | arrive (i : Nat)
  | respond (k : Nat)
  | advance (time : Nat)

namespace MemoryFabric

/-- Sizes are those of the data, and no pair of endpoints has more than 2^32 packets. -/
def enabled (σ : MemoryFabric) : MemoryFabricAct → Prop
  | .sendMemoryRead sourceRank destRank _ _ => σ.countBetween sourceRank destRank < 2 ^ 32
  | .sendMemoryWrite sourceRank destRank _ data =>
      data.length < 2 ^ 32 ∧ σ.countBetween sourceRank destRank < 2 ^ 32
  | .sendMemoryResponse sourceRank destRank data =>
      data.length < 2 ^ 32 ∧ σ.countBetween sourceRank destRank < 2 ^ 32
  | .sendMemorySemantic sourceRank destRank _ data size _ =>
      (∀ d, data = some d → d.length = size.toNat) ∧ σ.countBetween sourceRank destRank < 2 ^ 32
  | .arrive i => i < σ.wire.length
  | .respond k =>
      ∃ entry, σ.deferred[k]? = some entry ∧ σ.countBetween entry.2.sourceRank entry.2.destRank < 2 ^ 32
  | .advance time => σ.now ≤ time

def exec (σ : MemoryFabric) : MemoryFabricAct → Except SendAbort MemoryFabric
  | .sendMemoryRead sourceRank destRank address size => .ok (σ.sendMemoryRead sourceRank destRank address size)
  | .sendMemoryWrite sourceRank destRank address data => σ.sendMemoryWrite sourceRank destRank address data
  | .sendMemoryResponse sourceRank destRank data => .ok (σ.sendMemoryResponse sourceRank destRank data)
  | .sendMemorySemantic sourceRank destRank address data size accessType =>
      σ.sendMemorySemantic sourceRank destRank address data size accessType
  | .arrive i =>
      match σ.wire[i]? with
      | none => .ok σ
      | some entry => .ok (σ.arrive i entry.2)
  | .respond k =>
      match σ.deferred[k]? with
      | none => .ok σ
      | some (i, d) => .ok ({ σ with deferred := σ.deferred.eraseIdx k }.respond i d)
  | .advance time => .ok { σ with now := time }

end MemoryFabric

/-- Everything that endpoints with these attributes may do. -/
def memoryFabricMachine (config : UInt16 → MemoryConfig) :
    Machine MemoryFabric MemoryFabricAct SendAbort where
  init σ := σ = { config, endpoints := fun rank => .start (config rank) }
  enabled := MemoryFabric.enabled
  exec := MemoryFabric.exec

end ProtoBridge.Endpoint
