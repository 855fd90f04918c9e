import ProtoBridge.Fabric.Header
import ProtoBridge.Lib.Machine
import ProtoBridge.Lib.Word

/-!
# Bulk transfers and the scale-out window

`SendBulkWireTransferSizeImpl` cuts a transfer into fragments. Without a window it sends
them at once, and from the first one that the gate does not admit it queues the rest;
with a window it queues descriptors, which `PumpBulkTxWindow` dispatches as slots become
free. A slot is held until the fragment is acknowledged or lost. Packets of the RDMA
operation engine hold slots of the same window.

What is behind the gate and the device (credits, pauses, the send queue, the pacers) is
in `World`; no result here depends on it.
-/

namespace ProtoBridge.Endpoint

open Lib Fabric

/-- A stream of packets. `MakeSeqKey` writes the three parts side by side into one number. -/
structure FlowKey where
  destRank : UInt16
  vcId : UInt8
  flowId : UInt16
  deriving DecidableEq

/-- What an endpoint knows of itself and of the ranks it sends to. -/
structure Nic where
  rank : UInt16
  address : Nat
  localRankBase : UInt16
  localRankCount : UInt16
  fabricType : FabricType
  interNodeFabricType : FabricType
  neighborMacTable : UInt16 → Option Nat
  routingDevicesTable : UInt16 → Option (List UInt32)
  laneGroups : UInt32 → Option (List UInt32)
  routingTable : UInt16 → Option UInt32
  /-- `m_devices.size()`. -/
  deviceCount : Nat := 1

namespace Nic

/-- `IsLocalRank`. -/
def isLocalRank (nic : Nic) (rank : UInt16) : Bool :=
  nic.localRankBase.toNat ≤ rank.toNat ∧
    rank.toNat < nic.localRankBase.toNat + nic.localRankCount.toNat

/-- `GetFabricTypeForDest`. -/
def fabricTypeForDest (nic : Nic) (destRank : UInt16) : FabricType :=
  if nic.isLocalRank destRank then nic.fabricType else nic.interNodeFabricType

/-- `ResolveDestMac`. -/
def resolveDestMac (nic : Nic) (destRank : UInt16) : Nat :=
  (nic.neighborMacTable destRank).getD (2 ^ 48 - 1)

/-- `UINT32_MAX`: no device is chosen yet. -/
def anyDevice : UInt32 := 0xffffffff

/-- `GetPhysicalDevicesForDest`. -/
def physicalDevicesForDest (nic : Nic) (destRank : UInt16) : List UInt32 :=
  match (nic.routingDevicesTable destRank).filter fun devices => devices.length > 1 with
  | some devices => devices
  | none =>
      let logicalDevIdx := (nic.routingTable destRank).getD anyDevice
      match (nic.laneGroups logicalDevIdx).filter fun devices => devices.length > 1 with
      | some devices => devices
      | none => [logicalDevIdx]

theorem physicalDevicesForDest_ne_nil (nic : Nic) (destRank : UInt16) :
    nic.physicalDevicesForDest destRank ≠ [] := by
  have many {devices : List UInt32} {o : Option (List UInt32)}
      (h : o.filter (fun devices => devices.length > 1) = some devices) : devices ≠ [] := by
    rintro rfl
    simp [Option.filter_eq_some_iff] at h
  rw [physicalDevicesForDest]
  split
  · rename_i h
    exact many h
  · dsimp only
    split
    · rename_i h
      exact many h
    · exact List.cons_ne_nil _ _

end Nic

/-- An endpoint none of whose destinations is local. -/
def loneNic : Nic :=
  { rank := 0
    address := 1
    localRankBase := 0
    localRankCount := 0
    fabricType := .nvlink
    interNodeFabricType := .roce
    neighborMacTable := fun _ => none
    routingDevicesTable := fun _ => none
    laneGroups := fun _ => none
    routingTable := fun _ => none }

/-- `SoHeader`. -/
structure SoHeader where
  protocolId : UInt8
  ecn : Bool
  dataSize : UInt32
  chunkIndex : UInt32
  deriving DecidableEq

/-- `SoHeader::GetSerializedSize`. -/
def soHeaderSize : UInt32 := 10

/-- `RoceProtocol::SIMPLE`. -/
def roceSimple : UInt8 := 1

/-- A packet: its header, the header within its body, and the zero bytes behind. -/
structure FabricPacket where
  header : Header
  soHeader : Option SoHeader := none
  zeros : UInt32
  ibgdaWorkId : UInt64 := 0
  deriving DecidableEq

/-- `BulkTxChunk`. -/
structure BulkTxChunk where
  destRank : UInt16
  flowId : UInt16
  vcId : UInt8
  protocolId : UInt8
  wireChunk : UInt32
  fragmentDataSize : UInt32
  chunkIndex : UInt32
  deviceIndex : UInt32
  stamp : Bool
  ibgdaWorkId : UInt64
  deriving DecidableEq

/-- The flow of a chunk. -/
def BulkTxChunk.key (c : BulkTxChunk) : FlowKey := ⟨c.destRank, c.vcId, c.flowId⟩

/-- A packet of the RDMA operation engine that waits for a slot; `frame` is the packet, for the
number it is sent under. -/
structure PendingPacket where
  key : FlowKey
  frame : UInt32 → FabricPacket

/-- What is behind the send paths. -/
structure World (γ : Type) where
  flowControlGate : UInt8 → UInt32 → Bool → γ → γ × Bool
  sendPacketOnDevice : FabricPacket → UInt32 → γ → γ × Bool
  pushSendQueue : FabricPacket → UInt32 → γ → γ
  trySendQueuedPackets : γ → γ

/-- Everything is admitted, and goes out at once. -/
def openWorld : World Unit :=
  { flowControlGate := fun _ _ _ γ => (γ, true)
    sendPacketOnDevice := fun _ _ γ => (γ, true)
    pushSendQueue := fun _ _ γ => γ
    trySendQueuedPackets := fun γ => γ }

/-- What happened on the way. -/
inductive BulkObs
  | numbered (key : FlowKey) (seqNum : UInt32)
  | enqueued (c : BulkTxChunk)
  | dispatched (c : BulkTxChunk) (packet : FabricPacket)
  | operated (key : FlowKey) (seqNum : UInt32)
  | sent (packet : FabricPacket) (deviceIndex : UInt32)
  | queued (packet : FabricPacket) (deviceIndex : UInt32)
  | took (key : FlowKey) (seqNum : UInt32)
  | released (key : FlowKey) (seqNum : UInt32)
  deriving DecidableEq

/-- The part of a `FabricEndpoint` that bulk transfers read and write. -/
structure BulkEndpoint (γ : Type) where
  nextSeqNum : FlowKey → UInt32 := fun _ => 0
  globalSprayOffset : UInt32 := 0
  soTxWindow : UInt32 := 0
  bulkTxInflight : UInt32 := 0
  bulkTxQueue : List BulkTxChunk := []
  bulkTxWindowSeqs : Finset (FlowKey × UInt32) := ∅
  rdmaTxQueue : List PendingPacket := []
  world : γ
  log : List BulkObs := []

/-- The largest fragment of a bulk transfer, as `SetBulkChunkSize` leaves it. -/
structure BulkChunkSize where
  bytes : UInt32
  pos : 0 < bytes.toNat
  le : bytes.toNat ≤ 2 ^ 30
  deriving DecidableEq

/-- The largest size there is. -/
def BulkChunkSize.ceiling : BulkChunkSize := ⟨1073741824, by decide, by decide⟩

/-- `SetBulkChunkSize`; a size of zero aborts. -/
def setBulkChunkSize (bytes : UInt32) : Option BulkChunkSize :=
  if h : 0 < bytes.toNat then
    if hle : bytes.toNat ≤ 2 ^ 30 then some ⟨bytes, h, hle⟩
    else some .ceiling
  else none

/-- The arguments of `SendBulkWireTransferSizeImpl`, and what it has worked out when it starts to
cut: the protocol, the bytes on the wire, the cap of a fragment, and whether it stamps. For a work of
the submission model the cap is the smaller of the bulk chunk size and the MTU. -/
structure BulkTransfer where
  destRank : UInt16
  flowId : UInt16
  vcId : UInt8
  protocolId : UInt8
  dataSize : Nat
  wireSize : Nat
  chunkLimit : BulkChunkSize
  stampSoHeader : Bool
  activeIbgdaWork : UInt64 := 0
  deriving DecidableEq

/-- The flow of a transfer. -/
def BulkTransfer.key (t : BulkTransfer) : FlowKey := ⟨t.destRank, t.vcId, t.flowId⟩

/-- The reasons to abort. -/
inductive BulkFault
  | cannotBeServiced
  | zeroWireLedger
  | wireLedgerBelowData
  deriving DecidableEq

/-- A ceiling division of 64-bit numbers, as the source writes it. -/
def ceilDiv64 (a b : Nat) : Nat := wsub 64 (wadd 64 a b) 1 / b

/-- A product of 64-bit numbers. -/
def mul64 (a b : Nat) : Nat := a * b % 2 ^ 64

namespace BulkTransfer

/-- Whether the transfer is cut, over these devices. -/
def needFragment (t : BulkTransfer) (devices : List UInt32) : Bool :=
  devices.length > 1 ∨ t.wireSize > t.chunkLimit.bytes.toNat

/-- `numChunks`. -/
def numChunks (t : BulkTransfer) (devices : List UInt32) : Nat :=
  let minChunks := devices.length
  let memCapChunks := ceilDiv64 t.wireSize t.chunkLimit.bytes.toNat
  let numChunks := max minChunks memCapChunks
  let maxFragmentBody := 2 ^ 30
  let numChunks :=
    if t.chunkLimit.bytes.toNat > maxFragmentBody then
      max numChunks (ceilDiv64 t.wireSize maxFragmentBody)
    else numChunks
  min numChunks (max t.wireSize 1)

/-- `wireChunkSize`. -/
def wireChunkSize (t : BulkTransfer) (devices : List UInt32) : Nat :=
  ceilDiv64 t.wireSize (t.numChunks devices)

/-- `dataChunkSize`. -/
def dataChunkSize (t : BulkTransfer) (devices : List UInt32) : Nat :=
  let sentChunks := ceilDiv64 t.wireSize (t.wireChunkSize devices)
  ceilDiv64 t.dataSize sentChunks

end BulkTransfer

/-- The device of a fragment. -/
def sprayDevice (devices : List UInt32) (offset : UInt32) (i : Nat) : UInt32 :=
  devices.getD ((offset.toNat + i) % devices.length) 0

namespace BulkEndpoint

variable {γ : Type}

/-- `m_nextSeqNum[key]++`. -/
def takeSeqNum (σ : BulkEndpoint γ) (key : FlowKey) : BulkEndpoint γ × UInt32 :=
  let seqNum := σ.nextSeqNum key
  ({ σ with
    nextSeqNum := Function.update σ.nextSeqNum key (seqNum + 1)
    log := σ.log ++ [.numbered key seqNum] }, seqNum)

/-- The packet `PumpBulkTxWindow` builds for a chunk. -/
def dispatchedPacket (nic : Nic) (desc : BulkTxChunk) (seqNum : UInt32) : FabricPacket :=
  let stamp := desc.stamp && desc.wireChunk > soHeaderSize
  let header : Header :=
    { packetType := .data
      fabricType := nic.fabricTypeForDest desc.destRank
      flowId := desc.flowId
      sequenceNumber := seqNum
      virtualChannel := desc.vcId
      sourceRank := nic.rank
      destRank := desc.destRank
      payloadSize := desc.wireChunk
      sourceMac := nic.address
      destMac := nic.resolveDestMac desc.destRank
      protocol := if stamp then desc.protocolId else 0
      effectiveDataSize := desc.fragmentDataSize
      ttl := 64 }
  { header := header.setProtocolFramed stamp
    soHeader :=
      if stamp then some ⟨roceSimple, false, desc.fragmentDataSize, desc.chunkIndex⟩ else none
    zeros := if stamp then desc.wireChunk - soHeaderSize else desc.wireChunk
    ibgdaWorkId := desc.ibgdaWorkId }

/-- A slot is taken, and its packet entered in the window. -/
def takeSlot (σ : BulkEndpoint γ) (key : FlowKey) (seqNum : UInt32) : BulkEndpoint γ :=
  { σ with
    bulkTxInflight := σ.bulkTxInflight + 1
    bulkTxWindowSeqs := insert (key, seqNum) σ.bulkTxWindowSeqs
    log := σ.log ++ [.took key seqNum] }

/-- The body of the loop of `PumpBulkTxWindow`; it tells whether the loop goes on. -/
def dispatch (nic : Nic) (w : World γ) (σ : BulkEndpoint γ) (desc : BulkTxChunk) :
    BulkEndpoint γ × Bool :=
  let (σ, seqNum) := σ.takeSeqNum desc.key
  let packet := dispatchedPacket nic desc seqNum
  let σ := σ.takeSlot desc.key seqNum
  let σ : BulkEndpoint γ := { σ with log := σ.log ++ [.dispatched desc packet] }
  let (world, admitted) :=
    w.flowControlGate desc.vcId seqNum (!nic.isLocalRank desc.destRank) σ.world
  if !admitted then ({ σ with world }, false)
  else
    let (world, onWire) := w.sendPacketOnDevice packet desc.deviceIndex world
    ({ σ with world }, onWire)

/-- The loop of `PumpBulkTxWindow`; each turn takes one chunk off the queue. -/
def pumpLoop (nic : Nic) (w : World γ) : Nat → BulkEndpoint γ → BulkEndpoint γ
  | 0, σ => σ
  | fuel + 1, σ =>
      match σ.bulkTxQueue with
      | [] => σ
      | desc :: rest =>
          if σ.bulkTxInflight < σ.soTxWindow then
            let (σ, more) := dispatch nic w { σ with bulkTxQueue := rest } desc
            if more then pumpLoop nic w fuel σ else σ
          else σ

/-- `PumpBulkTxWindow`. -/
def pumpBulkTxWindow (nic : Nic) (w : World γ) (σ : BulkEndpoint γ) : BulkEndpoint γ :=
  pumpLoop nic w σ.bulkTxQueue.length σ

/-- The body of the loop of `PumpRdmaOperationPackets`. -/
def sendPending (nic : Nic) (w : World γ) (σ : BulkEndpoint γ) (p : PendingPacket) :
    BulkEndpoint γ :=
  let (σ, seqNum) := σ.takeSeqNum p.key
  let σ := if σ.soTxWindow ≠ 0 then σ.takeSlot p.key seqNum else σ
  let σ : BulkEndpoint γ := { σ with log := σ.log ++ [.operated p.key seqNum] }
  let device := sprayDevice (nic.physicalDevicesForDest p.key.destRank) σ.globalSprayOffset 0
  let σ : BulkEndpoint γ := { σ with globalSprayOffset := σ.globalSprayOffset + 1 }
  let (world, admitted) := w.flowControlGate p.key.vcId seqNum true σ.world
  if !admitted then { σ with world := w.pushSendQueue (p.frame seqNum) device world }
  else { σ with world := (w.sendPacketOnDevice (p.frame seqNum) device world).1 }

/-- The loop of `PumpRdmaOperationPackets`. -/
def pumpRdmaLoop (nic : Nic) (w : World γ) : Nat → BulkEndpoint γ → BulkEndpoint γ
  | 0, σ => σ
  | fuel + 1, σ =>
      match σ.rdmaTxQueue with
      | [] => σ
      | p :: rest =>
          if σ.soTxWindow = 0 ∨ σ.bulkTxInflight < σ.soTxWindow then
            pumpRdmaLoop nic w fuel (sendPending nic w { σ with rdmaTxQueue := rest } p)
          else σ

/-- `PumpRdmaOperationPackets`. -/
def pumpRdmaOperationPackets (nic : Nic) (w : World γ) (σ : BulkEndpoint γ) : BulkEndpoint γ :=
  pumpRdmaLoop nic w σ.rdmaTxQueue.length σ

/-- `ReleaseBulkTxSlot`. -/
def releaseBulkTxSlot (nic : Nic) (w : World γ) (σ : BulkEndpoint γ) : BulkEndpoint γ :=
  let σ := if σ.bulkTxInflight > 0 then { σ with bulkTxInflight := σ.bulkTxInflight - 1 } else σ
  pumpRdmaOperationPackets nic w (pumpBulkTxWindow nic w σ)

/-- What `ProcessAckPacket` and `NotifyPermanentLoss` do about the window. -/
def retire (nic : Nic) (w : World γ) (σ : BulkEndpoint γ) (key : FlowKey) (seqNum : UInt32) :
    BulkEndpoint γ :=
  if σ.soTxWindow > 0 ∧ (key, seqNum) ∈ σ.bulkTxWindowSeqs then
    releaseBulkTxSlot nic w
      { σ with
        bulkTxWindowSeqs := σ.bulkTxWindowSeqs.erase (key, seqNum)
        log := σ.log ++ [.released key seqNum] }
  else σ

/-- The descriptor of the `i`-th fragment. -/
def chunkOf (t : BulkTransfer) (devices : List UInt32) (offset : UInt32) (i wireOffset dataOffset : Nat) :
    BulkTxChunk :=
  let wireChunk := UInt32.ofNat (min (t.wireChunkSize devices) (t.wireSize - wireOffset))
  { ibgdaWorkId := t.activeIbgdaWork
    destRank := t.destRank
    flowId := t.flowId
    vcId := t.vcId
    protocolId := t.protocolId
    wireChunk
    fragmentDataSize := UInt32.ofNat (min (t.dataChunkSize devices) (t.dataSize - dataOffset))
    chunkIndex := UInt32.ofNat i
    deviceIndex := sprayDevice devices offset i
    stamp := t.stampSoHeader && wireChunk > soHeaderSize }

/-- The loop of the windowed path, from the `i`-th fragment on. -/
def windowedLoop (t : BulkTransfer) (devices : List UInt32) :
    Nat → Nat → BulkEndpoint γ → BulkEndpoint γ
  | 0, _, σ => σ
  | left + 1, i, σ =>
      let wireOffset := mul64 i (t.wireChunkSize devices)
      if wireOffset ≥ t.wireSize then windowedLoop t devices left (i + 1) σ
      else
        let dataOffset := mul64 i (t.dataChunkSize devices)
        if dataOffset ≥ t.dataSize then σ
        else
          let desc := chunkOf t devices σ.globalSprayOffset i wireOffset dataOffset
          windowedLoop t devices left (i + 1)
            { σ with
              bulkTxQueue := σ.bulkTxQueue ++ [desc]
              log := σ.log ++ [.enqueued desc] }

/-- The packet the direct path builds for the `i`-th fragment. -/
def directPacket (nic : Nic) (t : BulkTransfer) (thisWireChunk fragmentDataSize : UInt32) (i : Nat)
    (seqNum : UInt32) : FabricPacket :=
  let stamp := t.stampSoHeader && thisWireChunk > soHeaderSize
  let header : Header :=
    { packetType := .data
      fabricType := nic.fabricTypeForDest t.destRank
      flowId := t.flowId
      sequenceNumber := seqNum
      virtualChannel := t.vcId
      sourceRank := nic.rank
      destRank := t.destRank
      payloadSize := thisWireChunk
      sourceMac := nic.address
      destMac := nic.resolveDestMac t.destRank
      protocol := if stamp then t.protocolId else 0
      effectiveDataSize := fragmentDataSize
      ttl := 64 }
  { header := header.setProtocolFramed stamp
    soHeader :=
      if stamp then some ⟨roceSimple, false, fragmentDataSize, UInt32.ofNat i⟩ else none
    zeros := if stamp then thisWireChunk - soHeaderSize else thisWireChunk }

/-- The loop that queues the fragments behind one that was not admitted. -/
def remainingLoop (nic : Nic) (w : World γ) (t : BulkTransfer) (devices : List UInt32) :
    Nat → Nat → BulkEndpoint γ → BulkEndpoint γ
  | 0, _, σ => σ
  | left + 1, j, σ =>
      let remWireOffset := mul64 j (t.wireChunkSize devices)
      if remWireOffset ≥ t.wireSize then remainingLoop nic w t devices left (j + 1) σ
      else
        let remWireChunk :=
          UInt32.ofNat (min (t.wireChunkSize devices) (t.wireSize - remWireOffset))
        let remDataOffset := mul64 j (t.dataChunkSize devices)
        if remDataOffset ≥ t.dataSize then σ
        else
          let remFragmentData :=
            UInt32.ofNat (min (t.dataChunkSize devices) (t.dataSize - remDataOffset))
          let (σ, remSeqNum) := σ.takeSeqNum t.key
          let remPacket := directPacket nic t remWireChunk remFragmentData j remSeqNum
          let deviceIndex := sprayDevice devices σ.globalSprayOffset j
          remainingLoop nic w t devices left (j + 1)
            { σ with
              world := w.pushSendQueue remPacket deviceIndex σ.world
              log := σ.log ++ [.queued remPacket deviceIndex] }

/-- The loop of the direct path, from the `i`-th fragment on. -/
def directLoop (nic : Nic) (w : World γ) (t : BulkTransfer) (devices : List UInt32) :
    Nat → Nat → BulkEndpoint γ → BulkEndpoint γ
  | 0, _, σ => σ
  | left + 1, i, σ =>
      let wireOffset := mul64 i (t.wireChunkSize devices)
      if wireOffset ≥ t.wireSize then directLoop nic w t devices left (i + 1) σ
      else
        let thisWireChunk :=
          UInt32.ofNat (min (t.wireChunkSize devices) (t.wireSize - wireOffset))
        let dataOffset := mul64 i (t.dataChunkSize devices)
        if dataOffset ≥ t.dataSize then σ
        else
          let fragmentDataSize :=
            UInt32.ofNat (min (t.dataChunkSize devices) (t.dataSize - dataOffset))
          let (σ, seqNum) := σ.takeSeqNum t.key
          let chunkPacket := directPacket nic t thisWireChunk fragmentDataSize i seqNum
          let deviceIdx := sprayDevice devices σ.globalSprayOffset i
          let (world, admitted) :=
            w.flowControlGate t.vcId seqNum (!nic.isLocalRank t.destRank) σ.world
          if !admitted then
            let σ : BulkEndpoint γ := { σ with
              world := w.pushSendQueue chunkPacket deviceIdx world
              log := σ.log ++ [.queued chunkPacket deviceIdx] }
            let σ := remainingLoop nic w t devices left (i + 1) σ
            { σ with world := w.trySendQueuedPackets σ.world }
          else
            -- a packet that a pause holds is on the send queue by now, and the loop goes on
            let (world, _) := w.sendPacketOnDevice chunkPacket deviceIdx world
            directLoop nic w t devices left (i + 1)
              { σ with world, log := σ.log ++ [.sent chunkPacket deviceIdx] }

/-- The next transfer starts at another device. -/
def advanceSpray (σ : BulkEndpoint γ) (numChunks : Nat) (devices : List UInt32) : BulkEndpoint γ :=
  { σ with
    globalSprayOffset := UInt32.ofNat ((σ.globalSprayOffset.toNat + numChunks) % devices.length) }

/-- The transfer as one packet. -/
def sendSingle (nic : Nic) (w : World γ) (t : BulkTransfer) (devices : List UInt32)
    (σ : BulkEndpoint γ) : BulkEndpoint γ :=
  let (σ, seqNum) := σ.takeSeqNum t.key
  let packetSize := UInt32.ofNat t.wireSize
  let packet := directPacket nic t packetSize (UInt32.ofNat t.dataSize) 0 seqNum
  let (world, admitted) :=
    w.flowControlGate t.vcId seqNum (!nic.isLocalRank t.destRank) σ.world
  if !admitted then
    -- the device is chosen when the queue is drained
    { σ with
      world := w.trySendQueuedPackets (w.pushSendQueue packet Nic.anyDevice world)
      log := σ.log ++ [.queued packet Nic.anyDevice] }
  else
    let deviceIdx := sprayDevice devices σ.globalSprayOffset 0
    let (world, onWire) := w.sendPacketOnDevice packet deviceIdx world
    let σ : BulkEndpoint γ := { σ with world, log := σ.log ++ [.sent packet deviceIdx] }
    if onWire && devices.length > 1 then σ.advanceSpray 1 devices else σ

/-- The part of `SendBulkWireTransferSizeImpl` behind its checks. -/
def sendChecked (nic : Nic) (w : World γ) (t : BulkTransfer) (σ : BulkEndpoint γ) :
    BulkEndpoint γ :=
  let devices := nic.physicalDevicesForDest t.destRank
  if t.needFragment devices then
    let numChunks := t.numChunks devices
    if σ.soTxWindow > 0 ∧ !nic.isLocalRank t.destRank then
      let σ := (windowedLoop t devices numChunks 0 σ).advanceSpray numChunks devices
      pumpBulkTxWindow nic w σ
    else (directLoop nic w t devices numChunks 0 σ).advanceSpray numChunks devices
  else sendSingle nic w t devices σ

/-- `SendBulkWireTransferSizeImpl`. -/
def sendBulkWireTransferSizeImpl (nic : Nic) (w : World γ) (t : BulkTransfer)
    (σ : BulkEndpoint γ) : Except BulkFault (BulkEndpoint γ) :=
  if t.dataSize = 0 then .ok σ
  else if t.wireSize > 2 ^ 62 then .error .cannotBeServiced
  else if t.wireSize = 0 then .error .zeroWireLedger
  else if t.wireSize < t.dataSize then .error .wireLedgerBelowData
  else .ok (sendChecked nic w t σ)

end BulkEndpoint

end ProtoBridge.Endpoint
