import ProtoBridge.Endpoint.BulkLoops

/-!
# Collective uploads

`SendCollectiveBulk` cuts an upload over all links that reach the switch. Before it does,
a guard works out the cut a second time and aborts if the effective bytes of a fragment
might not go into 32 bits. The effective bytes are split in proportion to the wire bytes.
-/

namespace ProtoBridge.Endpoint

open Lib Fabric

variable {γ : Type}

/-- The arguments of `SendCollectiveBulk`, and the spray chunk size. -/
structure CollectiveTransfer where
  packetType : PacketType
  destRank : UInt16
  effectiveSize : UInt64
  wireSize : UInt64
  sprayChunkSize : UInt32
  deriving DecidableEq

/-- The reasons to abort. -/
inductive CollectiveFault
  | zeroSize
  | cannotBeServiced
  | shareTooLarge
  | effectiveTooLarge
  deriving DecidableEq

namespace CollectiveTransfer

/-- The flow of an upload. -/
def key (t : CollectiveTransfer) : FlowKey := ⟨t.destRank, 0, 0⟩

/-- The links an upload goes out on: all of them, if the routes name less than half. The list of
`GetPhysicalDevicesForDest` is never empty. -/
def sendDevices (nic : Nic) (t : CollectiveTransfer) : List UInt32 :=
  let devices := nic.physicalDevicesForDest t.destRank
  if nic.deviceCount ≠ 0 ∧ (devices = [] ∨ devices.length < nic.deviceCount / 2) then
    (List.range nic.deviceCount).map UInt32.ofNat
  else devices

/-- Whether the upload is cut. -/
def needFragment (t : CollectiveTransfer) (devices : List UInt32) : Bool :=
  devices.length > 1 ∨ t.wireSize.toNat > 500 * 1024 * 1024

/-- The chunk count and the chunk size, as the guard works them out. -/
def guardGeometry (t : CollectiveTransfer) (devices : List UInt32) : Nat × Nat :=
  let wireSize := t.wireSize.toNat
  let guardMinChunks := devices.length
  let guardSizeBasedChunks := ceilDiv64 wireSize t.sprayChunkSize.toNat
  let guardNumChunks := max guardMinChunks guardSizeBasedChunks
  let guardNumChunks := min guardNumChunks (max wireSize 1)
  let guardMaxChunkBytes := 8 * 1024 * 1024
  let guardCoalesceThreshold := 512 * 1024 * 1024
  let guardCoalescedChunks := ceilDiv64 wireSize guardMaxChunkBytes
  let guardNumChunks :=
    if wireSize > guardCoalesceThreshold ∧ guardCoalescedChunks > guardMinChunks then
      let guardPathBalancedChunks :=
        mul64 (ceilDiv64 guardCoalescedChunks guardMinChunks) guardMinChunks
      max guardMinChunks (min guardSizeBasedChunks guardPathBalancedChunks)
    else guardNumChunks
  let guardChunkSize := ceilDiv64 wireSize guardNumChunks
  let guardMaxFragmentBody := 2 ^ 30
  if guardChunkSize > guardMaxFragmentBody then
    let guardMinChunksForBody := ceilDiv64 wireSize guardMaxFragmentBody
    let guardNumChunks := max guardNumChunks guardMinChunksForBody
    (guardNumChunks, ceilDiv64 wireSize guardNumChunks)
  else (guardNumChunks, guardChunkSize)

/-- The share that the guard tests: its quotient and remainder. -/
def guardShare (t : CollectiveTransfer) (devices : List UInt32) : Nat × Nat :=
  let guardShareNum := t.effectiveSize.toNat * (t.guardGeometry devices).2 % 2 ^ 128
  let guardShareDen := max t.wireSize.toNat 1
  (guardShareNum / guardShareDen % 2 ^ 64, guardShareNum % guardShareDen)

/-- `std::numeric_limits<uint32_t>::max()`. -/
def maxServicableEffectiveShare : Nat := 2 ^ 32 - 1

/-- The guards of `SendCollectiveBulk`. -/
def check (t : CollectiveTransfer) (devices : List UInt32) : Except CollectiveFault Unit :=
  if t.effectiveSize = 0 ∨ t.wireSize = 0 then .error .zeroSize
  else if t.wireSize.toNat > 2 ^ 62 then .error .cannotBeServiced
  else if (t.guardShare devices).1 > maxServicableEffectiveShare ∨
      ((t.guardShare devices).2 ≠ 0 ∧ (t.guardShare devices).1 = maxServicableEffectiveShare) then
    .error .shareTooLarge
  else if !t.needFragment devices ∧ t.effectiveSize.toNat > maxServicableEffectiveShare then
    .error .effectiveTooLarge
  else .ok ()

/-- The chunk count and the chunk size, as the loops use them. -/
def geometry (t : CollectiveTransfer) (devices : List UInt32) : Nat × Nat :=
  let wireSize := t.wireSize.toNat
  let minChunks := devices.length
  let sizeBasedChunks := ceilDiv64 wireSize t.sprayChunkSize.toNat
  let numChunks := max minChunks sizeBasedChunks
  let numChunks := min numChunks (max wireSize 1)
  let maxChunkBytes := 8 * 1024 * 1024
  let coalesceThreshold := 512 * 1024 * 1024
  let coalescedChunks := ceilDiv64 wireSize maxChunkBytes
  let numChunks :=
    if wireSize > coalesceThreshold ∧ coalescedChunks > minChunks then
      let pathBalancedChunks := mul64 (ceilDiv64 coalescedChunks minChunks) minChunks
      max minChunks (min sizeBasedChunks pathBalancedChunks)
    else numChunks
  let chunkSize := ceilDiv64 wireSize numChunks
  let maxFragmentBody := 2 ^ 30
  if chunkSize > maxFragmentBody then
    let minChunksForBody := ceilDiv64 wireSize maxFragmentBody
    let numChunks := max numChunks minChunksForBody
    (numChunks, ceilDiv64 wireSize numChunks)
  else (numChunks, chunkSize)

/-- The end of a share, for an offset into the wire bytes. -/
def effectiveAt (t : CollectiveTransfer) (offset : Nat) : Nat :=
  t.effectiveSize.toNat * offset % 2 ^ 127 / max t.wireSize.toNat 1 % 2 ^ 64

/-- The packet of a number of wire and effective bytes. -/
def packet (nic : Nic) (t : CollectiveTransfer) (thisChunkSize thisEffectiveSize seqNum : UInt32) :
    FabricPacket :=
  { header :=
      { packetType := t.packetType
        fabricType := nic.fabricTypeForDest t.destRank
        flowId := 0
        sequenceNumber := seqNum
        virtualChannel := 0
        sourceRank := nic.rank
        destRank := t.destRank
        payloadSize := thisChunkSize
        sourceMac := nic.address
        destMac := nic.resolveDestMac t.destRank
        effectiveDataSize := thisEffectiveSize }
    zeros := thisChunkSize }

/-- The packet at an offset into the wire bytes, in chunks of a size. -/
def packetAt (nic : Nic) (t : CollectiveTransfer) (chunkSize offset : Nat) (seqNum : UInt32) :
    FabricPacket :=
  let thisChunkSize := UInt32.ofNat (min chunkSize (t.wireSize.toNat - offset))
  let wireSpanEnd := min (wadd 64 offset chunkSize) t.wireSize.toNat
  let thisEffectiveSize :=
    UInt32.ofNat (wsub 64 (t.effectiveAt wireSpanEnd) (t.effectiveAt offset))
  t.packet nic thisChunkSize thisEffectiveSize seqNum

end CollectiveTransfer

namespace BulkEndpoint

/-- The loop that queues the chunks behind one that was not admitted. -/
def remainingChunks (nic : Nic) (w : World γ) (t : CollectiveTransfer) (devices : List UInt32)
    (chunkSize : Nat) : Nat → Nat → BulkEndpoint γ → BulkEndpoint γ
  | 0, _, σ => σ
  | left + 1, j, σ =>
      let remOffset := mul64 j chunkSize
      if remOffset ≥ t.wireSize.toNat then
        remainingChunks nic w t devices chunkSize left (j + 1) σ
      else
        let (σ, remSeqNum) := σ.takeSeqNum t.key
        let remPacket := t.packetAt nic chunkSize remOffset remSeqNum
        let deviceIndex := sprayDevice devices σ.globalSprayOffset j
        remainingChunks nic w t devices chunkSize left (j + 1)
          { σ with
            world := w.pushSendQueue remPacket deviceIndex σ.world
            log := σ.log ++ [.queued remPacket deviceIndex] }

/-- The loop over the chunks, from the `i`-th on. -/
def chunkLoop (nic : Nic) (w : World γ) (t : CollectiveTransfer) (devices : List UInt32)
    (chunkSize : Nat) : Nat → Nat → BulkEndpoint γ → BulkEndpoint γ
  | 0, _, σ => σ
  | left + 1, i, σ =>
      let offset := mul64 i chunkSize
      if offset ≥ t.wireSize.toNat then chunkLoop nic w t devices chunkSize left (i + 1) σ
      else
        let (σ, seqNum) := σ.takeSeqNum t.key
        let chunkPacket := t.packetAt nic chunkSize offset seqNum
        let deviceIdx := sprayDevice devices σ.globalSprayOffset i
        let (world, admitted) :=
          w.flowControlGate 0 seqNum t.packetType.isCreditBypass σ.world
        if !admitted then
          let σ : BulkEndpoint γ := { σ with
            world := w.pushSendQueue chunkPacket deviceIdx world
            log := σ.log ++ [.queued chunkPacket deviceIdx] }
          let σ := remainingChunks nic w t devices chunkSize left (i + 1) σ
          { σ with world := w.trySendQueuedPackets σ.world }
        else
          let (world, _) := w.sendPacketOnDevice chunkPacket deviceIdx world
          chunkLoop nic w t devices chunkSize left (i + 1)
            { σ with world, log := σ.log ++ [.sent chunkPacket deviceIdx] }

/-- The upload as one packet. -/
def sendSingleCollective (nic : Nic) (w : World γ) (t : CollectiveTransfer) (σ : BulkEndpoint γ) :
    BulkEndpoint γ :=
  let (σ, seqNum) := σ.takeSeqNum t.key
  let packet :=
    t.packet nic (UInt32.ofNat t.wireSize.toNat) (UInt32.ofNat t.effectiveSize.toNat) seqNum
  if t.packetType.isCreditBypass then
    let (world, admitted) := w.flowControlGate 0 seqNum true σ.world
    if !admitted then
      { σ with
        world := w.pushSendQueue packet Nic.anyDevice world
        log := σ.log ++ [.queued packet Nic.anyDevice] }
    else
      let deviceIdx :=
        if nic.deviceCount = 0 then 0
        else UInt32.ofNat (σ.globalSprayOffset.toNat % nic.deviceCount)
      let (world, onWire) := w.sendPacketOnDevice packet deviceIdx world
      let σ : BulkEndpoint γ := { σ with world, log := σ.log ++ [.sent packet deviceIdx] }
      if onWire ∧ nic.deviceCount ≠ 0 then
        { σ with
          globalSprayOffset :=
            UInt32.ofNat ((σ.globalSprayOffset + 1).toNat % nic.deviceCount) }
      else σ
  else
    { σ with
      world := w.trySendQueuedPackets (w.pushSendQueue packet Nic.anyDevice σ.world)
      log := σ.log ++ [.queued packet Nic.anyDevice] }

/-- `SendCollectiveBulk`. -/
def sendCollectiveBulk (nic : Nic) (w : World γ) (t : CollectiveTransfer) (σ : BulkEndpoint γ) :
    Except CollectiveFault (BulkEndpoint γ) := do
  let devices := t.sendDevices nic
  t.check devices
  if t.needFragment devices then
    let numChunks := (t.geometry devices).1
    let chunkSize := (t.geometry devices).2
    return (chunkLoop nic w t devices chunkSize numChunks 0 σ).advanceSpray numChunks devices
  else return sendSingleCollective nic w t σ

end BulkEndpoint

end ProtoBridge.Endpoint
