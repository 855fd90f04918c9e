import ProtoBridge.Endpoint.CollectiveSend
import ProtoBridge.Endpoint.LlrTrace
import ProtoBridge.Endpoint.MemoryRequests
import ProtoBridge.Fabric.HeaderBytes

/-!
# Retransmissions

A packet is stored as it goes to its device, and a retransmission sends the stored copy under a
header that `SendRetransmission` builds field by field. The memory access type is not among
the fields, so that a packet of `SendMemorySemantic` comes back as another one; every other
packet comes back as it was.
-/

namespace ProtoBridge.Endpoint

open Lib Fabric

/-! ## The packets that are sent -/

/-- A number in memory, the lowest of its bytes first. -/
def memoryBytes (width n : Nat) : List UInt8 := (bytesOf width n).reverse

/-- What a memory request asks for: bytes, or a number of them. Without data it is a read. -/
inductive MemoryRequest
  | read (size : UInt32)
  | write (bytes : List UInt8)
  deriving DecidableEq

/-- The send paths, and what each of them makes a packet of. The packets of a bulk transfer are those
of a chunk; those of a collective have the shares that were cut for them. -/
inductive SendPath
  | data (destRank flowId : UInt16) (vcId : UInt8) (bytes : List UInt8)
  | framed (destRank flowId : UInt16) (vcId protocolId : UInt8) (frame : List UInt8)
      (subPacketDataSize : UInt32)
  | bulk (desc : BulkTxChunk) (body : List UInt8)
  | p2p (destRank flowId : UInt16) (vcId : UInt8) (bytes : List UInt8)
  | memoryRead (destRank : UInt16) (address : UInt64) (size : UInt32)
  | memoryWrite (destRank : UInt16) (address : UInt64) (bytes : List UInt8)
  | memoryResponse (destRank : UInt16) (bytes : List UInt8)
  | memorySemantic (destRank : UInt16) (address : UInt64) (request : MemoryRequest)
      (accessType : MemoryAccessType)
  | collective (t : CollectiveTransfer) (thisChunkSize thisEffectiveSize : UInt32)

/-- The fields that all packets of an endpoint have in common. -/
def Nic.header (nic : Nic) (destRank : UInt16) (seqNum : UInt32) : Header where
  fabricType := nic.fabricTypeForDest destRank
  sequenceNumber := seqNum
  sourceRank := nic.rank
  destRank := destRank
  sourceMac := nic.address
  destMac := nic.resolveDestMac destRank

namespace SendPath

/-- The payload of a memory request. -/
def requestBody (address : UInt64) : MemoryRequest → List UInt8
  | .read size => memoryBytes 8 address.toNat ++ memoryBytes 4 size.toNat
  | .write bytes => memoryBytes 8 address.toNat ++ bytes

/-- The header of a memory request. -/
def requestHeader (nic : Nic) (destRank : UInt16) (seqNum : UInt32) : MemoryRequest → Header
  | .read _ =>
      { nic.header destRank seqNum with
        packetType := .memoryRead, flowId := memoryFlowId, payloadSize := 12 }
  | .write bytes =>
      { nic.header destRank seqNum with
        packetType := .memoryWrite
        flowId := memoryFlowId
        payloadSize := 8 + UInt32.ofNat bytes.length }

/-- The header of a packet. A memory-semantic request of the bulk type is sent as a plain one. -/
def header (nic : Nic) (seqNum : UInt32) : SendPath → Header
  | .data destRank flowId vcId bytes =>
      { nic.header destRank seqNum with
        packetType := .data
        flowId
        virtualChannel := vcId
        payloadSize := UInt32.ofNat bytes.length
        effectiveDataSize := UInt32.ofNat bytes.length }
  | .framed destRank flowId vcId protocolId frame subPacketDataSize =>
      Header.setProtocolFramed
        { nic.header destRank seqNum with
          packetType := .data
          flowId
          virtualChannel := vcId
          payloadSize := UInt32.ofNat frame.length
          protocol := protocolId
          effectiveDataSize := subPacketDataSize
          ttl := 64 } true
  | .bulk desc _ => (BulkEndpoint.dispatchedPacket nic desc seqNum).header
  | .p2p destRank flowId vcId bytes =>
      { nic.header destRank seqNum with
        packetType := .p2p
        flowId
        virtualChannel := vcId
        payloadSize := UInt32.ofNat bytes.length }
  | .memoryRead destRank _ size => requestHeader nic destRank seqNum (.read size)
  | .memoryWrite destRank _ bytes => requestHeader nic destRank seqNum (.write bytes)
  | .memoryResponse destRank bytes =>
      { nic.header destRank seqNum with
        packetType := .memoryResp
        flowId := memoryFlowId
        payloadSize := UInt32.ofNat bytes.length }
  | .memorySemantic destRank _ request accessType =>
      if accessType = .dmaBulk then requestHeader nic destRank seqNum request
      else
        { (requestHeader nic destRank seqNum request).setVirtualLane 0 with
          memoryAccessType := accessType }
  | .collective t thisChunkSize thisEffectiveSize =>
      (t.packet nic thisChunkSize thisEffectiveSize seqNum).header

/-- The body of a packet. -/
def body : SendPath → List UInt8
  | .data _ _ _ bytes => bytes
  | .framed _ _ _ _ frame _ => frame
  | .bulk _ body => body
  | .p2p _ _ _ bytes => bytes
  | .memoryRead _ address size => requestBody address (.read size)
  | .memoryWrite _ address bytes => requestBody address (.write bytes)
  | .memoryResponse _ bytes => bytes
  | .memorySemantic _ address request _ => requestBody address request
  | .collective _ thisChunkSize _ => List.replicate thisChunkSize.toNat 0

/-- What is sent as a memory write fits a payload with its address. -/
def Fits : SendPath → Prop
  | .memoryWrite _ _ bytes => bytes.length ≤ 2 ^ 32 - 1 - 8
  | .memorySemantic _ _ (.write bytes) _ => bytes.length ≤ 2 ^ 32 - 1 - 8
  | _ => True

end SendPath

/-- A packet of a send path, with its number, and where the manager's tables put it. -/
structure Parcel where
  path : SendPath
  seqNum : UInt32
  sourceLayout : Layout (RetryKey × SourceEntry) := .last
  bufferLayout : Layout (RetryKey × RetryEntry) := .last

/-- `AddHeader`. -/
def addHeader (h : Header) (payload : List UInt8) : Packet where
  header :=
    { flowId := h.flowId
      virtualChannel := h.virtualChannel
      payloadSize := h.payloadSize
      other := h.serialize }
  payload := payload

/-- `PeekHeader`. -/
def peekHeader (packet : Packet) : Option Header := Header.deserialize packet.header.other

/-- The key of a header. -/
def retryKeyOf (h : Header) : RetryKey := ⟨h.sequenceNumber, h.destRank, h.flowId, h.virtualChannel⟩

namespace Parcel

variable (nic : Nic) (p : Parcel)

/-- Its header. -/
def header : Header := p.path.header nic p.seqNum

/-- The packet that goes to the device. -/
def packet : Packet := addHeader (p.header nic) p.path.body

/-- Whether `SendPacketOnDevice` stores it. -/
def stored : Bool :=
  (p.header nic).sourceRank == nic.rank && !(p.header nic).packetType.isControl &&
    !(p.header nic).packetType.isRetry

/-- The call that stores it. -/
def storeCall : StoreCall where
  seqNum := (p.header nic).sequenceNumber
  packet := p.packet nic
  destRank := (p.header nic).destRank
  sourceLayout := p.sourceLayout
  bufferLayout := p.bufferLayout

end Parcel

/-! ## The endpoint -/

/-- What reaches a device; the addresses in a header are 48 bits wide. The padding of an error
correction and the wait for it are the same for both. -/
inductive Emission
  | first (header : Header) (payload : List UInt8)
  | repair (header : Header) (payload : List UInt8)
  deriving DecidableEq

/-- The part of a `FabricEndpoint` that retransmits; `due` is what has been dispatched. -/
structure Sender where
  llr : LlrManager := {}
  due : List Retransmission := []
  wire : List Emission := []

/-- What an endpoint that is told of a loss does to its manager: a slot or a credit that comes free
sends packets. -/
inductive LossAct
  | send (p : Parcel)
  | arm (key : RetryKey)

/-- What can happen to it. -/
inductive SenderAct
  | send (p : Parcel)
  | note (a : LlrAct)
  | retryRequest (onLoss : RetryKey → FabricHeader → List LossAct) (first : RetryKey)
  | sackRequest (onLoss : RetryKey → FabricHeader → List LossAct) (nackSeqNums : Finset UInt32)
      (sourceRank flowId : UInt16) (vcId : UInt8)
  | repair (i : Nat) (sourceLayout : Layout (RetryKey × SourceEntry))
      (bufferLayout : Layout (RetryKey × RetryEntry))

namespace Sender

/-- `SendPacketOnDevice`, of a packet that is not a retransmission. -/
def sendPacketOnDevice (cfg : LlrConfig) (nic : Nic) (σ : Sender) (p : Parcel) : Sender :=
  { σ with
    llr := if p.stored nic then (σ.llr.storePacket cfg (p.storeCall nic)).1 else σ.llr
    wire := σ.wire ++ [.first (p.header nic).clip p.path.body] }

/-- What is sent by one who is told of a loss. A packet that is not stored has no part in this. -/
def lossCallback (nic : Nic) (onLoss : RetryKey → FabricHeader → List LossAct) :
    LlrManager.LossCallback :=
  fun key lostHdr => (onLoss key lostHdr).filterMap fun
    | .send p => if p.stored nic then some (.storePacket (p.storeCall nic)) else none
    | .arm key => some (.armRetryTimeoutAtTransmission key)

/-- What was stored, and so sent, from one state of the manager to another. -/
def sentSince (σ σ' : LlrManager) : List Emission :=
  (σ'.log.drop σ.log.length).filterMap fun
    | .stored _ packet => (peekHeader packet).map fun header => .first header packet.payload
    | _ => none

/-- The answers to a request are dispatched. -/
def dispatch (σ : Sender) (answer : LlrManager × List Retransmission) : Sender where
  llr := answer.1
  due := σ.due ++ answer.2
  wire := σ.wire ++ sentSince σ.llr answer.1

/-- The header that `SendRetransmission` builds. -/
def retryHeader (nic : Nic) (oldHeader : Header) : Header :=
  Header.setProtocolFramed
    { packetType := oldHeader.packetType
      fabricType := nic.fabricTypeForDest oldHeader.destRank
      sourceRank := nic.rank
      destRank := oldHeader.destRank
      sequenceNumber := oldHeader.sequenceNumber
      flowId := oldHeader.flowId
      virtualChannel := oldHeader.virtualChannel
      sourceMac := nic.address
      destMac := nic.resolveDestMac oldHeader.destRank
      payloadSize := oldHeader.payloadSize
      effectiveDataSize := oldHeader.effectiveDataSize
      protocol := oldHeader.protocol
      ttl := 64 } oldHeader.isProtocolFramed

/-- `SendRetransmission`. -/
def sendRetransmission (cfg : LlrConfig) (nic : Nic) (σ : Sender) (r : Retransmission)
    (sourceLayout : Layout (RetryKey × SourceEntry)) (bufferLayout : Layout (RetryKey × RetryEntry)) :
    Sender :=
  match peekHeader r.packet with
  | none => σ
  | some oldHeader =>
      if (σ.llr.sourceStore.find? (retryKeyOf oldHeader)).isNone then σ
      else
        { σ with
          llr :=
            if r.sourceReload then
              (σ.llr.storePacket cfg
                { seqNum := oldHeader.sequenceNumber
                  packet := r.packet
                  destRank := oldHeader.destRank
                  sourceLayout
                  bufferLayout }).1
            else σ.llr
          wire := σ.wire ++ [.repair (retryHeader nic oldHeader) r.packet.payload] }

/-- One step. -/
def handle (cfg : LlrConfig) (nic : Nic) (σ : Sender) : SenderAct → Sender
  | .send p => σ.sendPacketOnDevice cfg nic p
  | .note a => { σ with llr := σ.llr.exec cfg a }
  | .retryRequest onLoss first =>
      σ.dispatch (σ.llr.handleRetryRequest cfg (lossCallback nic onLoss) first)
  | .sackRequest onLoss nackSeqNums sourceRank flowId vcId =>
      σ.dispatch
        (σ.llr.handleSackRequest cfg (lossCallback nic onLoss) nackSeqNums sourceRank flowId vcId)
  | .repair i sourceLayout bufferLayout =>
      match σ.due[i]? with
      | none => σ
      | some r =>
          { σ with due := σ.due.eraseIdx i }.sendRetransmission cfg nic r sourceLayout bufferLayout

/-- An acknowledgement, a packet on the wire, a timer or the time itself changes the manager
alone. -/
def Notes : LlrAct → Prop
  | .storePacket _ | .handleRetryRequest _ _ | .handleSackRequest _ _ _ _ _ => False
  | _ => True

/-- What the endpoint takes. -/
def Enabled (σ : Sender) : SenderAct → Prop
  | .send p => p.path.Fits
  | .note a => Notes a ∧ σ.llr.enabled a
  | .retryRequest onLoss _ | .sackRequest onLoss _ _ _ _ =>
      ∀ key lostHdr p, .send p ∈ onLoss key lostHdr → p.path.Fits
  | .repair _ _ _ => True

end Sender

/-- An endpoint that has sent nothing yet. -/
def senderMachine (cfg : LlrConfig) (nic : Nic) : Machine Sender SenderAct Unit where
  init := (· = {})
  enabled := Sender.Enabled
  exec σ a := .ok (σ.handle cfg nic a)

/-! ## Headers -/

/-- What the receiver sees of two headers is the same: they differ in the addresses and the TTL at
most. -/
def Alike (original h : Header) : Prop :=
  { h with sourceMac := original.sourceMac, destMac := original.destMac, ttl := original.ttl } =
    original

instance (original h : Header) : Decidable (Alike original h) :=
  inferInstanceAs (Decidable (_ = _))

/-- What holds of every header that an endpoint sends: the lane is 0, and the byte of the lane has
the flag at most. -/
structure Built (nic : Nic) (h : Header) : Prop where
  fabricType : h.fabricType = nic.fabricTypeForDest h.destRank
  sourceRank : h.sourceRank = nic.rank
  creditCount : h.creditCount = 0
  lane : h.virtualLaneByte = 0 ∨ h.virtualLaneByte = Header.protocolFramedFlag

variable {nic : Nic} {h : Header}

theorem Built.clip (built : Built nic h) : Built nic h.clip :=
  ⟨built.fabricType, built.sourceRank, built.creditCount, built.lane⟩

theorem built_setProtocolFramed (built : Built nic h) (plain : h.virtualLaneByte = 0)
    (framed : Bool) : Built nic (h.setProtocolFramed framed) := by
  cases framed with
  | false =>
      refine ⟨built.fabricType, built.sourceRank, built.creditCount, .inl ?_⟩
      show h.virtualLaneByte &&& ~~~Header.protocolFramedFlag = 0
      rw [plain]
      decide
  | true =>
      refine ⟨built.fabricType, built.sourceRank, built.creditCount, .inr ?_⟩
      show h.virtualLaneByte ||| Header.protocolFramedFlag = Header.protocolFramedFlag
      rw [plain]
      decide

theorem built_requestHeader (nic : Nic) (destRank : UInt16) (seqNum : UInt32)
    (request : MemoryRequest) : Built nic (SendPath.requestHeader nic destRank seqNum request) := by
  cases request with
  | read size => exact ⟨rfl, rfl, rfl, .inl rfl⟩
  | write bytes => exact ⟨rfl, rfl, rfl, .inl rfl⟩

theorem SendPath.built (nic : Nic) (seqNum : UInt32) (path : SendPath) :
    Built nic (path.header nic seqNum) := by
  cases path with
  | data | p2p | memoryResponse | collective => exact ⟨rfl, rfl, rfl, .inl rfl⟩
  | framed destRank flowId vcId protocolId frame subPacketDataSize =>
      exact built_setProtocolFramed ⟨rfl, rfl, rfl, .inl rfl⟩ rfl true
  | bulk desc body => exact built_setProtocolFramed ⟨rfl, rfl, rfl, .inl rfl⟩ rfl _
  | memoryRead destRank address size => exact built_requestHeader nic destRank seqNum (.read size)
  | memoryWrite destRank address bytes =>
      exact built_requestHeader nic destRank seqNum (.write bytes)
  | memorySemantic destRank address request accessType =>
      have request' := built_requestHeader nic destRank seqNum request
      rw [SendPath.header]
      split
      · exact request'
      · refine ⟨request'.fabricType, request'.sourceRank, request'.creditCount, .inl ?_⟩
        have plain : (SendPath.requestHeader nic destRank seqNum request).virtualLaneByte = 0 := by
          cases request with
          | read size => rfl
          | write bytes => rfl
        show (0 &&& ~~~Header.protocolFramedFlag) |||
          ((SendPath.requestHeader nic destRank seqNum request).virtualLaneByte &&&
            Header.protocolFramedFlag) = 0
        rw [plain]
        decide

theorem alike_retryHeader_iff (built : Built nic h) :
    Alike h (Sender.retryHeader nic h) ↔ h.memoryAccessType = .dmaBulk := by
  constructor
  · intro same
    have access := congrArg Header.memoryAccessType same
    rw [← access, Sender.retryHeader, Header.setProtocolFramed]
    split
    · rfl
    · rfl
  · intro bulk
    obtain ⟨fabricType, sourceRank, creditCount, lane⟩ := built
    -- the flag is the whole byte of the lane
    have byte : (Sender.retryHeader nic h).virtualLaneByte = h.virtualLaneByte := by
      rw [Sender.retryHeader, Header.isProtocolFramed]
      rcases lane with plain | framed
      · have unset : (0 &&& Header.protocolFramedFlag != 0) = false := by decide
        rw [plain, unset, Header.setProtocolFramed, if_neg (by decide)]
        show (0 : UInt8) &&& ~~~Header.protocolFramedFlag = 0
        decide
      · have set : (Header.protocolFramedFlag &&& Header.protocolFramedFlag != 0) = true := by decide
        rw [framed, set, Header.setProtocolFramed, if_pos rfl]
        show (0 : UInt8) ||| Header.protocolFramedFlag = Header.protocolFramedFlag
        decide
    rw [Alike]
    have fields : { Sender.retryHeader nic h with
        sourceMac := h.sourceMac, destMac := h.destMac, ttl := h.ttl } =
      { h with
        fabricType := nic.fabricTypeForDest h.destRank
        sourceRank := nic.rank
        creditCount := 0
        memoryAccessType := .dmaBulk
        virtualLaneByte := (Sender.retryHeader nic h).virtualLaneByte } := by
      rw [Sender.retryHeader, Header.setProtocolFramed]
      split
      · rfl
      · rfl
    rw [fields, byte, ← fabricType, ← sourceRank, ← creditCount, ← bulk]

theorem peekHeader_addHeader (h : Header) (payload : List UInt8) :
    peekHeader (addHeader h payload) = some h.clip := Header.deserialize_serialize h

/-! ## Runs -/

/-- A packet that is stored is one that was sent, under its own key. -/
def Sent (nic : Nic) (wire : List Emission) (key : RetryKey) (packet : Packet) : Prop :=
  ∃ p : Parcel, packet = p.packet nic ∧ key = retryKeyOf (p.header nic) ∧
    .first (p.header nic).clip p.path.body ∈ wire

theorem Sent.append {wire : List Emission} {key : RetryKey} {packet : Packet}
    (h : Sent nic wire key packet) (more : List Emission) : Sent nic (wire ++ more) key packet := by
  obtain ⟨p, same, own, mem⟩ := h
  exact ⟨p, same, own, List.mem_append_left more mem⟩

/-- A retransmission is of a packet that was sent before: it has its bytes and its key, and looks
like it to the receiver exactly if it is of a bulk access. -/
def Repairs (nic : Nic) (before : List Emission) : Emission → Prop
  | .first _ _ => True
  | .repair header payload => ∃ p : Parcel,
      .first (p.header nic).clip payload ∈ before ∧ payload = p.path.body ∧
        retryKeyOf header = retryKeyOf (p.header nic) ∧
        (Alike (p.header nic).clip header ↔ (p.header nic).memoryAccessType = .dmaBulk)

namespace Sender

variable {cfg : LlrConfig} {nic : Nic} {σ : Sender}

/-- What the manager holds was sent, and what is due was held. -/
structure Honest (cfg : LlrConfig) (nic : Nic) (σ : Sender) : Prop where
  sound : σ.llr.Sound cfg
  stored : ∀ key packet, .stored key packet ∈ σ.llr.log → Sent nic σ.wire key packet
  due : ∀ r ∈ σ.due, ∃ key, .retransmitted key r ∈ σ.llr.log
  wire : Justified (Repairs nic) σ.wire

variable {e : Emission}

theorem repairs_of_first (hfirst : ∃ header payload, e = .first header payload)
    (before : List Emission) : Repairs nic before e := by
  obtain ⟨header, payload, rfl⟩ := hfirst
  trivial

theorem mem_sentSince {σ σ' : LlrManager} (mem : e ∈ sentSince σ σ') :
    ∃ header payload, e = .first header payload := by
  obtain ⟨o, -, same⟩ := List.mem_filterMap.mp mem
  cases o with
  | stored key packet =>
      obtain ⟨header, -, rfl⟩ := Option.map_eq_some_iff.mp same
      exact ⟨header, packet.payload, rfl⟩
  | acked | overflow | missed | retransmitted | lost | timedOut => cases same

/-- A packet of the endpoint, under its key. -/
def Own (nic : Nic) (key : RetryKey) (packet : Packet) : Prop :=
  ∃ p : Parcel, packet = p.packet nic ∧ key = retryKeyOf (p.header nic)

theorem storesOnly_lossCallback (onLoss : RetryKey → FabricHeader → List LossAct) :
    LlrManager.StoresOnly (Own nic) (lossCallback nic onLoss) := by
  intro key lostHdr c mem
  obtain ⟨act, -, same⟩ := List.mem_filterMap.mp mem
  cases act with
  | arm key => cases same
  | send p =>
      dsimp only at same
      split at same
      · obtain rfl := LossCall.storePacket.inj (Option.some.inj same)
        exact ⟨p, rfl, rfl⟩
      · cases same

theorem Honest.dispatch {answer : LlrManager × List Retransmission} (h : Honest cfg nic σ)
    (sound : answer.1.Sound cfg) (grows : LlrManager.Grows (Own nic) σ.llr answer.1)
    (given : ∀ r ∈ answer.2, ∃ key, .retransmitted key r ∈ answer.1.log) :
    Honest cfg nic (σ.dispatch answer) := by
  refine ⟨sound, ?_, ?_, ?_⟩
  · intro key packet mem
    obtain ⟨tail, hlog, own⟩ := grows
    change .stored key packet ∈ answer.1.log at mem
    show Sent nic (σ.wire ++ sentSince σ.llr answer.1) key packet
    rw [hlog] at mem
    rcases List.mem_append.mp mem with mem | mem
    · exact (h.stored key packet mem).append _
    · obtain ⟨p, rfl, rfl⟩ := own key packet mem
      refine ⟨p, rfl, rfl, List.mem_append_right _ ?_⟩
      rw [sentSince, hlog, List.drop_left]
      apply List.mem_filterMap.mpr
      refine ⟨_, mem, ?_⟩
      show (peekHeader (addHeader (p.header nic) p.path.body)).map _ = _
      rw [peekHeader_addHeader]
      rfl
  · intro r mem
    rcases List.mem_append.mp mem with mem | mem
    · obtain ⟨key, before⟩ := h.due r mem
      exact ⟨key, grows.mem before⟩
    · exact given r mem
  · exact h.wire.append _ fun e mem => repairs_of_first (mem_sentSince mem)

theorem Honest.send (h : Honest cfg nic σ) (p : Parcel) :
    Honest cfg nic (σ.sendPacketOnDevice cfg nic p) := by
  have wire := h.wire.append [.first (p.header nic).clip p.path.body] (by
    intro e mem
    exact repairs_of_first ⟨_, _, List.mem_singleton.mp mem⟩)
  rw [sendPacketOnDevice]
  by_cases hstored : p.stored nic
  · rw [if_pos hstored]
    have grows : LlrManager.Grows
        (fun key packet => packet = p.packet nic ∧ key = retryKeyOf (p.header nic)) σ.llr
        (σ.llr.storePacket cfg (p.storeCall nic)).1 := LlrManager.grows_storePacket ⟨rfl, rfl⟩
    refine ⟨h.sound.storePacket _, ?_, ?_, wire⟩
    · intro key packet mem
      obtain ⟨tail, hlog, own⟩ := grows
      change .stored key packet ∈ (σ.llr.storePacket cfg (p.storeCall nic)).1.log at mem
      rw [hlog] at mem
      rcases List.mem_append.mp mem with mem | mem
      · exact (h.stored key packet mem).append _
      · obtain ⟨rfl, rfl⟩ := own key packet mem
        exact ⟨p, rfl, rfl, List.mem_append_right _ List.mem_cons_self⟩
    · intro r mem
      obtain ⟨key, before⟩ := h.due r mem
      exact ⟨key, grows.mem before⟩
  · rw [if_neg hstored]
    exact ⟨h.sound, fun key packet mem => (h.stored key packet mem).append _, h.due, wire⟩

theorem grows_note (cfg : LlrConfig) (σ : Sender) {a : LlrAct} (notes : Notes a) :
    LlrManager.Grows (fun _ _ => False) σ.llr (σ.llr.exec cfg a) := by
  cases a with
  | storePacket | handleRetryRequest | handleSackRequest => exact notes.elim
  | armRetryTimeoutAtTransmission key => exact LlrManager.grows_arm
  | removePacket key => exact LlrManager.grows_removePacket
  | removePacketsUpTo upTo => exact LlrManager.grows_removePacketsUpTo
  | removeSackedPackets ackedSeqNums destRank flowId vcId =>
      exact LlrManager.grows_removeSackedPackets
  | retryTimeout key => exact LlrManager.grows_onRetryTimeout
  | elapse later => exact .frame rfl

theorem Honest.note {a : LlrAct} (h : Honest cfg nic σ) (notes : Notes a) :
    Honest cfg nic { σ with llr := σ.llr.exec cfg a } := by
  have grows := grows_note cfg σ notes
  refine ⟨h.sound.exec, ?_, ?_, h.wire⟩
  · intro key packet mem
    obtain ⟨tail, hlog, none⟩ := grows
    change .stored key packet ∈ (σ.llr.exec cfg a).log at mem
    rw [hlog] at mem
    rcases List.mem_append.mp mem with mem | mem
    · exact h.stored key packet mem
    · exact (none key packet mem).elim
  · intro r mem
    obtain ⟨key, before⟩ := h.due r mem
    exact ⟨key, grows.mem before⟩

/-- A retransmission sends what was stored. -/
theorem Honest.sendRetransmission {r : Retransmission} {key : RetryKey} (h : Honest cfg nic σ)
    (given : .retransmitted key r ∈ σ.llr.log) (sourceLayout : Layout (RetryKey × SourceEntry))
    (bufferLayout : Layout (RetryKey × RetryEntry)) :
    Honest cfg nic (σ.sendRetransmission cfg nic r sourceLayout bufferLayout) := by
  obtain ⟨p, same, -, sent⟩ := h.stored key r.packet (h.sound.stored_of_retransmitted given)
  have peek : peekHeader r.packet = some (p.header nic).clip := by
    rw [same]
    exact peekHeader_addHeader _ _
  have payload : r.packet.payload = p.path.body := by
    rw [same]
    rfl
  rw [Sender.sendRetransmission, peek]
  dsimp only
  split
  · exact h
  · have repair : Repairs nic σ.wire
        (.repair (retryHeader nic (p.header nic).clip) r.packet.payload) := by
      refine ⟨p, ?_, payload, ?_, ?_⟩
      · rw [payload]
        exact sent
      · rw [retryHeader, Header.setProtocolFramed]
        split
        · rfl
        · rfl
      · exact alike_retryHeader_iff (p.path.built nic p.seqNum).clip
    have wire := h.wire.snoc repair
    by_cases reload : r.sourceReload
    · rw [if_pos reload]
      have grows : LlrManager.Grows
          (fun key packet => packet = p.packet nic ∧ key = retryKeyOf (p.header nic)) σ.llr
          (σ.llr.storePacket cfg
            { seqNum := (p.header nic).clip.sequenceNumber
              packet := r.packet
              destRank := (p.header nic).clip.destRank
              sourceLayout
              bufferLayout }).1 := by
        apply LlrManager.grows_storePacket
        rw [StoreCall.key, same]
        exact ⟨rfl, rfl⟩
      refine ⟨h.sound.storePacket _, ?_, ?_, wire⟩
      · intro key packet mem
        obtain ⟨tail, hlog, own⟩ := grows
        rw [hlog] at mem
        rcases List.mem_append.mp mem with mem | mem
        · exact (h.stored key packet mem).append _
        · obtain ⟨rfl, rfl⟩ := own key packet mem
          exact ⟨p, rfl, rfl, List.mem_append_left _ sent⟩
      · intro r mem
        obtain ⟨key, before⟩ := h.due r mem
        exact ⟨key, grows.mem before⟩
    · rw [if_neg reload]
      exact ⟨h.sound, fun key packet mem => (h.stored key packet mem).append _, h.due, wire⟩

theorem honest (cfg : LlrConfig) (nic : Nic) :
    (senderMachine cfg nic).Invariant (Honest cfg nic) := by
  apply Machine.Inductive.invariant
  constructor
  · rintro σ rfl
    refine ⟨LlrManager.sound_invariant cfg {} (.init rfl), ?_, ?_, .nil⟩
    · intro key packet none
      cases none
    · intro r none
      cases none
  · intro σ a τ h enabled exec
    obtain rfl := Except.ok.inj exec
    cases a with
    | send p => exact h.send p
    | note a => exact h.note enabled.1
    | retryRequest onLoss first =>
        obtain ⟨grows, given⟩ :=
          LlrManager.grows_handleRetryRequest cfg (storesOnly_lossCallback onLoss) first
        exact h.dispatch (h.sound.handleRetryRequest _ first) grows given
    | sackRequest onLoss nackSeqNums sourceRank flowId vcId =>
        obtain ⟨grows, given⟩ :=
          LlrManager.grows_sackLoop cfg (storesOnly_lossCallback onLoss) σ.llr
        exact h.dispatch (h.sound.sackLoop _ _) grows given
    | repair i sourceLayout bufferLayout =>
        show Honest cfg nic (Sender.handle cfg nic σ _)
        rw [Sender.handle]
        cases hr : σ.due[i]? with
        | none => exact h
        | some r =>
            obtain ⟨key, given⟩ := h.due r (List.mem_of_getElem? hr)
            have left : Honest cfg nic { σ with due := σ.due.eraseIdx i } := by
              refine ⟨h.sound, h.stored, ?_, h.wire⟩
              intro r mem
              exact h.due r (List.mem_of_mem_eraseIdx mem)
            exact left.sendRetransmission given sourceLayout bufferLayout

end Sender

/-- In every run each retransmission is of a packet that went out before, with its bytes, and the
receiver can tell the two apart exactly if the access of the packet is not a bulk access. -/
theorem retransmission_alike_iff (cfg : LlrConfig) (nic : Nic) {σ : Sender}
    (reach : (senderMachine cfg nic).Reachable σ) {before after : List Emission} {header : Header}
    {payload : List UInt8} (split : σ.wire = before ++ .repair header payload :: after) :
    ∃ p : Parcel,
      .first (p.header nic).clip payload ∈ before ∧ payload = p.path.body ∧
        retryKeyOf header = retryKeyOf (p.header nic) ∧
        (Alike (p.header nic).clip header ↔ (p.header nic).memoryAccessType = .dmaBulk) :=
  (Sender.honest cfg nic σ reach).wire before (.repair header payload) after split

/-- Node 0 asks node 1 for a word that it waits for. -/
def loadParcel : Parcel where
  path := .memorySemantic 1 64 (.read 8) .syncLoadStore
  seqNum := 0

/-- It sends it a packet of data. -/
def dataParcel : Parcel where
  path := .data 1 0 0 [1, 2, 3]
  seqNum := 0

/-- A packet is sent, its number is asked for, and it is sent again. -/
def sentTwice (p : Parcel) : Sender :=
  ((Sender.handle patientConfig loneNic {} (.send p)).handle patientConfig loneNic
    (.sackRequest (fun _ _ => []) {0} 1 (p.header loneNic).flowId 0)).handle patientConfig loneNic
      (.repair 0 .last .last)

theorem Sender.reachable_handle {cfg : LlrConfig} {σ : Sender} {a : SenderAct}
    (reach : (senderMachine cfg nic).Reachable σ) (enabled : σ.Enabled a) :
    (senderMachine cfg nic).Reachable (σ.handle cfg nic a) := .step (a := a) reach enabled rfl

theorem reachable_sentTwice (p : Parcel) (fits : p.path.Fits) :
    (senderMachine patientConfig loneNic).Reachable (sentTwice p) := by
  apply Sender.reachable_handle
  · apply Sender.reachable_handle
    · exact Sender.reachable_handle (.init rfl) fits
    · intro key lostHdr q none
      cases none
  · trivial

theorem wire_sentTwice (p : Parcel) :
    (sentTwice p).wire = (((Sender.handle patientConfig loneNic {} (.send p)).dispatch
      (LlrManager.sackLoop patientConfig (Sender.lossCallback loneNic fun _ _ => [])
        [⟨0, 1, (p.header loneNic).flowId, 0⟩]
        (Sender.handle patientConfig loneNic {} (.send p)).llr)).handle patientConfig loneNic
          (.repair 0 .last .last)).wire := by
  rw [sentTwice]
  show (((Sender.handle patientConfig loneNic {} (.send p)).dispatch
    (LlrManager.handleSackRequest patientConfig _ _ _ _ _ _)).handle _ _ _).wire = _
  rw [LlrManager.handleSackRequest, Finset.sort_singleton]
  rfl

/-- The packet of data comes back as it was. -/
theorem retransmission_alike_iff_dataParcel :
    ∃ p : Parcel, .first (p.header loneNic).clip [1, 2, 3] ∈
        [Emission.first (dataParcel.header loneNic).clip [1, 2, 3]] ∧ [1, 2, 3] = p.path.body ∧
      retryKeyOf (Sender.retryHeader loneNic (dataParcel.header loneNic).clip) =
        retryKeyOf (p.header loneNic) ∧
      (Alike (p.header loneNic).clip
          (Sender.retryHeader loneNic (dataParcel.header loneNic).clip) ↔
        (p.header loneNic).memoryAccessType = .dmaBulk) := by
  have split : (sentTwice dataParcel).wire =
      [.first (dataParcel.header loneNic).clip [1, 2, 3]] ++
        .repair (Sender.retryHeader loneNic (dataParcel.header loneNic).clip) [1, 2, 3] :: [] := by
    rw [wire_sentTwice]
    decide +kernel
  exact retransmission_alike_iff patientConfig loneNic (reachable_sentTwice dataParcel trivial) split

/-- The load comes back as a bulk access. -/
theorem not_alike_loadParcel :
    ¬∀ (cfg : LlrConfig) (nic : Nic) (σ : Sender), (senderMachine cfg nic).Reachable σ →
      ∀ before after header payload, σ.wire = before ++ .repair header payload :: after →
        ∃ original, .first original payload ∈ before ∧ Alike original header := by
  intro all
  have split : (sentTwice loadParcel).wire =
      [.first (loadParcel.header loneNic).clip loadParcel.path.body] ++
        .repair (Sender.retryHeader loneNic (loadParcel.header loneNic).clip)
          loadParcel.path.body :: [] := by
    rw [wire_sentTwice]
    decide +kernel
  obtain ⟨original, mem, alike⟩ :=
    all patientConfig loneNic (sentTwice loadParcel) (reachable_sentTwice loadParcel trivial) _ _ _ _ split
  obtain ⟨rfl, -⟩ := Emission.first.inj (List.mem_singleton.mp mem)
  have different : ¬Alike (loadParcel.header loneNic).clip
      (Sender.retryHeader loneNic (loadParcel.header loneNic).clip) := by
    decide +kernel
  exact different alike

end ProtoBridge.Endpoint
