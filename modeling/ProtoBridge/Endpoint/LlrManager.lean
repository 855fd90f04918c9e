import Mathlib.Data.Finset.Sort
import Mathlib.Data.UInt
import ProtoBridge.Endpoint.StrictGbn
import ProtoBridge.Lib.UnorderedMap

/-!
# The link-level retry manager

A sender keeps what it has sent until it is acknowledged: the packet itself in a source
store, and a fast copy of it in a retry buffer of bounded size. A report of a loss names
one number, and everything from there on, or a set of numbers. A packet that is named
more often than the limit allows is given up, and the endpoint is told.
-/

namespace ProtoBridge.Endpoint

open Lib

/-- `LlrOverflowPolicy`. -/
inductive LlrOverflowPolicy
  | dropOldest
  | dropNewest
  deriving DecidableEq

/-- A `FabricHeader`: what the manager reads of it, and the other fields. -/
structure FabricHeader where
  flowId : UInt16
  virtualChannel : UInt8
  payloadSize : UInt32
  other : List UInt8 := []
  deriving DecidableEq

/-- A packet. -/
structure Packet where
  header : FabricHeader
  payload : List UInt8 := []
  deriving DecidableEq

/-- `LlrManager::RetryKey`. -/
structure RetryKey where
  seqNum : UInt32
  destRank : UInt16
  flowId : UInt16
  vcId : UInt8
  deriving DecidableEq

/-- `LlrManager::RetryEntry`. -/
structure RetryEntry where
  packet : Packet
  destRank : UInt16
  deriving DecidableEq

/-- `LlrManager::SourceEntry`. The event of the timer is when it expires. -/
structure SourceEntry where
  packet : Packet
  destRank : UInt16
  retryCount : UInt32 := 0
  wireArmed : Bool := false
  timeoutEvent : Option Nat := none
  deriving DecidableEq

/-- `LlrManager::Retransmission`. -/
structure Retransmission where
  packet : Packet
  readyDelay : Nat
  sourceReload : Bool
  deriving DecidableEq

/-- The attributes. `TimeBounds::FromRate` is floating-point arithmetic, and left open. -/
structure LlrConfig where
  retryLimit : UInt32 := 3
  retryTimeout : Nat := 1000
  maxBufferSize : UInt32 := 8192
  overflowPolicy : LlrOverflowPolicy := .dropOldest
  sourceReloadBandwidth : UInt64 := 4800000000000
  sourceReloadLatency : Nat := 300
  fromRate : UInt32 → UInt64 → Nat

/-- `Time::Max()`, in ticks. -/
def timeMax : Nat := 2 ^ 63 - 1

/-- `TimeBounds::SaturatingAdd`, of times that are not negative. -/
def saturatingAdd (a b : Nat) : Nat := if b > timeMax - a then timeMax else a + b

/-- The trace of a manager: a packet was stored; an acknowledgement took one away; a fast copy was
evicted or refused; a request named a key, and was answered; a timer ran out. -/
inductive LlrObs
  | stored (key : RetryKey) (packet : Packet)
  | acked (key : RetryKey)
  | overflow (seqNum : UInt32) (bufferSize : Nat)
  | missed (key : RetryKey)
  | retransmitted (key : RetryKey) (answer : Retransmission)
  | lost (key : RetryKey) (header : FabricHeader)
  | timedOut (key : RetryKey)
  deriving DecidableEq

/-- The counters. -/
structure LlrStats where
  peakBufferSize : UInt32 := 0
  retransmittedPackets : UInt64 := 0
  overflowCount : UInt64 := 0
  permanentLossCount : UInt64 := 0
  retryMissCount : UInt64 := 0
  sourceReloadCount : UInt64 := 0
  sourceReloadBytes : UInt64 := 0
  sourceReloadServiceTime : Nat := 0

/-- An `LlrManager`, and the time it is called at. -/
structure LlrManager where
  retryBuffer : UnorderedMap RetryKey RetryEntry := .empty
  sourceStore : UnorderedMap RetryKey SourceEntry := .empty
  sourceReloadAvailable : Nat := 0
  stats : LlrStats := {}
  now : Nat := 0
  log : List LlrObs := []

/-- A call of `StorePacket`, and where the two tables put a new entry. -/
structure StoreCall where
  seqNum : UInt32
  packet : Packet
  destRank : UInt16
  sourceLayout : Layout (RetryKey × SourceEntry) := .last
  bufferLayout : Layout (RetryKey × RetryEntry) := .last

/-- The key a packet is stored under. -/
def StoreCall.key (c : StoreCall) : RetryKey :=
  ⟨c.seqNum, c.destRank, c.packet.header.flowId, c.packet.header.virtualChannel⟩

namespace LlrManager

/-- `TimeBounds::CanSchedule`. -/
def canSchedule (σ : LlrManager) (delay : Nat) : Bool := delay < timeMax - σ.now

/-- `RemoveOutstandingPacket`. -/
def removeOutstandingPacket (σ : LlrManager) (key : RetryKey) : LlrManager :=
  { σ with
    sourceStore := σ.sourceStore.erase key
    retryBuffer := σ.retryBuffer.erase key }

/-- The scan for the lowest sequence number; the first of several. -/
def oldest : List (RetryKey × RetryEntry) → Option RetryKey
  | [] => none
  | e :: rest =>
      match oldest rest with
      | none => some e.1
      | some key => if key.seqNum < e.1.seqNum then some key else some e.1

/-- `EnforceBufferLimit`, for at most `fuel` evictions. -/
def enforceBufferLimit (cfg : LlrConfig) : Nat → LlrManager → LlrManager
  | 0, σ => σ
  | fuel + 1, σ =>
      if cfg.maxBufferSize = 0 then σ
      else if σ.retryBuffer.size ≥ cfg.maxBufferSize.toNat then
        match cfg.overflowPolicy with
        | .dropOldest =>
            match oldest σ.retryBuffer.entries with
            | none => σ
            | some key =>
                enforceBufferLimit cfg fuel
                  { σ with
                    log := σ.log ++ [.overflow key.seqNum σ.retryBuffer.size]
                    stats := { σ.stats with overflowCount := σ.stats.overflowCount + 1 }
                    retryBuffer := σ.retryBuffer.erase key }
        | .dropNewest => σ
      else σ

/-- The source record of a stored packet: a new one, or the packet of the old one replaced. -/
def storeSource (σ : LlrManager) (c : StoreCall) : LlrManager :=
  match σ.sourceStore.find? c.key with
  | none =>
      { σ with
        sourceStore := σ.sourceStore.emplace c.sourceLayout c.key
          { packet := c.packet, destRank := c.destRank } }
  | some _ =>
      { σ with
        sourceStore := σ.sourceStore.update c.key fun source =>
          { source with packet := c.packet, destRank := c.destRank } }

/-- A packet stored again after its timer has run out keeps a timer. -/
def rearm (cfg : LlrConfig) (σ : LlrManager) (key : RetryKey) : LlrManager :=
  { σ with
    sourceStore := σ.sourceStore.update key fun source =>
      if source.timeoutEvent.isSome then source
      else if !source.wireArmed then source
      else if cfg.retryTimeout > 0 ∧ σ.canSchedule cfg.retryTimeout then
        { source with timeoutEvent := some (σ.now + cfg.retryTimeout) }
      else source }

/-- The fast copy of a stored packet goes into the retry buffer. -/
def insertCopy (σ : LlrManager) (c : StoreCall) : LlrManager :=
  let retryBuffer := σ.retryBuffer.emplace c.bufferLayout c.key
    { packet := c.packet, destRank := c.destRank }
  { σ with
    retryBuffer
    stats := { σ.stats with
      peakBufferSize := max σ.stats.peakBufferSize (UInt32.ofNat retryBuffer.size) } }

/-- The part of `StorePacket` that is about the retry buffer; it tells whether the copy was kept. -/
def storeCopy (cfg : LlrConfig) (σ : LlrManager) (c : StoreCall) : LlrManager × Bool :=
  let σ := { σ with retryBuffer := σ.retryBuffer.erase c.key }
  if 0 < cfg.maxBufferSize ∧ σ.retryBuffer.size ≥ cfg.maxBufferSize.toNat then
    match cfg.overflowPolicy with
    | .dropNewest =>
        ({ σ with
          log := σ.log ++ [.overflow c.seqNum σ.retryBuffer.size]
          stats := { σ.stats with overflowCount := σ.stats.overflowCount + 1 } }, false)
    | .dropOldest => ((enforceBufferLimit cfg σ.retryBuffer.size σ).insertCopy c, true)
  else (σ.insertCopy c, true)

/-- `StorePacket`. -/
def storePacket (cfg : LlrConfig) (σ : LlrManager) (c : StoreCall) : LlrManager × Bool :=
  let σ : LlrManager := { σ with log := σ.log ++ [.stored c.key c.packet] }
  ((σ.storeSource c).rearm cfg c.key).storeCopy cfg c

/-- `ArmRetryTimeoutAtTransmission`: a timer that is running is only ever put off. -/
def armRetryTimeoutAtTransmission (cfg : LlrConfig) (σ : LlrManager) (key : RetryKey) : LlrManager :=
  if cfg.retryTimeout = 0 then σ
  else if !σ.canSchedule cfg.retryTimeout then σ
  else
    let deadline := σ.now + cfg.retryTimeout
    { σ with
      sourceStore := σ.sourceStore.update key fun source =>
        { source with
          wireArmed := true
          timeoutEvent := some (max (source.timeoutEvent.getD 0) deadline) } }

/-- `RemovePacket`; it tells whether there was an entry. -/
def removePacket (σ : LlrManager) (key : RetryKey) : LlrManager × Bool :=
  let hadEntry := (σ.sourceStore.find? key).isSome
  let σ := if hadEntry then { σ with log := σ.log ++ [.acked key] } else σ
  (σ.removeOutstandingPacket key, hadEntry)

/-- `RemovePacketsUpTo`. -/
def removePacketsUpTo (σ : LlrManager) (upTo : RetryKey) : LlrManager :=
  let ackedKeys := σ.sourceStore.keys.filter fun key =>
    key.destRank = upTo.destRank ∧ key.flowId = upTo.flowId ∧ key.vcId = upTo.vcId ∧
      key.seqNum ≤ upTo.seqNum
  ackedKeys.foldl
    (fun σ key => removeOutstandingPacket { σ with log := σ.log ++ [.acked key] } key) σ

/-- `RemoveSackedPackets`, for the order in which an iteration meets the numbers. -/
def removeSackedPackets (σ : LlrManager) (ackedSeqNums : List UInt32) (destRank flowId : UInt16)
    (vcId : UInt8) : LlrManager :=
  ackedSeqNums.foldl (fun σ seqNum => (σ.removePacket ⟨seqNum, destRank, flowId, vcId⟩).1) σ

/-- `ReserveSourceReload`: how long a reload takes from now. -/
def reserveSourceReload (cfg : LlrConfig) (σ : LlrManager) (bytes : UInt32) : LlrManager × Nat :=
  let transferTime :=
    if cfg.sourceReloadBandwidth > 0 ∧ bytes > 0 then cfg.fromRate bytes cfg.sourceReloadBandwidth
    else 0
  let serviceTime := saturatingAdd cfg.sourceReloadLatency transferTime
  let start := max σ.now σ.sourceReloadAvailable
  let sourceReloadAvailable := saturatingAdd start serviceTime
  ({ σ with
    sourceReloadAvailable
    stats := { σ.stats with
      sourceReloadCount := σ.stats.sourceReloadCount + 1
      sourceReloadBytes := σ.stats.sourceReloadBytes + bytes.toUInt64
      sourceReloadServiceTime := saturatingAdd σ.stats.sourceReloadServiceTime serviceTime } },
    sourceReloadAvailable - σ.now)

end LlrManager

/-- A call that whoever is told of a loss may make. -/
inductive LossCall
  | storePacket (c : StoreCall)
  | armRetryTimeoutAtTransmission (key : RetryKey)
  | removePacket (key : RetryKey)
  | removePacketsUpTo (upTo : RetryKey)
  | removeSackedPackets (ackedSeqNums : List UInt32) (destRank flowId : UInt16) (vcId : UInt8)

namespace LlrManager

/-- Such a call. -/
def callBack (cfg : LlrConfig) (σ : LlrManager) : LossCall → LlrManager
  | .storePacket c => (σ.storePacket cfg c).1
  | .armRetryTimeoutAtTransmission key => σ.armRetryTimeoutAtTransmission cfg key
  | .removePacket key => (σ.removePacket key).1
  | .removePacketsUpTo upTo => σ.removePacketsUpTo upTo
  | .removeSackedPackets ackedSeqNums destRank flowId vcId =>
      σ.removeSackedPackets ackedSeqNums destRank flowId vcId

/-- What `PermanentLossCallback` does to the manager when it is told of a loss. -/
abbrev LossCallback := RetryKey → FabricHeader → List LossCall

/-- The callback that stores packets and does nothing else. -/
def storing (onLoss : RetryKey → FabricHeader → List StoreCall) : LossCallback :=
  fun key lostHdr => (onLoss key lostHdr).map .storePacket

/-- A packet named beyond the limit is given up, and the endpoint told. -/
def giveUp (cfg : LlrConfig) (onLoss : LossCallback) (σ : LlrManager) (key : RetryKey)
    (lostHdr : FabricHeader) : LlrManager :=
  let σ := σ.removeOutstandingPacket key
  let σ := { σ with
    log := σ.log ++ [.lost key lostHdr]
    stats := { σ.stats with permanentLossCount := σ.stats.permanentLossCount + 1 } }
  (onLoss key lostHdr).foldl (callBack cfg) σ

/-- The copy a request is answered with, from the buffer or the source; `orderingDelay` is what the
numbers before this one have to wait. -/
def fetchCopy (cfg : LlrConfig) (σ : LlrManager) (key : RetryKey) (source : SourceEntry)
    (orderingDelay : Nat) : LlrManager × Retransmission :=
  match σ.retryBuffer.find? key with
  | some entry => (σ, ⟨entry.packet, orderingDelay, false⟩)
  | none =>
      let (σ, delay) := σ.reserveSourceReload cfg source.packet.header.payloadSize
      ({ σ with stats := { σ.stats with retryMissCount := σ.stats.retryMissCount + 1 } },
        ⟨source.packet, max orderingDelay delay, true⟩)

/-- A retransmission is on its way; its timer starts on the wire. -/
def noteRetry (σ : LlrManager) (key : RetryKey) (r : Retransmission) : LlrManager :=
  { σ with
    sourceStore := σ.sourceStore.update key fun source =>
      { source with wireArmed := false, timeoutEvent := none }
    log := σ.log ++ [.retransmitted key r]
    stats := { σ.stats with retransmittedPackets := σ.stats.retransmittedPackets + 1 } }

/-- The body of the loop of both requests, at a key that is in the source store. -/
def answerRequest (cfg : LlrConfig) (onLoss : LossCallback) (σ : LlrManager) (key : RetryKey)
    (source : SourceEntry) (orderingDelay : Nat) : LlrManager × Option Retransmission :=
  let source := { source with retryCount := source.retryCount + 1 }
  let σ := { σ with sourceStore := σ.sourceStore.update key fun _ => source }
  if source.retryCount > cfg.retryLimit then
    (σ.giveUp cfg onLoss key source.packet.header, none)
  else
    let (σ, r) := σ.fetchCopy cfg key source orderingDelay
    (σ.noteRetry key r, some r)

/-- The loop of `HandleRetryRequest`. -/
def retryLoop (cfg : LlrConfig) (onLoss : LossCallback) :
    List RetryKey → Nat → LlrManager → LlrManager × List Retransmission
  | [], _, σ => (σ, [])
  | key :: keys, orderingDelay, σ =>
      match σ.sourceStore.find? key with
      | none => retryLoop cfg onLoss keys orderingDelay σ
      | some source =>
          let (σ, r) := σ.answerRequest cfg onLoss key source orderingDelay
          let (σ, rs) := retryLoop cfg onLoss keys ((r.map (·.readyDelay)).getD orderingDelay) σ
          (σ, r.toList ++ rs)

/-- The keys a go-back-N request names, in order of their numbers. -/
def namedFrom (σ : LlrManager) (first : RetryKey) : List RetryKey :=
  ((σ.sourceStore.entries.filter fun e =>
    e.1.flowId = first.flowId ∧ e.1.seqNum ≥ first.seqNum ∧ e.2.destRank = first.destRank ∧
      e.1.vcId = first.vcId).map Prod.fst).mergeSort fun a b => a.seqNum ≤ b.seqNum

/-- `HandleRetryRequest`. -/
def handleRetryRequest (cfg : LlrConfig) (onLoss : LossCallback) (σ : LlrManager)
    (first : RetryKey) : LlrManager × List Retransmission :=
  let keys := σ.namedFrom first
  let (σ, retransmissions) := retryLoop cfg onLoss keys 0 σ
  let stats := { σ.stats with retryMissCount := σ.stats.retryMissCount + 1 }
  (if keys.isEmpty then { σ with stats } else σ, retransmissions)

/-- The loop of `HandleSackRequest`. -/
def sackLoop (cfg : LlrConfig) (onLoss : LossCallback) :
    List RetryKey → LlrManager → LlrManager × List Retransmission
  | [], σ => (σ, [])
  | key :: keys, σ =>
      match σ.sourceStore.find? key with
      | none =>
          sackLoop cfg onLoss keys
            { σ with
              log := σ.log ++ [.missed key]
              stats := { σ.stats with retryMissCount := σ.stats.retryMissCount + 1 } }
      | some source =>
          let (σ, r) := σ.answerRequest cfg onLoss key source 0
          let (σ, rs) := sackLoop cfg onLoss keys σ
          (σ, r.toList ++ rs)

/-- `HandleSackRequest`. -/
def handleSackRequest (cfg : LlrConfig) (onLoss : LossCallback) (σ : LlrManager)
    (nackSeqNums : Finset UInt32) (sourceRank flowId : UInt16) (vcId : UInt8) :
    LlrManager × List Retransmission :=
  sackLoop cfg onLoss
    ((nackSeqNums.sort (· ≤ ·)).map fun seqNum => ⟨seqNum, sourceRank, flowId, vcId⟩) σ

/-- `OnRetryTimeout`: the event has run; the endpoint answers it with a request. -/
def onRetryTimeout (σ : LlrManager) (key : RetryKey) : LlrManager :=
  match σ.sourceStore.find? key with
  | none => σ
  | some _ =>
      { σ with
        sourceStore := σ.sourceStore.update key fun source => { source with timeoutEvent := none }
        log := σ.log ++ [.timedOut key] }

end LlrManager

/-- What can happen to a manager. -/
inductive LlrAct
  | storePacket (c : StoreCall)
  | armRetryTimeoutAtTransmission (key : RetryKey)
  | removePacket (key : RetryKey)
  | removePacketsUpTo (upTo : RetryKey)
  | removeSackedPackets (ackedSeqNums : List UInt32) (destRank flowId : UInt16) (vcId : UInt8)
  | handleRetryRequest (onLoss : LlrManager.LossCallback) (first : RetryKey)
  | handleSackRequest (onLoss : LlrManager.LossCallback) (nackSeqNums : Finset UInt32)
      (sourceRank flowId : UInt16) (vcId : UInt8)
  | retryTimeout (key : RetryKey)
  | elapse (later : Nat)

namespace LlrManager

/-- A timer runs out at its time, and time does not pass it. -/
def enabled (σ : LlrManager) : LlrAct → Prop
  | .retryTimeout key => ∃ source, σ.sourceStore.find? key = some source ∧
      source.timeoutEvent = some σ.now
  | .elapse later => σ.now ≤ later ∧ later ≤ timeMax ∧
      ∀ e ∈ σ.sourceStore.entries, ∀ t ∈ e.2.timeoutEvent, later ≤ t
  | _ => True

/-- One input. -/
def exec (cfg : LlrConfig) (σ : LlrManager) : LlrAct → LlrManager
  | .storePacket c => (σ.storePacket cfg c).1
  | .armRetryTimeoutAtTransmission key => σ.armRetryTimeoutAtTransmission cfg key
  | .removePacket key => (σ.removePacket key).1
  | .removePacketsUpTo upTo => σ.removePacketsUpTo upTo
  | .removeSackedPackets ackedSeqNums destRank flowId vcId =>
      σ.removeSackedPackets ackedSeqNums destRank flowId vcId
  | .handleRetryRequest onLoss first => (σ.handleRetryRequest cfg onLoss first).1
  | .handleSackRequest onLoss nackSeqNums sourceRank flowId vcId =>
      (σ.handleSackRequest cfg onLoss nackSeqNums sourceRank flowId vcId).1
  | .retryTimeout key => σ.onRetryTimeout key
  | .elapse later => { σ with now := later }

end LlrManager

/-- A manager on its own. -/
def llrMachine (cfg : LlrConfig) : Machine LlrManager LlrAct Unit where
  init := (· = {})
  enabled := LlrManager.enabled
  exec σ a := .ok (σ.exec cfg a)

end ProtoBridge.Endpoint
