import Mathlib.Data.List.AList
import ProtoBridge.Lib.Machine
import ProtoBridge.Lib.Pool
import ProtoBridge.Rdma.Types

/-!
# The RDMA operation engine

`RdmaOperationEngine` as functions on an explicit state. Every closure the engine
hands to the simulator or to the asynchronous services of the submission model
(DMA reads and writes, staging copies, completion writes) is a continuation in
`pending`; it runs at some later step, in any order, or never. The latter is what
happens to a closure past the horizon, and what disposal does to all of them.

Objects shared between closures are cells of a store and are named by their
number. The calls that leave the engine are recorded in `log`, next to the
changes of memory words, so that a run can be spoken about afterwards.
-/

namespace ProtoBridge.Rdma

open Lib
open Function (update)

/-- `NS_ABORT_MSG` reasons of the engine and of the services it calls. -/
inductive Abort
  | badRegistration
  | notDrained
  | outsideRegistration
  | unaligned
  | badReceive
  | receiveQueueFull
  | receiveQp
  | zeroPayloadLimit
  | payloadExceedsWork
  | ledgerOverflow
  | receiveStagingTooSmall
  | receiveStagingUnderflow
  | sourceStagingTooSmall
  | sourceStagingUnderflow
  | unknownAtomic
  deriving DecidableEq

/-- The messages of those aborts. The last one is no check of the source: it stands
for `pop_front` on a queue that is not there. -/
def Abort.message : Abort → String
  | .badRegistration => "RDMA registration needs a new nonzero key and a non-wrapping region"
  | .notDrained => "Drain RDMA operations, receives and waits before unregistering memory"
  | .outsideRegistration => "Local RDMA memory access outside registration"
  | .unaligned => "RDMA atomic/signal address must be 8-byte aligned"
  | .badReceive => "Invalid RDMA receive buffer"
  | .receiveQueueFull => "RDMA receive queue is full"
  | .receiveQp => "Receive QP out of range"
  | .zeroPayloadLimit => "RdmaOperationEngine::SendPayload zero payload-limit cap"
  | .payloadExceedsWork => "RDMA payload exceeds its work request"
  | .ledgerOverflow => "RDMA receive byte ledger overflow"
  | .receiveStagingTooSmall =>
      "Incoming RDMA WR exceeds receive staging buffer; use smaller staging chunks"
  | .receiveStagingUnderflow => "Receive staging buffer accounting underflow"
  | .sourceStagingTooSmall => "Responder staging buffer is too small"
  | .sourceStagingUnderflow => "Source staging buffer accounting underflow"
  | .unknownAtomic => ""

/-! ## Records -/

/-- `Region`. -/
structure Region where
  base : Nat
  bytes : Nat
  deriving DecidableEq

/-- `PostedReceive`. `serial` names the object: two posts may share their `id`. -/
structure PostedReceive where
  serial : Nat
  id : Nat
  address : Nat
  bytes : Nat
  key : Nat := 1
  qp : Nat := 2 ^ 32 - 1
  peer : Nat := 2 ^ 16 - 1
  deriving DecidableEq

/-- The arguments of `Transmit`. -/
structure Transmission where
  peer : Nat
  packet : List UInt8
  tag : Tag
  qp : Nat
  flow : Nat
  vc : Nat
  overhead : Nat
  deriving DecidableEq

/-- `Source`. The work's peer is kept with it instead of asked from the model. -/
structure Source where
  tag : Tag
  peer : Nat
  qp : Nat
  flow : Nat
  vc : Nat
  retryPending : Bool := false
  done : Bool := false
  result : UInt64 := 0
  deriving DecidableEq

/-- `Piece`: one fragment with its payload. -/
structure Piece where
  packet : List UInt8
  header : Header
  tag : Tag
  deriving DecidableEq

/-- `Incoming`: a work request being received. -/
structure Incoming where
  tag : Tag := {}
  qp : Nat := 0
  received : Nat := 0
  address : Nat := 0
  allocated : Bool := false
  response : Bool := false
  receive : Option PostedReceive := none
  waiting : List Piece := []
  staged : List Piece := []
  deriving DecidableEq

/-- The immutable part of `Responder`, with the object's number. -/
structure Responder where
  serial : Nat
  tag : Tag
  qp : Nat
  flow : Nat
  vc : Nat
  header : Header
  deriving DecidableEq

/-- The new value of the word, from the old one. -/
def Responder.update (r : Responder) (old : UInt64) : UInt64 :=
  match r.tag.opcode with
  | .fetchAdd => old + r.tag.operand
  | .compareSwap => if old = r.tag.compare then r.tag.operand else old
  | _ =>
      match r.tag.signalOp with
      | .set => r.tag.signalValue
      | .add => old + r.tag.signalValue

/-- The response that carries the old value back. -/
def Responder.reply (r : Responder) (old : UInt64) : Transmission :=
  { peer := r.tag.owner, packet := wordBytes old, qp := r.qp, flow := r.flow, vc := r.vc
    overhead := 0
    tag := { r.tag with phase := .atomicResponse, bytes := 8, offset := 0, zeroPayload := old == 0 } }

/-- `Wait`. -/
structure Wait where
  id : Nat
  address : Nat
  value : UInt64
  comparison : Comparison
  deriving DecidableEq

/-- `Sent`. -/
structure Sent where
  tag : Tag
  bytes : Nat
  deriving DecidableEq

/-- The closures of the engine, by the place that creates them. -/
inductive Cont
  | enqueueReceive (r : PostedReceive)
  | completeReceive (r : PostedReceive) (c : ReceiveCompletion)
  | allocated (key : Key) (i : Nat)
  | destinationWritten (key : Key) (i : Nat) (p : Piece)
  | destinationCopied (key : Key) (i : Nat) (p : Piece)
  | retry (id : Nat)
  | transmit (t : Transmission)
  | readStaged (r : Responder)
  | readServed (r : Responder)
  | atomicStaged (r : Responder)
  | atomicRead (r : Responder)
  | atomicServed (r : Responder)
  | atomicExecute (r : Responder)
  | atomicAcquired (r : Responder) (old next : UInt64)
  | atomicCopied (r : Responder) (old next : UInt64)
  | signalled (w : Wait) (value : UInt64)
  | foreign
  deriving DecidableEq

/-- History of the run: the calls that leave the engine, and what happened to
memory and to the queues of atomics. -/
inductive Obs
  | transmitted (t : Transmission)
  | acknowledged (h : Header) (tag : Option Tag)
  | held (h : Header)
  | completed (id : Nat) (success : Bool)
  | failed (id : Nat)
  | retried (id attempt : Nat)
  | received (r : PostedReceive) (c : ReceiveCompletion)
  | signalled (w : Wait) (value : UInt64)
  | accepted (key : Key) (p : Piece)
  | taken (key : Key) (r : PostedReceive)
  | rejected (key : Key) (attempt : Nat)
  | arrived (r : Responder)
  | queued (r : Responder)
  | executed (r : Responder) (old next : UInt64)
  | stored (address bytes : Nat)
  deriving DecidableEq

/-- `RdmaOperationEngine` with the parts of the submission model it drives: the two
staging pools. `payloadLimit` is the callback of `SetPayloadLimit`. -/
structure Engine where
  config : Config
  rank : Nat := 0
  payloadLimit : Option (Nat → Nat) := none
  regions : List (Nat × Region) := []
  memory : Nat → Option UInt8 := fun _ => none
  sources : AList (fun _ : Nat => Source) := ∅
  incoming : AList (fun _ : Key => Nat) := ∅
  incomingObj : Nat → Incoming := fun _ => {}
  nextIncoming : Nat := 0
  rejectedAttempts : Key → Option Nat := fun _ => none
  failedIncoming : Key → Bool := fun _ => false
  responders : AList (fun _ : Key => Responder) := ∅
  nextResponder : Nat := 0
  respondersStaged : Nat → Bool := fun _ => false
  respondersAcknowledged : Nat → Nat := fun _ => 0
  responderWaiting : List Responder := []
  activeResponses : Nat := 0
  atomics : Nat → List Responder := fun _ => []
  receives : List PostedReceive := []
  receiveReserved : Nat := 0
  postedReceives : Nat := 0
  waits : List Wait := []
  nextWait : Nat := 1
  ackMetadata : PacketKey → Option Tag := fun _ => none
  sent : PacketKey → Option Sent := fun _ => none
  sourceStaging : Pool Cont
  receiveStaging : Pool Cont
  pending : List Cont := []
  log : List Obs := []

/-- An idle engine of a given configuration. -/
def Engine.idle (c : Config) (rank : Nat) : Engine :=
  { config := c, rank, sourceStaging := { capacity := c.stagingBufferBytes }
    receiveStaging := { capacity := c.stagingBufferBytes } }

namespace Engine

/-! ## Services -/

/-- Hand a closure to the simulator or to an asynchronous service. -/
@[simps]
def pend (σ : Engine) (k : Cont) : Engine := { σ with pending := σ.pending ++ [k] }

/-- Add to the history. -/
@[simps]
def record (σ : Engine) (e : Obs) : Engine := { σ with log := σ.log ++ [e] }

/-- `PumpReceiveStaging`: each grant schedules its callback. -/
@[simps]
def pumpReceiveStaging (σ : Engine) : Engine :=
  { σ with
    receiveStaging := σ.receiveStaging.pump
    pending := σ.pending ++ σ.receiveStaging.granted }

/-- `AcquireReceiveStaging`. -/
def acquireReceiveStaging (σ : Engine) (bytes : Nat) (k : Cont) : Except Abort Engine :=
  if bytes = 0 ∨ bytes > σ.config.stagingBufferBytes then .error .receiveStagingTooSmall
  else .ok (pumpReceiveStaging { σ with receiveStaging := σ.receiveStaging.request bytes k })

/-- `ReleaseReceiveStaging`. -/
def releaseReceiveStaging (σ : Engine) (bytes : Nat) : Except Abort Engine :=
  if bytes > σ.receiveStaging.used then .error .receiveStagingUnderflow
  else .ok (pumpReceiveStaging { σ with receiveStaging := σ.receiveStaging.release bytes })

/-- `PumpSourceStaging`: each grant starts a D2H copy that ends in its callback. -/
@[simps]
def pumpSourceStaging (σ : Engine) : Engine :=
  { σ with
    sourceStaging := σ.sourceStaging.pump
    pending := σ.pending ++ σ.sourceStaging.granted }

/-- `StageSourcePayload`. -/
def stageSourcePayload (σ : Engine) (bytes : Nat) (k : Cont) : Except Abort Engine :=
  if bytes = 0 ∨ bytes > σ.config.stagingBufferBytes then .error .sourceStagingTooSmall
  else .ok (pumpSourceStaging { σ with sourceStaging := σ.sourceStaging.request bytes k })

/-- `ReleaseSourceStaging`. -/
def releaseSourceStaging (σ : Engine) (bytes : Nat) : Except Abort Engine :=
  if bytes > σ.sourceStaging.used then .error .sourceStagingUnderflow
  else .ok (pumpSourceStaging { σ with sourceStaging := σ.sourceStaging.release bytes })

/-! ## Registered memory -/

/-- `InRegion`. -/
def inRegion (σ : Engine) (key address bytes : Nat) : Bool :=
  match σ.regions.lookup key with
  | none => false
  | some r => r.base ≤ address && address - r.base ≤ r.bytes && bytes ≤ r.bytes - (address - r.base)

/-- `InAnyRegion`. -/
def inAnyRegion (σ : Engine) (address bytes : Nat) : Bool :=
  σ.regions.any fun kr => σ.inRegion kr.1 address bytes

/-- `HasPending`. -/
def hasPending (σ : Engine) : Bool :=
  !σ.sources.entries.isEmpty || !σ.incoming.entries.isEmpty || !σ.responders.entries.isEmpty ||
    !σ.responderWaiting.isEmpty

/-- `RegisterMemory`. -/
def registerMemory (σ : Engine) (address bytes key : Nat) : Except Abort Engine :=
  if key = 0 ∨ bytes = 0 ∨ bytes > u64Max - address ∨ (σ.regions.lookup key).isSome then
    .error .badRegistration
  else .ok { σ with regions := σ.regions ++ [(key, ⟨address, bytes⟩)] }

/-- `UnregisterMemory`. -/
def unregisterMemory (σ : Engine) (key : Nat) : Except Abort Engine :=
  if σ.hasPending ∨ σ.receiveReserved ≠ 0 ∨ σ.waits ≠ [] then .error .notDrained
  else .ok { σ with regions := σ.regions.filter fun kr => kr.1 ≠ key }

/-- The byte at an address; absent bytes are zero. -/
def byteAt (σ : Engine) (address : Nat) : UInt8 := (σ.memory address).getD 0

/-- The map after the bytes of `data` replaced the range they cover: zero bytes are
not stored. -/
def poke (memory : Nat → Option UInt8) (address : Nat) (data : List UInt8) : Nat → Option UInt8 :=
  fun x =>
    if address ≤ x ∧ x < address + data.length then
      let b := data.getD (x - address) 0
      if b = 0 then none else some b
    else memory x

/-- The map without a range. -/
def clear (memory : Nat → Option UInt8) (address bytes : Nat) : Nat → Option UInt8 :=
  fun x => if address ≤ x ∧ x < address + bytes then none else memory x

/-- `ReadMemory`. -/
def readMemory (σ : Engine) (address bytes : Nat) : Except Abort (List UInt8) :=
  if σ.inAnyRegion address bytes then .ok ((List.range bytes).map fun i => σ.byteAt (address + i))
  else .error .outsideRegistration

/-- The value of the word at an address. -/
def word (σ : Engine) (address : Nat) : UInt64 := joinWord fun i => σ.byteAt (address + i)

/-- `ReadWord`. -/
def readWord (σ : Engine) (address : Nat) : Except Abort UInt64 :=
  if address % 8 ≠ 0 then .error .unaligned
  else if σ.inAnyRegion address 8 then .ok (σ.word address)
  else .error .outsideRegistration

/-- Every wait with the value its word has now. -/
def waitValues (σ : Engine) : List Wait → Except Abort (List (Wait × UInt64))
  | [] => .ok []
  | w :: rest => do
      let value ← σ.readWord w.address
      let values ← waitValues σ rest
      .ok ((w, value) :: values)

/-- The wait is satisfied by the value beside it. -/
def satisfied (p : Wait × UInt64) : Bool := p.1.comparison.test p.2 p.1.value

/-- `CheckWaits`: satisfied waits leave the list and are reported after `signalPoll`. -/
def checkWaits (σ : Engine) : Except Abort Engine := do
  let values ← σ.waitValues σ.waits
  .ok { σ with
    waits := (values.filter fun p => !satisfied p).map Prod.fst
    pending := σ.pending ++ (values.filter satisfied).map fun p => .signalled p.1 p.2 }

/-- `WriteMemory`. -/
def writeMemory (σ : Engine) (address : Nat) (data : List UInt8) : Except Abort Engine :=
  if σ.inAnyRegion address data.length then
    checkWaits (record { σ with memory := poke σ.memory address data }
      (.stored address data.length))
  else .error .outsideRegistration

/-- `WriteWord` by an atomic of responder `r`. -/
def commitWord (σ : Engine) (r : Responder) (old next : UInt64) : Except Abort Engine :=
  if r.tag.word % 8 ≠ 0 then .error .unaligned
  else if σ.inAnyRegion r.tag.word 8 then
    checkWaits (record { σ with memory := poke σ.memory r.tag.word (wordBytes next) }
      (.executed r old next))
  else .error .outsideRegistration

/-- The first `bytes` bytes of a packet, as `CopyData` into a zeroed buffer. -/
def copyData (packet : List UInt8) (bytes : Nat) : List UInt8 :=
  (List.range bytes).map fun i => packet.getD i 0

/-- `Store`. -/
def store (σ : Engine) (address : Nat) (packet : List UInt8) (bytes : Nat) (zero : Bool) :
    Except Abort Engine :=
  if zero then
    checkWaits (record { σ with memory := clear σ.memory address bytes } (.stored address bytes))
  else σ.writeMemory address (copyData packet bytes)

/-- `Payload`: the bytes to send and whether all of them are zero. -/
def payload (σ : Engine) (address bytes : Nat) : Except Abort (List UInt8 × Bool) :=
  if (List.range bytes).all fun i => (σ.memory (address + i)).isNone then
    .ok (List.replicate bytes 0, true)
  else do
    let data ← σ.readMemory address bytes
    .ok (data, false)

/-- `WaitSignal`. -/
def waitSignal (σ : Engine) (address : Nat) (comparison : Comparison) (value : UInt64) :
    Except Abort Engine := do
  let _ ← σ.readWord address
  checkWaits { σ with
    nextWait := σ.nextWait + 1
    waits := σ.waits ++ [⟨σ.nextWait, address, value, comparison⟩] }

/-- `CancelSignalWait`. -/
def cancelSignalWait (σ : Engine) (id : Nat) : Engine :=
  { σ with waits := σ.waits.filter fun w => w.id ≠ id }

/-! ## Acknowledgements -/

/-- The metadata of an acknowledgement is replaced when there is some. -/
def decorate (σ : Engine) (h : Header) (completion : Option Tag) : Engine :=
  match completion with
  | none => σ
  | some tag => { σ with ackMetadata := update σ.ackMetadata h.ackKey (some tag) }

/-- `Acknowledge`: the acknowledgement leaves with the metadata stored for it. -/
def acknowledge (σ : Engine) (h : Header) (completion : Option Tag) : Engine :=
  let σ := σ.decorate h completion
  σ.record (.acknowledged h (σ.ackMetadata h.ackKey))

/-! ## Sending -/

/-- `m_transmit`. -/
def transmit (σ : Engine) (t : Transmission) : Engine := σ.record (.transmitted t)

/-- The largest fragment for a peer. -/
def payloadCap (σ : Engine) (peer : Nat) : Nat :=
  match σ.payloadLimit with
  | some limit => limit peer
  | none => max 1 (if σ.config.mtuBytes > 14 then σ.config.mtuBytes - 14 else 1)

/-- The loop of `SendPayload`: start and size of each fragment. The fuel is a bound on
the bytes left. -/
def fragments (cap bytes : Nat) : Nat → Nat → List (Nat × Nat)
  | 0, _ => []
  | fuel + 1, offset =>
      if offset < bytes then
        let count := min cap (bytes - offset)
        (offset, count) :: fragments cap bytes fuel (offset + count)
      else []

/-- The four bytes of immediate data ride on the first fragment. -/
def immediateBytes (tag : Tag) (offset : Nat) : Nat :=
  if offset = 0 ∧ (tag.opcode = .sendImm ∨ tag.opcode = .writeImm) then 4 else 0

/-- One fragment of `SendPayload`, read from memory now and sent after its DMA. -/
def sendFragment (σ : Engine) (peer : Nat) (tag : Tag) (qp flow vc address : Nat)
    (piece : Nat × Nat) : Except Abort Engine := do
  let (packet, zero) ← σ.payload (address + piece.1) piece.2
  .ok (σ.pend (.transmit
    { peer, packet, qp, flow, vc
      tag := { tag with fragmentOffset := piece.1, zeroPayload := zero }
      overhead := immediateBytes tag piece.1 }))

/-- `SendPayload`. -/
def sendPayload (σ : Engine) (peer : Nat) (tag : Tag) (qp flow vc address bytes : Nat) :
    Except Abort Engine :=
  if σ.payloadCap peer = 0 ∧ bytes > 0 then .error .zeroPayloadLimit
  else (fragments (σ.payloadCap peer) bytes bytes 0).foldlM
    (fun σ piece => σ.sendFragment peer tag qp flow vc address piece) σ

/-- The bytes of a request packet without payload. -/
def requestBytes (op : Opcode) : Nat :=
  match op with
  | .read => 16
  | .signal => 20
  | _ => 28

/-- `SendSource`. -/
def sendSource (σ : Engine) (s : Source) : Except Abort Engine :=
  if s.tag.opcode.hasSourcePayload then
    σ.sendPayload s.peer s.tag s.qp s.flow s.vc (s.tag.localAddress + s.tag.offset) s.tag.bytes
  else
    .ok (σ.transmit
      { peer := s.peer, packet := List.replicate (requestBytes s.tag.opcode) 0
        tag := { s.tag with phase := .request }, qp := s.qp, flow := s.flow, vc := s.vc
        overhead := 0 })

/-- The `Source` that `Execute` builds. -/
def newSource (rank : Nat) (request : Request) (timing : WorkTiming) : Source :=
  { peer := timing.peer, qp := timing.qp, flow := request.flowId, vc := request.vc
    tag :=
      { opcode := timing.opcode, owner := rank, workId := timing.id
        requestId := timing.requestId, bytes := timing.bytes
        offset := if timing.opcode = .signal then 0 else timing.offset
        localAddress := request.localAddress, remoteAddress := request.remoteAddress
        localKey := request.localKey, remoteKey := request.remoteKey
        operand := request.operand, compare := request.compare
        immediate := request.immediate, signalAddress := request.signalAddress
        signalValue := request.signalValue, signalOp := request.signalOp } }

/-- `NotifyOperationComplete` of the submission model. -/
def notifyOperationComplete (σ : Engine) (id : Nat) (success : Bool) : Engine :=
  σ.record (.completed id success)

/-- `Execute`. `succeeded` is what `RequestSucceeded` answers. -/
def execute (σ : Engine) (request : Request) (timing : WorkTiming) (succeeded : Bool) :
    Except Abort Engine :=
  if timing.opcode = .signal ∧ succeeded = false then
    .ok (σ.notifyOperationComplete timing.id false)
  else
    let source := newSource σ.rank request timing
    sendSource { σ with sources := σ.sources.insert timing.id source } source

/-- The closure of `Submit` that the submission model runs when a request is over. -/
def completeRequest (σ : Engine) (requestId : Nat) : Engine :=
  { σ with
    sources := ⟨σ.sources.entries.filter fun e => e.2.tag.requestId ≠ requestId,
      σ.sources.nodupKeys.sublist (List.filter_sublist)⟩ }

/-- Replace the state of a source. -/
@[simps]
def setSource (σ : Engine) (id : Nat) (s : Source) : Engine :=
  { σ with sources := σ.sources.insert id s }

/-- `PacketSent`. -/
def packetSent (σ : Engine) (h : Header) (tag : Tag) : Engine :=
  if h.data then
    { σ with sent := update σ.sent h.txKey (some ⟨tag, h.effectiveDataSize⟩) }
  else σ

/-- `PermanentLoss`. -/
def permanentLoss (σ : Engine) (h : Header) : Engine :=
  match σ.sent h.txKey with
  | some s => if s.tag.owner = σ.rank then σ.record (.failed s.tag.workId) else σ
  | none => σ

/-- The retry closure of `PacketAcknowledged`. A source that has left the map is done. -/
def retry (σ : Engine) (id : Nat) : Except Abort Engine :=
  match σ.sources.lookup id with
  | none => .ok σ
  | some s =>
      if s.done then .ok σ
      else
        let s := { s with tag := { s.tag with attempt := s.tag.attempt + 1 }, retryPending := false }
        (σ.setSource id s).sendSource s

/-- What the metadata of an acknowledgement does to its source. -/
def sourceAcknowledged (σ : Engine) (tag : Tag) : Engine :=
  if tag.owner ≠ σ.rank then σ
  else
    match σ.sources.lookup tag.workId with
    | none => σ
    | some s =>
        if s.done then σ
        else if tag.phase = .complete then
          (σ.setSource tag.workId { s with done := true }).notifyOperationComplete tag.workId
            tag.success
        else if tag.phase = .rnr ∧ tag.attempt = s.tag.attempt ∧ s.retryPending = false then
          if s.tag.attempt ≥ σ.config.rnrRetryLimit then
            (σ.setSource tag.workId { s with done := true }).notifyOperationComplete tag.workId
              false
          else
            ((σ.setSource tag.workId { s with retryPending := true }).record
              (.retried tag.workId s.tag.attempt)).pend (.retry tag.workId)
        else σ

/-! ## Responding to reads and atomics -/

/-- Mark the responder's payload as staged. -/
@[simps]
def markStaged (σ : Engine) (r : Responder) : Engine :=
  { σ with respondersStaged := update σ.respondersStaged r.serial true }

/-- The `run` closure of `RunAtomic`. -/
def atomicRun (σ : Engine) (r : Responder) : Engine :=
  match σ.config.pcieModel with
  | .tlp => σ.pend (.atomicRead r)
  | .bandwidth => σ.pend (.atomicExecute r)

/-- `RunAtomic`. -/
def runAtomic (σ : Engine) (r : Responder) : Except Abort Engine :=
  if σ.config.dataPath = .staged then (σ.markStaged r).stageSourcePayload 8 (.atomicStaged r)
  else .ok (σ.atomicRun r)

/-- The responder joins the queue of its word. -/
@[simps]
def enqueueAtomic (σ : Engine) (r : Responder) : Engine :=
  { σ with
    atomics := update σ.atomics r.tag.word (σ.atomics r.tag.word ++ [r])
    log := σ.log ++ [.queued r] }

/-- The `send` closure of a read response, or the start of an atomic: `StartResponder`. -/
def startResponder (σ : Engine) (r : Responder) : Except Abort Engine :=
  if r.tag.opcode = .read then
    if σ.config.dataPath = .staged then
      (σ.markStaged r).stageSourcePayload r.tag.bytes (.readStaged r)
    else .ok (σ.pend (.readServed r))
  else
    let σ := σ.enqueueAtomic r
    if (σ.atomics r.tag.word).length = 1 then σ.runAtomic r else .ok σ

/-- A waiting responder becomes active. -/
@[simps]
def activate (σ : Engine) (r : Responder) (rest : List Responder) : Engine :=
  { σ with
    responderWaiting := rest
    responders := σ.responders.insert r.tag.key r
    activeResponses := σ.activeResponses + 1 }

/-- The loop of `PumpResponders`; every round takes one responder off the queue. -/
def pumpRespondersLoop : Nat → Engine → Except Abort Engine
  | 0, σ => .ok σ
  | fuel + 1, σ =>
      match σ.responderWaiting with
      | [] => .ok σ
      | r :: rest =>
          if σ.activeResponses < σ.config.responderDepth then do
            let σ ← (σ.activate r rest).startResponder r
            pumpRespondersLoop fuel σ
          else .ok σ

/-- `PumpResponders`. -/
def pumpResponders (σ : Engine) : Except Abort Engine :=
  pumpRespondersLoop σ.responderWaiting.length σ

/-- A new responder waits for its turn. -/
@[simps]
def enqueueResponder (σ : Engine) (r : Responder) : Engine :=
  { σ with
    nextResponder := σ.nextResponder + 1
    responderWaiting := σ.responderWaiting ++ [r]
    log := σ.log ++ [.arrived r] }

/-- `QueueResponder`. -/
def queueResponder (σ : Engine) (tag : Tag) (qp : Nat) (h : Header) : Except Abort Engine :=
  pumpResponders
    (σ.enqueueResponder ⟨σ.nextResponder, tag, qp, h.flowId, h.virtualChannel, h⟩)

/-- A responder leaves the pool of active ones. -/
@[simps]
def deactivate (σ : Engine) (key : Key) : Engine :=
  { σ with responders := σ.responders.erase key, activeResponses := σ.activeResponses - 1 }

/-- The staging space of a responder comes back. -/
def unstageResponder (σ : Engine) (r : Responder) : Except Abort Engine :=
  if σ.respondersStaged r.serial then σ.releaseSourceStaging r.tag.bytes else .ok σ

/-- `FinishResponder`. -/
def finishResponder (σ : Engine) (key : Key) : Except Abort Engine :=
  match σ.responders.lookup key with
  | none => .ok σ
  | some r => do
      let σ ← σ.unstageResponder r
      (σ.deactivate key).pumpResponders

/-- The front of the queue leaves it, and the next one runs. -/
def advanceAtomic (σ : Engine) (address : Nat) : Except Abort Engine :=
  match σ.atomics address with
  | [] => .error .unknownAtomic
  | _ :: rest =>
      let σ := { σ with atomics := update σ.atomics address rest }
      match rest with
      | [] => .ok σ
      | r :: _ => σ.runAtomic r

/-- What the requester of an atomic is told: a signal is acknowledged, the others are
answered by a response packet. -/
def answerAtomic (σ : Engine) (r : Responder) (old : UInt64) : Except Abort Engine :=
  if r.tag.opcode = .signal then
    finishResponder (σ.acknowledge r.header (some { r.tag with phase := .complete })) r.tag.key
  else .ok (σ.pend (.transmit (r.reply old)))

/-- The `commit` closure of `RunAtomic`. -/
def commitAtomic (σ : Engine) (r : Responder) (old next : UInt64) : Except Abort Engine := do
  let σ ← σ.commitWord r old next
  let σ ← σ.answerAtomic r old
  σ.advanceAtomic r.tag.word

/-- The `execute` closure of `RunAtomic`. -/
def executeAtomic (σ : Engine) (r : Responder) : Except Abort Engine := do
  let old ← σ.readWord r.tag.word
  if σ.config.dataPath = .staged then
    σ.acquireReceiveStaging 8 (.atomicAcquired r old (r.update old))
  else σ.commitAtomic r old (r.update old)

/-- What an acknowledged response packet does to its responder. -/
def responseAcknowledged (σ : Engine) (s : Sent) : Except Abort Engine :=
  if s.tag.isResponse then
    match σ.responders.lookup s.tag.key with
    | none => .ok σ
    | some r =>
        let acknowledged := σ.respondersAcknowledged r.serial + s.bytes
        let σ := { σ with
          respondersAcknowledged := update σ.respondersAcknowledged r.serial acknowledged }
        if acknowledged ≥ s.tag.bytes then σ.finishResponder s.tag.key else .ok σ
  else .ok σ

/-- The first half of `PacketAcknowledged`: the packet leaves the ledger of sent ones. -/
def settleSent (σ : Engine) (h : Header) : Except Abort Engine :=
  match σ.sent h.ackKey with
  | none => .ok σ
  | some s => responseAcknowledged { σ with sent := update σ.sent h.ackKey none } s

/-- `PacketAcknowledged`. -/
def packetAcknowledged (σ : Engine) (h : Header) (tag : Option Tag) : Except Abort Engine := do
  let σ ← σ.settleSent h
  match tag with
  | none => .ok σ
  | some tag => .ok (σ.sourceAcknowledged tag)

/-! ## Receiving data -/

/-- `PostReceive`. `armed` tells whether the closure could be scheduled before the
horizon; one that could not is completed at once. -/
def postReceive (σ : Engine) (id address bytes peer qp key : Nat) (armed : Bool) :
    Except Abort Engine :=
  if σ.inRegion key address bytes = false then .error .badReceive
  else if σ.receiveReserved ≥ σ.config.receiveQueueDepth then .error .receiveQueueFull
  else if qp ≠ 2 ^ 32 - 1 ∧ qp ≥ σ.config.qpsPerPeer then .error .receiveQp
  else
    let r : PostedReceive := ⟨σ.postedReceives, id, address, bytes, key, qp, peer⟩
    let σ := { σ with postedReceives := σ.postedReceives + 1 }
    if armed then .ok (pend { σ with receiveReserved := σ.receiveReserved + 1 } (.enqueueReceive r))
    else .ok (σ.record (.received r { receiveId := id, peer, qp, success := false }))

/-- The receive accepts data of this peer and queue pair. -/
def matchesReceive (peer qp : Nat) (r : PostedReceive) : Bool :=
  (r.peer == 2 ^ 16 - 1 || r.peer == peer) && (r.qp == 2 ^ 32 - 1 || r.qp == qp)

/-- `MatchReceive`: the first queued receive that fits leaves the queue. -/
def matchReceive (σ : Engine) (peer qp : Nat) : Option (PostedReceive × Engine) :=
  match σ.receives.find? (matchesReceive peer qp) with
  | none => none
  | some r =>
      some (r, { σ with
        receives := σ.receives.eraseP (matchesReceive peer qp)
        receiveReserved := σ.receiveReserved - 1 })

/-- Update a work request being received. -/
@[simps]
def modIncoming (σ : Engine) (i : Nat) (g : Incoming → Incoming) : Engine :=
  { σ with incomingObj := update σ.incomingObj i (g (σ.incomingObj i)) }

/-- `StartPiece`. -/
def startPiece (σ : Engine) (key : Key) (i : Nat) (p : Piece) : Except Abort Engine :=
  let tag := (σ.incomingObj i).tag
  if p.tag.fragmentOffset > tag.bytes ∨
      p.header.effectiveDataSize > tag.bytes - p.tag.fragmentOffset then .error .payloadExceedsWork
  else .ok (σ.pend (.destinationWritten key i p))

/-- A fragment is accepted: it is written now or waits for the staging space. -/
def acceptPiece (σ : Engine) (key : Key) (i : Nat) (p : Piece) : Except Abort Engine :=
  let σ := (σ.record (.held p.header)).record (.accepted key p)
  if (σ.incomingObj i).allocated then σ.startPiece key i p
  else .ok (σ.modIncoming i fun n => { n with waiting := n.waiting ++ [p] })

/-- Where the payload goes; nothing when the address would wrap. -/
def targetAddress (tag : Tag) (receive : Option PostedReceive) : Option Nat :=
  match receive, tag.isResponse || !tag.opcode.isSend with
  | some r, false => some r.address
  | _, _ =>
      let base := if tag.isResponse then tag.localAddress else tag.remoteAddress
      if tag.offset > u64Max - base then none else some (base + tag.offset)

/-- The key the target address is checked against. -/
def targetKey (tag : Tag) (receive : Option PostedReceive) : Nat :=
  match receive, tag.isResponse || !tag.opcode.isSend with
  | some r, false => r.key
  | _, _ => if tag.isResponse then tag.localKey else tag.remoteKey

/-- The payload fits the posted receive, if it uses one. -/
def fitsReceive (tag : Tag) (receive : Option PostedReceive) : Bool :=
  match receive with
  | none => true
  | some r => tag.opcode == .writeImm || tag.bytes ≤ r.bytes

/-- The failed completion of the receive a rejected request had taken. -/
def failReceive (σ : Engine) (tag : Tag) (h : Header) : Option PostedReceive → Engine
  | none => σ
  | some r =>
      σ.pend (.completeReceive r
        { receiveId := r.id, peer := h.sourceRank, opcode := tag.opcode, success := false })

/-- A new entry of `m_incoming`. -/
@[simps]
def insertIncoming (σ : Engine) (key : Key) (n : Incoming) : Engine :=
  { σ with
    incoming := σ.incoming.insert key σ.nextIncoming
    incomingObj := update σ.incomingObj σ.nextIncoming n
    nextIncoming := σ.nextIncoming + 1 }

/-- The first fragment of a request: its target is checked and its entry made. -/
def openIncoming (σ : Engine) (p : Piece) (qp : Nat) (receive : Option PostedReceive) :
    Except Abort Engine :=
  let tag := p.tag
  match targetAddress tag receive with
  | none => .ok (σ.acknowledge p.header (some (tag.completed false)))
  | some address =>
      if (fitsReceive tag receive && σ.inRegion (targetKey tag receive) address tag.bytes) = false then
        let σ := { σ with failedIncoming := update σ.failedIncoming tag.key true }
        .ok ((σ.acknowledge p.header (some (tag.completed false))).failReceive tag p.header receive)
      else
        let i := σ.nextIncoming
        let staged := σ.config.dataPath == .staged
        let σ := σ.insertIncoming tag.key
          { tag, qp, address, response := tag.isResponse, receive, allocated := !staged }
        if staged then do
          let σ ← σ.acquireReceiveStaging tag.bytes (.allocated tag.key i)
          σ.acceptPiece tag.key i p
        else σ.acceptPiece tag.key i p

/-- No receive is there: the attempt is remembered as rejected. -/
def rejectAttempt (σ : Engine) (p : Piece) : Engine :=
  let σ := { σ with
    rejectedAttempts := update σ.rejectedAttempts p.tag.key (some p.tag.attempt) }
  (σ.record (.rejected p.tag.key p.tag.attempt)).acknowledge p.header
    (some { p.tag with phase := .rnr })

/-- The attempt, or a later one, was rejected before. -/
def wasRejected (σ : Engine) (tag : Tag) : Bool :=
  !tag.isResponse && (σ.rejectedAttempts tag.key).any fun attempt => tag.attempt ≤ attempt

/-- `AcceptData`. -/
def acceptData (σ : Engine) (p : Piece) (qp : Nat) : Except Abort Engine :=
  let tag := p.tag
  if tag.isResponse && (σ.sources.lookup tag.workId).isNone then
    .ok (σ.acknowledge p.header none)
  else if σ.failedIncoming tag.key then
    .ok (σ.acknowledge p.header (some (tag.completed false)))
  else if σ.wasRejected tag then
    .ok (σ.acknowledge p.header (some { tag with phase := .rnr }))
  else
    match σ.incoming.lookup tag.key with
    | some i =>
        if tag.attempt < (σ.incomingObj i).tag.attempt then .ok (σ.acknowledge p.header none)
        else σ.acceptPiece tag.key i p
    | none =>
        if !tag.isResponse && tag.opcode.needsReceive then
          match σ.matchReceive p.header.sourceRank qp with
          | none => .ok (σ.rejectAttempt p)
          | some (r, σ) => (σ.record (.taken tag.key r)).openIncoming p qp (some r)
        else σ.openIncoming p qp none

/-- The callback of `AcquireReceiveStaging`: the fragments that waited are written. -/
def stagingAllocated (σ : Engine) (key : Key) (i : Nat) : Except Abort Engine :=
  let waiting := (σ.incomingObj i).waiting
  waiting.foldlM (fun σ p => σ.startPiece key i p)
    (σ.modIncoming i fun n => { n with allocated := true, waiting := [] })

/-- The completion of a receive whose request has arrived. -/
def receiveCompletion (n : Incoming) (r : PostedReceive) : ReceiveCompletion :=
  { receiveId := r.id, requestId := n.tag.requestId, offset := n.tag.offset, peer := n.tag.owner
    qp := n.qp, opcode := n.tag.opcode, bytes := n.tag.bytes
    hasImmediate := n.tag.opcode == .sendImm || n.tag.opcode == .writeImm
    immediate := n.tag.immediate }

/-- The request a response answers is over. -/
def completeSource (σ : Engine) (n : Incoming) : Except Abort Engine :=
  match σ.sources.lookup n.tag.workId with
  | none => .ok σ
  | some s =>
      if s.done then .ok σ
      else if n.tag.phase = .atomicResponse then do
        let result ← σ.readWord n.address
        .ok ((σ.setSource n.tag.workId { s with done := true, result }).notifyOperationComplete
          n.tag.workId n.tag.success)
      else
        .ok ((σ.setSource n.tag.workId { s with done := true }).notifyOperationComplete
          n.tag.workId n.tag.success)

/-- The receive of a finished request is reported after its completion is written. -/
def finishReceive (σ : Engine) (n : Incoming) : Engine :=
  match n.receive with
  | none => σ
  | some r => σ.pend (.completeReceive r (receiveCompletion n r))

/-- `CompleteIncoming`. -/
def completeIncoming (σ : Engine) (key : Key) (i : Nat) (last : Piece) : Except Abort Engine :=
  let n := σ.incomingObj i
  let σ := { σ with incoming := σ.incoming.erase key }
  if n.response then do
    let σ ← σ.completeSource n
    .ok (σ.acknowledge last.header none)
  else
    .ok ((σ.acknowledge last.header (some { n.tag with phase := .complete })).finishReceive n)

/-- `Store` of one fragment at its place. -/
def storePiece (σ : Engine) (address : Nat) (p : Piece) : Except Abort Engine :=
  σ.store (address + p.tag.fragmentOffset) p.packet p.header.effectiveDataSize p.tag.zeroPayload

/-- The payload reached its memory, or the staging buffer. -/
def landPiece (σ : Engine) (i : Nat) (p : Piece) : Except Abort Engine :=
  if σ.config.dataPath = .staged then
    .ok (σ.modIncoming i fun n => { n with staged := n.staged ++ [p] })
  else σ.storePiece (σ.incomingObj i).address p

/-- The closure of `StartPiece`. -/
def destinationWritten (σ : Engine) (key : Key) (i : Nat) (p : Piece) : Except Abort Engine := do
  let σ ← σ.landPiece i p
  let σ := σ.modIncoming i fun n =>
    { n with received := (n.received + p.header.effectiveDataSize) % 2 ^ 64 }
  let n := σ.incomingObj i
  if n.received > n.tag.bytes then .error .ledgerOverflow
  else if n.received < n.tag.bytes then .ok (σ.acknowledge p.header none)
  else if σ.config.dataPath = .staged then .ok (σ.pend (.destinationCopied key i p))
  else σ.completeIncoming key i p

/-- The closure of `DestinationH2d`: the staged fragments reach their memory. -/
def destinationCopied (σ : Engine) (key : Key) (i : Nat) (p : Piece) : Except Abort Engine := do
  let n := σ.incomingObj i
  let σ ← n.staged.foldlM (fun σ q => σ.storePiece n.address q) σ
  let σ ← σ.releaseReceiveStaging n.tag.bytes
  σ.completeIncoming key i p

/-- The request names memory the target has registered. -/
def validRequest (σ : Engine) (tag : Tag) : Bool :=
  tag.offset ≤ u64Max - tag.word && σ.inRegion tag.remoteKey (tag.word + tag.offset) tag.bytes &&
    (tag.opcode == .read || tag.word % 8 == 0)

/-- `Receive`. -/
def receive (σ : Engine) (p : Piece) (qp : Nat) : Except Abort Engine :=
  if p.tag.phase = .request then
    if σ.validRequest p.tag = false then
      .ok (σ.acknowledge p.header (some (p.tag.completed false)))
    else if p.tag.opcode = .signal then
      queueResponder (σ.record (.held p.header)) p.tag qp p.header
    else queueResponder (σ.acknowledge p.header none) p.tag qp p.header
  else σ.acceptData p qp

/-! ## The machine -/

/-- The body of every closure the engine hands out. -/
def run (σ : Engine) : Cont → Except Abort Engine
  | .enqueueReceive r => .ok { σ with receives := σ.receives ++ [r] }
  | .completeReceive r c => .ok (σ.record (.received r c))
  | .allocated key i => σ.stagingAllocated key i
  | .destinationWritten key i p => σ.destinationWritten key i p
  | .destinationCopied key i p => σ.destinationCopied key i p
  | .retry id => σ.retry id
  | .transmit t => .ok (σ.transmit t)
  | .readStaged r => .ok (σ.pend (.readServed r))
  | .readServed r =>
      σ.sendPayload r.tag.owner { r.tag with phase := .readResponse } r.qp r.flow r.vc
        (r.tag.remoteAddress + r.tag.offset) r.tag.bytes
  | .atomicStaged r => .ok (σ.atomicRun r)
  | .atomicRead r => .ok (σ.pend (.atomicServed r))
  | .atomicServed r => .ok (σ.pend (.atomicExecute r))
  | .atomicExecute r => σ.executeAtomic r
  | .atomicAcquired r old next => .ok (σ.pend (.atomicCopied r old next))
  | .atomicCopied r old next => do
      let σ ← σ.releaseReceiveStaging 8
      σ.commitAtomic r old next
  | .signalled w value => .ok (σ.record (.signalled w value))
  | .foreign => .ok σ

/-- What may happen next: a call of the application, of the endpoint below or of the
submission model beside the engine, or one of the closures running. The pools are shared
with transfers that do not belong to the engine; these take and give back space, too. -/
inductive Act
  | registerMemory (address bytes key : Nat)
  | unregisterMemory (key : Nat)
  | writeMemory (address : Nat) (data : List UInt8)
  | waitSignal (address : Nat) (comparison : Comparison) (value : UInt64)
  | cancelSignalWait (id : Nat)
  | postReceive (id address bytes peer qp key : Nat) (armed : Bool)
  | execute (request : Request) (timing : WorkTiming) (succeeded : Bool)
  | completeRequest (requestId : Nat)
  | packetSent (h : Header) (tag : Tag)
  | packetAcknowledged (h : Header) (tag : Option Tag)
  | permanentLoss (h : Header)
  | receive (p : Piece) (qp : Nat)
  | stageSource (bytes : Nat)
  | releaseSource (bytes : Nat)
  | acquireReceive (bytes : Nat)
  | releaseReceive (bytes : Nat)
  | fire (i : Nat)

/-- One action of the engine. -/
def exec (σ : Engine) : Act → Except Abort Engine
  | .registerMemory address bytes key => σ.registerMemory address bytes key
  | .unregisterMemory key => σ.unregisterMemory key
  | .writeMemory address data => σ.writeMemory address data
  | .waitSignal address comparison value => σ.waitSignal address comparison value
  | .cancelSignalWait id => .ok (σ.cancelSignalWait id)
  | .postReceive id address bytes peer qp key armed =>
      σ.postReceive id address bytes peer qp key armed
  | .execute request timing succeeded => σ.execute request timing succeeded
  | .completeRequest requestId => .ok (σ.completeRequest requestId)
  | .packetSent h tag => .ok (σ.packetSent h tag)
  | .packetAcknowledged h tag => σ.packetAcknowledged h tag
  | .permanentLoss h => .ok (σ.permanentLoss h)
  | .receive p qp => σ.receive p qp
  | .stageSource bytes => σ.stageSourcePayload bytes .foreign
  | .releaseSource bytes => σ.releaseSourceStaging bytes
  | .acquireReceive bytes => σ.acquireReceiveStaging bytes .foreign
  | .releaseReceive bytes => σ.releaseReceiveStaging bytes
  | .fire i =>
      match σ.pending[i]? with
      | some k => run { σ with pending := σ.pending.eraseIdx i } k
      | none => .ok σ

/-- The submission model ends a request when all its work is done; everything else may
happen at any time. -/
def enabled (σ : Engine) : Act → Prop
  | .completeRequest requestId =>
      ∀ e ∈ σ.sources.entries, e.2.tag.requestId = requestId → e.2.done = true
  | _ => True

instance (σ : Engine) : (a : Act) → Decidable (σ.enabled a)
  | .completeRequest requestId =>
      inferInstanceAs (Decidable
        (∀ e ∈ σ.sources.entries, e.2.tag.requestId = requestId → e.2.done = true))
  | .registerMemory .. | .unregisterMemory _ | .writeMemory .. | .waitSignal ..
  | .cancelSignalWait _ | .postReceive .. | .execute .. | .packetSent ..
  | .packetAcknowledged .. | .permanentLoss _ | .receive .. | .stageSource _
  | .releaseSource _ | .acquireReceive _ | .releaseReceive _ | .fire _ => .isTrue trivial

end Engine

/-- Every run of an engine whose memory starts as given: any accepted configuration, any
calls from outside, and any order in which the closures run. -/
def engineMachine (memory : Nat → Option UInt8) : Machine Engine Engine.Act Abort where
  init σ := ∃ (c : Config) (rank : Nat) (limit : Option (Nat → Nat)), c.validate = .ok () ∧
    σ = { Engine.idle c rank with memory, payloadLimit := limit }
  enabled := Engine.enabled
  exec := Engine.exec

instance (memory : Nat → Option UInt8) (σ : Engine) (a : Engine.Act) :
    Decidable ((engineMachine memory).enabled σ a) :=
  inferInstanceAs (Decidable (σ.enabled a))

end ProtoBridge.Rdma
