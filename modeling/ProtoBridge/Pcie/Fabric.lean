import ProtoBridge.Lib.Machine
import ProtoBridge.Pcie.Types

/-!
# PCIe fabric operations

`PcieFabric::Impl` as functions on an explicit state. The simulator is part of
the state: pending events with their times, and the clock. An event scheduled at
or past the horizon is discarded, as `TimeBounds::CanSchedule` has it; discarded
events are remembered in `dropped`.

What lies outside the source is a parameter `Env`: the conversion of a wire time
from seconds, and the delay returned by the `n`-th call of a memory service,
whichever node it belongs to.
-/

namespace ProtoBridge.Pcie

open Lib
open Function (update)

/-- `Seconds(...)` of a wire size, and the delay of the `n`-th memory service call. -/
structure Env where
  seconds : Nat → Nat
  service : Nat → Nat

/-- `NS_ABORT_MSG` reasons of the fabric. `pumpFuel` stands for a pump loop that
does not end, which no action of the fabric runs into (`exec_ends`). -/
inductive Abort
  | badTopology
  | duplicateLink
  | badEndpoints
  | badRange
  | noRoute
  | unmappedAddress
  | creditOverflow
  | unknownWrite
  | noLiveTag
  | completionMismatch
  | overlappingCompletion
  | unknownRead
  | lostTransaction
  | splitNoProgress
  | pumpFuel
  deriving DecidableEq

/-- The messages of those aborts, as the source prints them. -/
def Abort.message : Abort → String
  | .badTopology => "Invalid PCIe link/topology mutation"
  | .duplicateLink => "Duplicate PCIe link"
  | .badEndpoints => "PCIe transfer needs two distinct live endpoints"
  | .badRange => "PCIe transfer exceeds the endpoint memory window"
  | .noRoute => "No PCIe route"
  | .unmappedAddress => "Unmapped PCIe memory address"
  | .creditOverflow => "PCIe credit accounting overflow"
  | .unknownWrite => "Unknown PCIe write"
  | .noLiveTag => "PCIe completion has no live tag"
  | .completionMismatch => "PCIe completion does not match its read request"
  | .overlappingCompletion => "Overlapping PCIe completion"
  | .unknownRead => "Unknown PCIe read"
  | .lostTransaction => "PCIe response lost its transaction"
  | .splitNoProgress => "PCIe completion split made no progress"
  | .pumpFuel => ""

/-- The closures the fabric hands to the simulator. -/
inductive EventKind
  | busyEnd (p : Nat)
  | controlArrive (c : Control)
  | frameArrive (p : Nat) (f : Frame) (seq : Nat)
  | fcEvent (p : Nat)
  | ackEvent (p : Nat)
  | wake (p : Nat)
  | readService (node : Nat) (f : Frame)
  | writeService (node : Nat) (f : Frame)
  | completionService (node : Nat) (f : Frame)
  | callback (id : Nat)

/-- A pending simulator event. -/
structure Event where
  time : Nat
  kind : EventKind

/-- History of the run, for stating what happened and in which order. -/
inductive Obs
  | submitted (op : Transfer)
  | created (f : Frame)
  | received (f : Frame)
  | delivered (f : Frame)
  | scheduled (id : Nat)
  deriving DecidableEq

/-- `PcieFabric::Impl` together with the simulator it runs on. -/
structure Fabric where
  config : Config
  now : Nat := 0
  nextId : Nat := 1
  nextOrder : Nat := 1
  statsReads : Nat := 0
  statsWrites : Nat := 0
  numNodes : Nat := 0
  numPorts : Nat := 0
  nodes : Nat → Node := fun _ => {}
  ports : Nat → Port := fun _ => {}
  transfers : Nat → Option Transfer := fun _ => none
  calls : Nat := 0
  events : List Event := []
  dropped : List EventKind := []
  trace : List Obs := []

namespace Fabric

/-! ## State access -/

/-- Update one port in place. -/
@[simps]
def modPort (σ : Fabric) (p : Nat) (g : Port → Port) : Fabric :=
  { σ with ports := update σ.ports p (g (σ.ports p)) }

/-- Update one node in place. -/
@[simps]
def modNode (σ : Fabric) (n : Nat) (g : Node → Node) : Fabric :=
  { σ with nodes := update σ.nodes n (g (σ.nodes n)) }

/-- Store, replace or erase one transfer. -/
@[simps]
def setTransfer (σ : Fabric) (id : Nat) (op : Option Transfer) : Fabric :=
  { σ with transfers := update σ.transfers id op }

/-- Append to the history. -/
@[simps]
def observe (σ : Fabric) (o : Obs) : Fabric := { σ with trace := σ.trace ++ [o] }

/-- `Schedule`: an event at or past the horizon is not armed. -/
@[simps]
def schedule (σ : Fabric) (delay : Nat) (k : EventKind) : Fabric :=
  { σ with
    events := if delay < timeMax - σ.now then σ.events ++ [⟨σ.now + delay, k⟩] else σ.events
    dropped := if delay < timeMax - σ.now then σ.dropped else σ.dropped ++ [k] }

/-- Recognise the flow-control timer of a port. -/
def isFc (p : Nat) : EventKind → Bool
  | .fcEvent q => p == q
  | _ => false

/-- Recognise the ACK timer of a port. -/
def isAck (p : Nat) : EventKind → Bool
  | .ackEvent q => p == q
  | _ => false

/-- Recognise the wake-up of a port. -/
def isWake (p : Nat) : EventKind → Bool
  | .wake q => p == q
  | _ => false

/-- `EventId::IsPending` for the event a predicate recognises. -/
def isPending (σ : Fabric) (is : EventKind → Bool) : Bool := σ.events.any fun e => is e.kind

/-- `Simulator::Cancel` for the events a predicate recognises. -/
@[simps]
def cancel (σ : Fabric) (is : EventKind → Bool) : Fabric :=
  { σ with events := σ.events.filter fun e => !is e.kind }

/-- `WireTime`: at least one tick. -/
def wireTime (env : Env) (bytes : Nat) : Nat := max 1 (env.seconds bytes)

/-- One memory service call; an absent service answers at once. -/
def callService (σ : Fabric) (env : Env) (present : Bool) : Nat × Fabric :=
  (if present then env.service σ.calls else 0,
    { σ with calls := σ.calls + if present then 1 else 0 })

/-! ## Topology and routing -/

/-- The part of the state that is fixed once traffic starts. Routing reads no
other. -/
structure Topo where
  config : Config
  numNodes : Nat
  numPorts : Nat
  endpoint : Nat → Bool
  ports : Nat → List Nat
  src : Nat → Nat
  dst : Nat → Nat
  reverse : Nat → Nat

/-- The configuration, nodes and links of a fabric. -/
def topo (σ : Fabric) : Topo where
  config := σ.config
  numNodes := σ.numNodes
  numPorts := σ.numPorts
  endpoint n := (σ.nodes n).endpoint
  ports n := (σ.nodes n).ports
  src p := (σ.ports p).src
  dst p := (σ.ports p).dst
  reverse p := (σ.ports p).reverse

/-- One node of the breadth-first search: `.error` is the port found. -/
def Topo.scanPorts (t : Topo) (src target node : Nat) :
    List Nat → (Nat → Option Nat) → List Nat →
      Except (Option Nat) ((Nat → Option Nat) × List Nat)
  | [], first, q => .ok (first, q)
  | p :: ps, first, q =>
      let next := t.dst p
      if next = src ∨ (first next).isSome then t.scanPorts src target node ps first q
      else
        let hop := if node = src then some p else first node
        if next = target then .error hop
        else t.scanPorts src target node ps (update first next hop) (q ++ [next])

/-- The search loop over the queue of discovered nodes. -/
def Topo.search (t : Topo) (src target : Nat) :
    Nat → (Nat → Option Nat) → List Nat → Option Nat
  | 0, _, _ => none
  | _ + 1, _, [] => none
  | fuel + 1, first, node :: q =>
      match t.scanPorts src target node (t.ports node) first q with
      | .error hop => hop
      | .ok (first, q) => t.search src target fuel first q

/-- `Route` without its cache: the first port of a shortest path. A node enters
the queue once, so `numNodes` rounds exhaust it. -/
def Topo.route (t : Topo) (src target : Nat) : Option Nat :=
  t.search src target (t.numNodes + 1) (fun _ => none) [src]

/-- `Route`, which aborts when the target is unreachable. -/
def route (σ : Fabric) (src target : Nat) : Except Abort Nat :=
  match σ.topo.route src target with
  | some p => .ok p
  | none => .error .noRoute

/-- `Resolve`: the endpoint whose window holds the address. -/
def resolve (σ : Fabric) (address : Nat) : Except Abort Nat :=
  let number := address / window
  if number = 0 ∨ number > σ.numNodes ∨ (σ.nodes (number - 1)).endpoint = false then
    .error .unmappedAddress
  else .ok (number - 1)

/-! ## Frames, credits and acknowledgements -/

/-- `MakeFrame`. -/
def makeFrame (σ : Fabric) (header : Header) (op : Transfer) (offset destination : Nat) :
    Frame × Fabric :=
  let f : Frame :=
    { header, transaction := op.id, offset, order := σ.nextOrder, traffic := op.traffic
      destination, ready := σ.now, serial := σ.nextOrder }
  (f, { σ with nextOrder := σ.nextOrder + 1 })

/-- `Space`: room in an output queue. -/
def space (σ : Fabric) (p : Nat) : Bool := (σ.ports p).queue.length < σ.config.queuePackets

/-- `Enqueue`. -/
def enqueue (σ : Fabric) (p : Nat) (f : Frame) : Fabric :=
  σ.modPort p fun port => { port with queue := port.queue ++ [f] }

/-- Add one frame's credits to the pool counters of a port. -/
def addCredits (pool : Fin 6 → Nat) (h : Header) : Fin 6 → Nat :=
  update
    (update pool (creditClass h.type) (wadd 32 (pool (creditClass h.type)) 1))
    (dataClass h.type) (wadd 32 (pool (dataClass h.type)) h.dataCredits)

/-- Take one frame's credits from the pool counters of a port. -/
def subCredits (pool : Fin 6 → Nat) (h : Header) : Fin 6 → Nat :=
  update
    (update pool (creditClass h.type) (wsub 32 (pool (creditClass h.type)) 1))
    (dataClass h.type) (wsub 32 (pool (dataClass h.type)) h.dataCredits)

/-- `ReturnCredit`: the buffer of `f` drains; UpdateFC follows after a delay. -/
def returnCredit (σ : Fabric) (f : Frame) : Fabric × Frame :=
  match f.ingress with
  | none => (σ, f)
  | some p =>
      let σ := σ.modPort p fun port =>
        { port with pendingReturn := addCredits port.pendingReturn f.header }
      let σ := if σ.isPending (isFc p) then σ
        else σ.schedule σ.config.creditUpdate (.fcEvent p)
      (σ, { f with ingress := none })

/-- The UpdateFC of one class, unless it has nothing to return. -/
def fcControl (p : Nat) (pending : Fin 6 → Nat) (c d : Fin 6) : List Control :=
  if pending c = 0 ∧ pending d = 0 then []
  else
    [{ forPort := p
       credits := update (update (fun _ => 0) c (pending c)) d (pending d) }]

/-- The closure of `fcEvent` up to its pump: pending returns become DLLPs. -/
def flushReturn (σ : Fabric) (p : Nat) : Fabric :=
  let pending := (σ.ports p).pendingReturn
  let dllps := fcControl p pending 0 1 ++ fcControl p pending 2 3 ++ fcControl p pending 4 5
  let σ := σ.modPort p fun port => { port with pendingReturn := fun _ => 0 }
  σ.modPort (σ.ports p).reverse fun port => { port with control := port.control ++ dllps }

/-- `Ordered`: no earlier frame of the same stream at this node holds `candidate` back. -/
def ordered (σ : Fabric) (node : Nat) (candidate : Frame) : Bool :=
  let blocks (earlier : Frame) : Bool :=
    earlier.order < candidate.order && earlier.domain == candidate.domain &&
      !canPass candidate.header earlier.header
  (σ.nodes node).ports.all (fun p => (σ.ports p).queue.all fun f => !blocks f) &&
    (σ.nodes node).waiting.all fun f => !blocks f

/-! ## The link transmitter -/

/-- Arbitration index of a class: its credit class halved. -/
def arbClass : TlpType → Nat
  | .write => 0
  | .read => 1
  | .completion => 2

/-- The pools of `p` hold a header credit and the data credits of `f`. -/
def hasCredit (σ : Fabric) (p : Nat) (f : Frame) : Bool :=
  (σ.ports p).available (creditClass f.header.type) != 0 &&
    f.header.dataCredits ≤ (σ.ports p).available (dataClass f.header.type)

/-- The replay buffer of `p` has room for `f`. -/
def hasReplay (σ : Fabric) (p : Nat) (f : Frame) : Bool :=
  f.size + tlpLinkBytes ≤ wsub 64 σ.config.replayBufferBytes (σ.ports p).replayBytes

/-- All the conditions under which `PumpPort` takes a frame of its queue. -/
def eligible (σ : Fabric) (p : Nat) (f : Frame) : Bool :=
  f.ready ≤ σ.now && σ.ordered (σ.ports p).src f && σ.hasCredit p f && σ.hasReplay p f

/-- The first eligible frame of the arbitration class `cls`. -/
def pickClass (σ : Fabric) (p cls : Nat) : Option Nat :=
  (σ.ports p).queue.findIdx? fun f => arbClass f.header.type == cls && σ.eligible p f

/-- The scan of `PumpPort`: classes in turn from `nextClass`, each in queue order. -/
def pick (σ : Fabric) (p : Nat) : Option Nat :=
  let first := (σ.ports p).nextClass
  (σ.pickClass p (first % 3)).or
    ((σ.pickClass p ((first + 1) % 3)).or (σ.pickClass p ((first + 2) % 3)))

/-- `earliest`: the next time a frame of the queue becomes ready. -/
def earliest (σ : Fabric) (p : Nat) : Nat :=
  (σ.ports p).queue.foldl
    (fun t f => if f.ready > σ.now then min t f.ready else t) timeMax

/-- The DLLP branch of `PumpPort`. -/
def sendControl (σ : Fabric) (env : Env) (p : Nat) (c : Control) (rest : List Control) :
    Fabric :=
  let service := wireTime env dllpWireBytes
  let σ := σ.modPort p fun port => { port with control := rest, busy := true }
  let σ := σ.schedule service (.busyEnd p)
  σ.schedule (addTime service σ.config.linkLatency) (.controlArrive c)

/-- The transmit branch of `PumpPort`: frame `f` at position `i` leaves the queue. -/
def sendFrame (σ : Fabric) (env : Env) (p i : Nat) (f : Frame) : Fabric :=
  let σ := σ.modPort p fun port => { port with queue := port.queue.eraseIdx i }
  let (σ, f) := σ.returnCredit f
  let wire := f.size + tlpLinkBytes
  let seq := (σ.ports p).nextSequence
  let σ := σ.modPort p fun port =>
    { port with
      available := subCredits port.available f.header
      nextClass := (arbClass f.header.type + 1) % 3
      busy := true
      nextSequence := port.nextSequence + 1
      replay := port.replay ++ [(seq, wire)]
      replayBytes := port.replayBytes + wire }
  let f := { f with ingress := some p, hops := f.hops + 1 }
  let service := wireTime env wire
  let σ := σ.schedule service (.busyEnd p)
  σ.schedule (addTime service σ.config.linkLatency) (.frameArrive p f seq)

/-- The idle branch of `PumpPort`: wake up when the earliest frame is ready. -/
def armWake (σ : Fabric) (p : Nat) : Fabric :=
  if σ.earliest p = timeMax then σ
  else (σ.cancel (isWake p)).schedule (σ.earliest p - σ.now) (.wake p)

/-- `PumpPort`. -/
def pumpPort (env : Env) (σ : Fabric) (p : Nat) : Fabric :=
  if (σ.ports p).busy then σ
  else
    match (σ.ports p).control with
    | c :: rest => σ.sendControl env p c rest
    | [] =>
        match σ.pick p with
        | some i =>
            match (σ.ports p).queue[i]? with
            | some f => σ.sendFrame env p i f
            | none => σ
        | none => σ.armWake p

/-- The cumulative ACK of `SendAck`, queued on the reverse direction. -/
def pushAck (σ : Fabric) (p : Nat) : Fabric :=
  let ack : Control :=
    { ack := true, forPort := p, sequence := (σ.ports p).receivedSequence }
  let σ := σ.modPort p fun port => { port with ackCount := 0 }
  σ.modPort (σ.ports p).reverse fun port => { port with control := port.control ++ [ack] }

/-- `SendAck`. -/
def sendAck (env : Env) (σ : Fabric) (p : Nat) : Fabric :=
  let σ := σ.cancel (isAck p)
  if (σ.ports p).ackCount = 0 then σ
  else pumpPort env (σ.pushAck p) (σ.ports p).reverse

/-- One more TLP arrived in sequence. -/
def countTlp (σ : Fabric) (p seq : Nat) : Fabric :=
  σ.modPort p fun port => { port with receivedSequence := seq, ackCount := port.ackCount + 1 }

/-- `AckReceivedTlp`: batch acknowledgements, flush the tail by timer. -/
def ackReceivedTlp (env : Env) (σ : Fabric) (p seq : Nat) : Fabric :=
  let σ := σ.countTlp p seq
  if (σ.ports p).ackCount ≥ σ.config.ackEvery then sendAck env σ p
  else if σ.isPending (isAck p) then σ
  else σ.schedule σ.config.ackDelay (.ackEvent p)

/-- An ACK releases every replay entry up to its sequence number. -/
def ackReplay (sequence : Nat) : List (Nat × Nat) → Nat → List (Nat × Nat) × Nat
  | [], bytes => ([], bytes)
  | (seq, wire) :: rest, bytes =>
      if seq ≤ sequence then ackReplay sequence rest (wsub 64 bytes wire)
      else ((seq, wire) :: rest, bytes)

/-! ## Issuing TLPs -/

/-- Bytes of the next completion. Non-final ones end on an RCB boundary. -/
def completionBytes (c : Config) (response : Response) : Nat :=
  let address := response.request.header.address + response.next
  let remain := response.request.header.bytes - response.next
  let whole := min (c.mps - address % 4) remain
  if whole < remain then whole - (address + whole) % c.rcb else whole

/-- The header of that completion. -/
def completionHeader (node : Nat) (response : Response) (bytes : Nat) : Header :=
  { response.request.header with
    type := .completion
    completer := node
    address := response.request.header.address + response.next
    bytes
    byteCount := response.request.header.bytes - response.next }

/-- The tail of `IssueResponse`: build the completion, queue it, advance the answer. -/
def respond (σ : Fabric) (node : Nat) (response : Response) (others : List Response)
    (op : Transfer) (p bytes : Nat) : Fabric :=
  let request := response.request
  let (f, σ) := σ.makeFrame (completionHeader node response bytes) op
    (request.offset + response.next) request.header.requester
  let σ := (σ.observe (.created f)).enqueue p f
  let next := response.next + bytes
  σ.modNode node fun n =>
    { n with
      responses := if next = request.header.bytes then others
        else { response with next } :: others }

/-- `IssueResponse`: one completion of the oldest read being answered. -/
def issueResponse (σ : Fabric) (node : Nat) : Except Abort (Fabric × Bool) :=
  match (σ.nodes node).responses with
  | [] => .ok (σ, false)
  | response :: others => do
      let request := response.request
      let p ← σ.route node request.header.requester
      if σ.space p = false then return (σ, false)
      match σ.transfers request.transaction with
      | none => .error .lostTransaction
      | some op =>
          let bytes := completionBytes σ.config response
          if bytes = 0 then .error .splitNoProgress
          else return (σ.respond node response others op p bytes, true)

/-- The lowest free tag: `while (n.reads.count(number)) ++number`. -/
def freeTag (reads : List ReadState) : Nat → Nat → Nat
  | 0, number => number
  | fuel + 1, number =>
      if reads.any (fun r => r.tag == number) then freeTag reads fuel (number + 1) else number

/-- Bytes of the next request TLP of a transfer. -/
def requestBytes (c : Config) (op : Transfer) : Nat :=
  let address := op.address + op.next
  let limit := if op.read then min (min c.mrrs c.maxReadBytes) c.completionBufferBytes else c.mps
  min (min (limit - address % 4) (op.bytes - op.next)) (4096 - address % 4096)

/-- The read window of `IssueTransfer`: tags, read bytes and completion space. -/
def windowFull (c : Config) (n : Node) (bytes : Nat) : Bool :=
  n.reads.length == c.tags || bytes > wsub 64 c.maxReadBytes n.readBytes ||
    bytes > wsub 64 c.completionBufferBytes n.readBytes

/-- A read takes a tag and its share of the window. -/
def openRead (σ : Fabric) (node : Nat) (op : Transfer) (bytes tag : Nat) : Fabric :=
  σ.modNode node fun n =>
    { n with
      reads := n.reads ++ [{ tag, transaction := op.id, offset := op.next, bytes }]
      readBytes := n.readBytes + bytes }

/-- The tail of `IssueTransfer`: build the request TLP, queue it, advance the transfer. -/
def issueFrame (env : Env) (σ : Fabric) (node : Nat) (op : Transfer) (p bytes tag : Nat) : Fabric :=
  let h : Header :=
    { type := if op.read then .read else .write, address := op.address + op.next, bytes
      requester := node, tag, relaxed := op.relaxed }
  let (f, σ) := σ.makeFrame h op op.next op.target
  let (delay, σ) := σ.callService env
    (!op.read && op.traffic != .doorbell && (σ.nodes node).hasRead)
  let f := { f with ready := addTime f.ready delay }
  let σ := (σ.observe (.created f)).enqueue p f
  σ.setTransfer op.id (some { op with next := op.next + bytes, pending := op.pending + 1 })

/-- `IssueTransfer`: one request TLP of a transfer, unless queue or read window is full. -/
def issueTransfer (env : Env) (σ : Fabric) (node : Nat) (op : Transfer) :
    Except Abort (Fabric × Bool) :=
  if op.next = op.bytes then .ok (σ, false)
  else do
    let target ← σ.resolve op.address
    let p ← σ.route node target
    if σ.space p = false then return (σ, false)
    let bytes := requestBytes σ.config op
    if op.read then
      if windowFull σ.config (σ.nodes node) bytes then return (σ, false)
      let tag := freeTag (σ.nodes node).reads σ.config.tags 0
      return (issueFrame env (σ.openRead node op bytes tag) node op p bytes tag, true)
    else
      return (issueFrame env σ node op p bytes 0, true)

/-! ## The node pump -/

/-- The pass over `waiting`: position `i`, at most `n` frames still to look at. -/
def scanWaiting (node : Nat) : Nat → Nat → Fabric → Bool → Except Abort (Fabric × Bool)
  | 0, _, σ, progress => .ok (σ, progress)
  | n + 1, i, σ, progress =>
      match (σ.nodes node).waiting[i]? with
      | none => .ok (σ, progress)
      | some f => do
          let p ← σ.route node f.destination
          if σ.space p = false then scanWaiting node n (i + 1) σ progress
          else
            let σ := σ.enqueue p f
            let σ := σ.modNode node fun m => { m with waiting := m.waiting.eraseIdx i }
            scanWaiting node n i σ true

/-- The front transfer leaves an injection queue. -/
def popTransfer (σ : Fabric) (node : Nat) (rd : Bool) : Fabric :=
  σ.modNode node fun n =>
    if rd then { n with readQueue := n.readQueue.tail }
    else { n with writeQueue := n.writeQueue.tail }

/-- The injection queue of a direction. -/
def injection (σ : Fabric) (node : Nat) (rd : Bool) : List Nat :=
  if rd then (σ.nodes node).readQueue else (σ.nodes node).writeQueue

/-- One injection queue of a node: issue from its front transfer, drop it when done. -/
def pumpQueue (env : Env) (σ : Fabric) (node : Nat) (rd : Bool) : Except Abort (Fabric × Bool) :=
  match σ.injection node rd with
  | [] => .ok (σ, false)
  | id :: _ =>
      match σ.transfers id with
      | none => .ok (σ.popTransfer node rd, false)
      | some op => do
          let (σ, progress) ← issueTransfer env σ node op
          match σ.transfers id with
          | none => return (σ.popTransfer node rd, progress)
          | some op => return (if op.next = op.bytes then σ.popTransfer node rd else σ, progress)

/-- One round of the `do` loop of `PumpNode`. -/
def pumpRound (env : Env) (σ : Fabric) (node : Nat) : Except Abort (Fabric × Bool) := do
  let (σ, moved) ← scanWaiting node (σ.nodes node).waiting.length 0 σ false
  let (σ, responded) ← issueResponse σ node
  let (σ, wrote) ← pumpQueue env σ node false
  let (σ, issued) ← pumpQueue env σ node true
  let σ := (σ.nodes node).ports.foldl (pumpPort env) σ
  return (σ, moved || responded || wrote || issued)

/-- The `do ... while (progress)` loop. -/
def pumpLoop (env : Env) (node : Nat) : Nat → Fabric → Except Abort Fabric
  | 0, _ => .error .pumpFuel
  | fuel + 1, σ => do
      let (σ, progress) ← pumpRound env σ node
      if progress then pumpLoop env node fuel σ else return σ

/-- Rounds after which every queue of the node is full and every port busy. -/
def pumpBound (σ : Fabric) (node : Nat) : Nat :=
  (σ.nodes node).ports.length * (σ.config.queuePackets + 2) + 1

/-- `PumpNode`. -/
def pumpNode (env : Env) (σ : Fabric) (node : Nat) : Except Abort Fabric :=
  if (σ.nodes node).pumping then .ok σ
  else do
    let σ := σ.modNode node fun n => { n with pumping := true }
    let σ ← pumpLoop env node (σ.pumpBound node) σ
    return σ.modNode node fun n => { n with pumping := false }

/-! ## Event handlers -/

/-- `Finish`: the last TLP of a transfer is accounted for. -/
def finish (σ : Fabric) (id : Nat) : Fabric :=
  match σ.transfers id with
  | none => σ
  | some op =>
      if op.next ≠ op.bytes ∨ op.pending ≠ 0 then σ
      else
        let σ := σ.setTransfer id none
        if op.complete then (σ.observe (.scheduled id)).schedule 0 (.callback id) else σ

/-- A frame in transit joins the waiting list under a new order number. -/
def forward (σ : Fabric) (node : Nat) (f : Frame) : Fabric :=
  let f := { f with
    domain := f.ingress, order := σ.nextOrder
    ready := addTime σ.now (σ.nodes node).forwarding }
  let σ := { σ with nextOrder := σ.nextOrder + 1 }
  σ.modNode node fun n => { n with waiting := n.waiting ++ [f] }

/-- `Receive`: forward the frame, or hand it to the memory of its destination. -/
def receive (env : Env) (σ : Fabric) (node : Nat) (f : Frame) : Except Abort Fabric :=
  if node ≠ f.destination then pumpNode env (σ.forward node f) node
  else
    let σ := σ.observe (.received f)
    match f.header.type with
    | .read =>
        let (σ, f) := σ.returnCredit f
        let (delay, σ) := σ.callService env (σ.nodes node).hasRead
        .ok (σ.schedule delay (.readService node f))
    | .write =>
        let (delay, σ) := σ.callService env (σ.nodes node).hasWrite
        .ok (σ.schedule delay (.writeService node f))
    | .completion =>
        let (delay, σ) := σ.callService env (σ.nodes node).hasWrite
        .ok (σ.schedule delay (.completionService node f))

/-- A write TLP lands in memory: its buffer drains and its transfer waits for one less. -/
def landWrite (σ : Fabric) (f : Frame) (op : Transfer) : Fabric :=
  ((σ.returnCredit f).1.observe (.delivered f)).setTransfer f.transaction
    (some { op with pending := op.pending - 1 })

/-- The closure of a write reaching memory. -/
def writeDone (σ : Fabric) (f : Frame) : Except Abort Fabric :=
  match σ.transfers f.transaction with
  | none => .error .unknownWrite
  | some op =>
      if op.pending = 0 then .error .unknownWrite
      else .ok ((σ.landWrite f op).finish f.transaction)

/-- The overlap test against the neighbours `lower_bound` finds. -/
def overlaps (pieces : List (Nat × Nat)) (offset bytes : Nat) : Bool :=
  (match (pieces.filter fun q => offset ≤ q.1).head? with
    | some next => offset + bytes > next.1
    | none => false) ||
  (match (pieces.filter fun q => q.1 < offset).getLast? with
    | some prev => prev.1 + prev.2 > offset
    | none => false)

/-- `pieces.emplace`: keyed insertion that keeps the offsets sorted. -/
def insertPiece (q : Nat × Nat) : List (Nat × Nat) → List (Nat × Nat)
  | [] => [q]
  | r :: rest => if q.1 < r.1 then q :: r :: rest else r :: insertPiece q rest

/-- The read state after one completion. -/
def accepted (r : ReadState) (f : Frame) : ReadState :=
  { r with
    pieces := insertPiece (f.offset, f.header.bytes) r.pieces
    received := r.received + f.header.bytes }

/-- A completion is accepted under its tag, whose state becomes `r`. -/
def acceptPiece (σ : Fabric) (node : Nat) (f : Frame) (r : ReadState) : Fabric :=
  let σ := σ.modNode node fun n =>
    { n with reads := n.reads.map fun r' => if r'.tag == r.tag then r else r' }
  ((σ.observe (.delivered f)).returnCredit f).1

/-- The last byte of a read arrived: its tag and its window are free again. -/
def retireRead (σ : Fabric) (node : Nat) (r : ReadState) (op : Transfer) : Fabric :=
  let σ := σ.modNode node fun n =>
    { n with
      readBytes := wsub 64 n.readBytes r.bytes
      reads := n.reads.filter fun r' => r'.tag != r.tag }
  σ.setTransfer r.transaction (some { op with pending := op.pending - 1 })

/-- The completion does not lie inside the read it answers. -/
def mismatch (r : ReadState) (f : Frame) : Bool :=
  r.transaction != f.transaction || f.offset < r.offset || f.offset - r.offset ≥ r.bytes ||
    f.header.bytes > r.bytes - (f.offset - r.offset)

/-- The closure of a completion reaching the requester. -/
def completionDone (env : Env) (σ : Fabric) (node : Nat) (f : Frame) : Except Abort Fabric :=
  match (σ.nodes node).reads.find? fun r => r.tag == f.header.tag with
  | none => .error .noLiveTag
  | some r =>
      if mismatch r f then .error .completionMismatch
      else if overlaps r.pieces f.offset f.header.bytes then .error .overlappingCompletion
      else
        let r := accepted r f
        let σ := σ.acceptPiece node f r
        if r.received = r.bytes then
          match σ.transfers r.transaction with
          | none => .error .unknownRead
          | some op =>
              if op.pending = 0 then .error .unknownRead
              else pumpNode env ((σ.retireRead node r op).finish r.transaction) node
        else .ok σ

/-- An ACK arrives: the replay buffer shrinks. -/
def takeAck (σ : Fabric) (c : Control) : Fabric :=
  σ.modPort c.forPort fun port =>
    { port with
      replay := (ackReplay c.sequence port.replay port.replayBytes).1
      replayBytes := (ackReplay c.sequence port.replay port.replayBytes).2 }

/-- An UpdateFC arrives: the credit pools grow. -/
def takeCredit (σ : Fabric) (c : Control) : Fabric :=
  σ.modPort c.forPort fun port =>
    { port with available := fun i => wadd 32 (port.available i) (c.credits i) }

/-- The closure of a DLLP arriving at the transmitter it is for. -/
def controlDone (env : Env) (σ : Fabric) (c : Control) : Except Abort Fabric :=
  if c.ack then .ok (pumpPort env (σ.takeAck c) c.forPort)
  else
    let σ := σ.takeCredit c
    if (List.finRange 6).any fun i => (σ.ports c.forPort).available i > σ.config.credits i then
      .error .creditOverflow
    else .ok (pumpPort env σ c.forPort)

/-- The body of every closure the fabric schedules. -/
def handle (env : Env) (σ : Fabric) : EventKind → Except Abort Fabric
  | .busyEnd p =>
      let σ := σ.modPort p fun port => { port with busy := false }
      pumpNode env σ (σ.ports p).src
  | .controlArrive c => controlDone env σ c
  | .frameArrive p f seq => receive env (ackReceivedTlp env σ p seq) (σ.ports p).dst f
  | .fcEvent p =>
      let σ := σ.flushReturn p
      .ok (pumpPort env σ (σ.ports p).reverse)
  | .ackEvent p => .ok (sendAck env σ p)
  | .wake p => pumpNode env σ (σ.ports p).src
  | .readService node f =>
      pumpNode env (σ.modNode node fun n => { n with responses := n.responses ++ [⟨f, 0⟩] }) node
  | .writeService _ f => writeDone σ f
  | .completionService node f => completionDone env σ node f
  | .callback _ => .ok σ

/-! ## Submission and construction -/

/-- The arguments of `Read` and `Write`. -/
structure Request where
  read : Bool
  requester : Nat
  target : Nat
  bytes : Nat
  complete : Bool := true
  traffic : Traffic := .payload
  offset : Nat := 0
  relaxed : Bool := false

/-- The transfer record `Submit` builds. -/
def newTransfer (σ : Fabric) (r : Request) : Transfer :=
  { id := σ.nextId, address := (r.target + 1) * window + r.offset, bytes := r.bytes
    requester := r.requester, target := r.target, read := r.read
    relaxed := r.relaxed || σ.config.relaxedOrdering, traffic := r.traffic
    complete := r.complete }

/-- The new transfer of `Submit`, entered at its requester. -/
def enter (σ : Fabric) (op : Transfer) : Fabric :=
  let σ := { σ with nextId := σ.nextId + 1 }
  let σ := (σ.observe (.submitted op)).setTransfer op.id (some op)
  let σ := σ.modNode op.requester fun n =>
    if op.read then { n with readQueue := n.readQueue ++ [op.id] }
    else { n with writeQueue := n.writeQueue ++ [op.id] }
  if op.read then { σ with statsReads := σ.statsReads + 1 }
  else { σ with statsWrites := σ.statsWrites + 1 }

/-- `Submit`. -/
def submit (env : Env) (σ : Fabric) (r : Request) : Except Abort Fabric :=
  if r.requester ≥ σ.numNodes ∨ r.target ≥ σ.numNodes ∨
      (σ.nodes r.requester).endpoint = false ∨ (σ.nodes r.target).endpoint = false ∨
      r.requester = r.target then .error .badEndpoints
  else if r.bytes = 0 ∨ r.offset ≥ window ∨ r.bytes > window - r.offset then .error .badRange
  else pumpNode env (σ.enter (σ.newTransfer r)) r.requester

/-- What a new node is: `AddEndpoint`, `AddRootComplex` or `AddSwitch`. -/
inductive NodeKind
  | endpoint (hasRead hasWrite : Bool)
  | rootComplex (hasRead hasWrite : Bool)
  | switch
  deriving DecidableEq

/-- The `Impl::Node` each constructor builds. -/
def newNode (c : Config) : NodeKind → Node
  | .endpoint hasRead hasWrite => { hasRead, hasWrite, forwarding := c.switchLatency }
  | .rootComplex hasRead hasWrite => { hasRead, hasWrite, forwarding := c.rootLatency }
  | .switch => { forwarding := c.switchLatency, endpoint := false }

/-- `AddEndpoint` and its two variants. -/
def addNode (σ : Fabric) (k : NodeKind) : Except Abort Fabric :=
  if σ.statsReads ≠ 0 ∨ σ.statsWrites ≠ 0 ∨ σ.numNodes ≥ 65535 then .error .badTopology
  else .ok
    { σ with
      nodes := update σ.nodes σ.numNodes (newNode σ.config k)
      numNodes := σ.numNodes + 1 }

/-- `AddLink`: two directed ports with full credit. -/
def addLink (σ : Fabric) (a b : Nat) : Except Abort Fabric :=
  if a ≥ σ.numNodes ∨ b ≥ σ.numNodes ∨ a = b ∨ σ.statsReads ≠ 0 ∨ σ.statsWrites ≠ 0 then
    .error .badTopology
  else if (σ.nodes a).ports.any fun p => (σ.ports p).dst == b then .error .duplicateLink
  else
    let index := σ.numPorts
    let ab : Port := { src := a, dst := b, reverse := index + 1, available := σ.config.credits }
    let ba : Port := { src := b, dst := a, reverse := index, available := σ.config.credits }
    let σ := { σ with
      ports := update (update σ.ports index ab) (index + 1) ba
      numPorts := index + 2 }
    let σ := σ.modNode a fun n => { n with ports := n.ports ++ [index] }
    .ok (σ.modNode b fun n => { n with ports := n.ports ++ [index + 1] })

/-! ## The machine -/

/-- What may happen next: construction, a submission, the clock moving to the
time of some outside event, or the simulator running one pending event. -/
inductive Act
  | addNode (k : NodeKind)
  | addLink (a b : Nat)
  | submit (r : Request)
  | advance (t : Nat)
  | fire (i : Nat)

/-- The simulator never runs past a pending event. -/
def enabled (σ : Fabric) : Act → Prop
  | .advance t => σ.now ≤ t ∧ t ≤ timeMax ∧ ∀ e ∈ σ.events, t ≤ e.time
  | .fire i => ∃ e, σ.events[i]? = some e ∧ ∀ e' ∈ σ.events, e.time ≤ e'.time
  | _ => True

instance (σ : Fabric) : (a : Act) → Decidable (σ.enabled a)
  | .advance t => inferInstanceAs (Decidable (σ.now ≤ t ∧ t ≤ timeMax ∧ ∀ e ∈ σ.events, t ≤ e.time))
  | .fire i =>
      match h : σ.events[i]? with
      | none => .isFalse fun ⟨e, he, _⟩ => by rw [h] at he; cases he
      | some e => decidable_of_iff (∀ e' ∈ σ.events, e.time ≤ e'.time)
          ⟨fun hmin => ⟨e, h, hmin⟩, fun ⟨e', he, hmin⟩ => by rw [h] at he; cases he; exact hmin⟩
  | .addNode _ => .isTrue trivial
  | .addLink _ _ => .isTrue trivial
  | .submit _ => .isTrue trivial

/-- Take the event off the calendar and set the clock. -/
@[simps]
def popEvent (σ : Fabric) (i : Nat) (e : Event) : Fabric :=
  { σ with now := e.time, events := σ.events.eraseIdx i }

/-- One action of the fabric. -/
def exec (env : Env) (σ : Fabric) : Act → Except Abort Fabric
  | .addNode k => σ.addNode k
  | .addLink a b => σ.addLink a b
  | .submit r => σ.submit env r
  | .advance t => .ok { σ with now := t }
  | .fire i =>
      match σ.events[i]? with
      | some e => (σ.popEvent i e).handle env e.kind
      | none => .ok σ

end Fabric

/-- Every run of a fabric: any accepted configuration, any construction, any
submissions, and any order of events the clock allows. -/
def machine (env : Env) : Machine Fabric Fabric.Act Abort where
  init σ := ∃ c : Config, c.InRange ∧ c.validate = .ok () ∧ σ = { config := c }
  enabled := Fabric.enabled
  exec := Fabric.exec env

instance (env : Env) (σ : Fabric) (a : Fabric.Act) : Decidable ((machine env).enabled σ a) :=
  inferInstanceAs (Decidable (σ.enabled a))

/-- The environment of the concrete runs: every wire byte takes one tick, and no
memory service delays. -/
def tickEnv : Env := ⟨fun bytes => bytes, fun _ => 0⟩

end ProtoBridge.Pcie
