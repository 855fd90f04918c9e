import Mathlib.Data.Finset.Card
import Mathlib.Data.List.Sort
import ProtoBridge.Lib.Machine

/-!
# Failure-aware routes

`RecomputeFailureAwareRoutes` searches the switches from each destination, over ports that are up, and gives
each switch the ports that lead to the destination or to a switch one step nearer. `ReceiveFromPort` takes
these ports in turn.
-/

namespace ProtoBridge.Switch

open Lib

/-- What is at the far end of a port. -/
inductive PortPeer
  | switch (swIndex port : Nat)
  | endpoint (appIndex : Nat)
  | other
  deriving DecidableEq

/-- The switches and endpoints of a cluster and the states of its links. -/
structure Cluster where
  numSwitches : Nat
  numPorts : Nat → Nat
  peer : Nat → Nat → PortPeer
  linkUp : Nat → Nat → Bool
  numEndpoints : Nat
  rank : Nat → UInt16
  mac : Nat → Nat
  devices : Nat → List (Option (Nat × Nat))

/-- `RouteEdge`. -/
structure RouteEdge where
  nextSwitch : Nat
  outputPort : Nat

namespace Cluster

/-- `SwitchPortIsUp`, which is `IsPortOperational`. -/
def switchPortIsUp (c : Cluster) (sw port : Nat) : Bool := decide (port < c.numPorts sw) && c.linkUp sw port

/-- The edges of a switch to others, port by port. -/
def adjacency (c : Cluster) (sw : Nat) : List RouteEdge :=
  (List.range (c.numPorts sw)).filterMap fun port =>
    match c.peer sw port with
    | .switch next _ => some ⟨next, port⟩
    | _ => none

/-- The switches and ports that the devices of an endpoint are attached to. -/
def attachments (c : Cluster) (appIndex : Nat) : List (Nat × Nat) := (c.devices appIndex).filterMap id

/-- Both ends of a link know each other and agree on its state, an endpoint is attached where a port leads
to it, and ranks and addresses are different. -/
structure Wf (c : Cluster) : Prop where
  link : ∀ a < c.numSwitches, ∀ p < c.numPorts a, ∀ b q, c.peer a p = .switch b q →
    b < c.numSwitches ∧ q < c.numPorts b ∧ c.peer b q = .switch a p ∧ c.linkUp b q = c.linkUp a p
  attached : ∀ e < c.numEndpoints, ∀ a p, (a, p) ∈ c.attachments e ↔
    a < c.numSwitches ∧ p < c.numPorts a ∧ c.peer a p = .endpoint e
  ends : ∀ a < c.numSwitches, ∀ p < c.numPorts a, ∀ e, c.peer a p = .endpoint e → e < c.numEndpoints
  ranks : ∀ e < c.numEndpoints, ∀ e' < c.numEndpoints, c.rank e = c.rank e' → e = e'
  macs : ∀ e < c.numEndpoints, ∀ e' < c.numEndpoints, c.mac e = c.mac e' → e = e'

end Cluster

/-! ## The search -/

/-- The distances that a search has found, and its queue. -/
structure Search where
  distance : Nat → Option Nat := fun _ => none
  work : List Nat := []

namespace Search

/-- A switch is found. -/
def found (s : Search) (sw dist : Nat) : Search :=
  { distance := Function.update s.distance sw (some dist), work := s.work ++ [sw] }

/-- The search starts at the switches that the destination is attached to. -/
def seed (c : Cluster) (dest : Nat) : Search :=
  (c.attachments dest).foldl (fun s attachment =>
    if c.switchPortIsUp attachment.1 attachment.2 ∧ s.distance attachment.1 = none then
      s.found attachment.1 0
    else s) {}

/-- The edges of a switch that is taken from the queue. -/
def expand (c : Cluster) (current : Nat) (s : Search) : Search :=
  (c.adjacency current).foldl (fun s edge =>
    if ¬ c.switchPortIsUp current edge.outputPort ∨ s.distance edge.nextSwitch ≠ none then s
    else s.found edge.nextSwitch ((s.distance current).getD 0 + 1)) s

/-- The rounds of the search; a switch is taken once at most. -/
def run (c : Cluster) : Nat → Search → Search
  | 0, s => s
  | rounds + 1, s =>
      match s.work with
      | [] => s
      | current :: rest => run c rounds (expand c current { s with work := rest })

end Search

/-- The distances of the switches from a destination. -/
def distances (c : Cluster) (dest : Nat) : Nat → Option Nat :=
  (Search.run c c.numSwitches (Search.seed c dest)).distance

/-! ## The routes -/

/-- `std::sort` and `std::unique`. -/
def sortUnique (ports : List Nat) : List Nat := (ports.mergeSort (· ≤ ·)).dedup

/-- The ports of a switch for a destination. -/
def outputPorts (c : Cluster) (dest : Nat) (distance : Nat → Option Nat) (sw : Nat) : List Nat :=
  sortUnique
    (if distance sw = some 0 then
      (c.attachments dest).filterMap fun attachment =>
        if attachment.1 = sw ∧ c.switchPortIsUp sw attachment.2 then some attachment.2 else none
    else
      (c.adjacency sw).filterMap fun edge =>
        if c.switchPortIsUp sw edge.outputPort ∧ distance edge.nextSwitch ≠ none ∧
          (distance edge.nextSwitch).map (· + 1) = distance sw then some edge.outputPort else none)

/-- The routing tables of an `NvSwitch`. -/
structure NvSwitch where
  macTable : Nat → Option Nat := fun _ => none
  sourceBasedTable : Nat × UInt16 → Option Nat := fun _ => none
  sprayPortsTable : Nat → Option (List Nat) := fun _ => none
  sprayRoundRobin : Nat → Nat := fun _ => 0
  sourceBasedRoutingEnabled : Bool := false
  sprayRoutingEnabled : Bool := false
  failureAwareRoutingEnabled : Bool := false

namespace NvSwitch

/-- `ClearRoutingTables`. -/
def clearRoutingTables (s : NvSwitch) : NvSwitch :=
  { s with macTable := fun _ => none, sourceBasedTable := fun _ => none, sprayPortsTable := fun _ => none
           sprayRoundRobin := fun _ => 0 }

/-- `AddStaticRoute`. -/
def addStaticRoute (s : NvSwitch) (addr port : Nat) : NvSwitch :=
  { s with macTable := Function.update s.macTable addr (some port) }

/-- `AddSprayPorts`. -/
def addSprayPorts (s : NvSwitch) (dstMac : Nat) (ports : List Nat) : NvSwitch :=
  { s with sprayPortsTable := Function.update s.sprayPortsTable dstMac (some ports)
           sprayRoundRobin := Function.update s.sprayRoundRobin dstMac 0 }

/-- `LearnMacAddress`, unless there is a route already. -/
def learn (s : NvSwitch) (addr port : Nat) : NvSwitch :=
  if s.macTable addr = none then { s with macTable := Function.update s.macTable addr (some port) } else s

/-- The routes of a destination at a switch. -/
def addRoutes (s : NvSwitch) (dstMac : Nat) : List Nat → NvSwitch
  | [] => s
  | port :: ports => (s.addStaticRoute dstMac port).addSprayPorts dstMac (port :: ports)

end NvSwitch

/-- A destination is reached from a source. -/
def reachableFrom (c : Cluster) (distance : Nat → Option Nat) (source : Nat) : Bool :=
  (c.attachments source).any fun attachment =>
    c.switchPortIsUp attachment.1 attachment.2 && (distance attachment.1).isSome

/-- The sources that do not reach a destination. -/
def unreachableSources (c : Cluster) (distance : Nat → Option Nat) (dest : Nat) : Nat :=
  (List.range c.numEndpoints).foldl (fun count source =>
    if c.rank source = c.rank dest then count
    else if reachableFrom c distance source then count
    else count + 1) 0

/-- The switches and the count of `m_unreachableGpuPairs`. -/
structure Routed where
  switches : Nat → NvSwitch
  unreachableGpuPairs : Nat

/-- The routes to a destination. -/
def routeDestination (c : Cluster) (r : Routed) (dest : Nat) : Routed :=
  let distance := distances c dest
  { switches := fun sw =>
      if sw < c.numSwitches ∧ distance sw ≠ none then
        (r.switches sw).addRoutes (c.mac dest) (outputPorts c dest distance sw)
      else r.switches sw
    unreachableGpuPairs := r.unreachableGpuPairs + unreachableSources c distance dest }

/-- `RecomputeFailureAwareRoutes`, of the routes that the switches have had. -/
def recomputeFailureAwareRoutes (c : Cluster) (switches : Nat → NvSwitch) : Routed :=
  (List.range c.numEndpoints).foldl (routeDestination c)
    { switches := fun sw =>
        { (switches sw).clearRoutingTables with
          sourceBasedRoutingEnabled := false
          sprayRoutingEnabled := true
          failureAwareRoutingEnabled := true }
      unreachableGpuPairs := 0 }

/-! ## ReceiveFromPort -/

/-- What a switch does with a packet. -/
inductive Forwarding
  | port (outPort : Nat)
  | dropped
  | flooded
  deriving DecidableEq

namespace NvSwitch

/-- The turn of the round robin that finds a port which is up and not the one the packet came in at. -/
def sprayTurn (isUp : Nat → Bool) (ports : List Nat) (rrIndex inPort : Nat) : Option Nat :=
  ((List.range ports.length).map fun attempt => (rrIndex + attempt) % ports.length).find? fun index =>
    decide (ports.getD index 0 ≠ inPort) && isUp (ports.getD index 0)

/-- A port that a table gives is taken if it is up and not the one the packet came in at. -/
def usable (isUp : Nat → Bool) (inPort : Nat) : Option Nat → Option Nat
  | some port => if port ≠ inPort ∧ isUp port then some port else none
  | none => none

/-- The ports without spray routing: of the source, then of the destination. -/
def fallbackPort (s : NvSwitch) (isUp : Nat → Bool) (dstAddr : Nat) (srcRank : UInt16) (inPort : Nat) :
    Option Nat :=
  match (if s.sourceBasedRoutingEnabled then usable isUp inPort (s.sourceBasedTable (dstAddr, srcRank))
    else none) with
  | some port => some port
  | none => usable isUp inPort (s.macTable dstAddr)

/-- The route selection of `ReceiveFromPort`. -/
def receiveFromPort (s : NvSwitch) (isUp : Nat → Bool) (srcAddr dstAddr : Nat) (srcRank : UInt16)
    (inPort : Nat) : NvSwitch × Forwarding :=
  let s := s.learn srcAddr inPort
  let ports := if s.sprayRoutingEnabled then (s.sprayPortsTable dstAddr).getD [] else []
  match sprayTurn isUp ports (s.sprayRoundRobin dstAddr) inPort with
  | some index =>
      ({ s with sprayRoundRobin := Function.update s.sprayRoundRobin dstAddr ((index + 1) % ports.length) },
        .port (ports.getD index 0))
  | none =>
      match s.fallbackPort isUp dstAddr srcRank inPort with
      | some port => (s, .port port)
      | none => (s, if s.failureAwareRoutingEnabled then .dropped else .flooded)

end NvSwitch

end ProtoBridge.Switch
