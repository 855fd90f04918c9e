import ProtoBridge.Fabric.Header
import ProtoBridge.Switch.FailureAware
import ProtoBridge.Topology.Links

/-!
# Forwarding by endpoints, gateways and switches

An endpoint that receives a packet for another rank sends it on by its routing table, a gateway by its
hybrid table and after its delay, and a switch by addresses.
-/

namespace ProtoBridge.Topology

open Lib

/-- `Mac48Address::GetBroadcast`. -/
def broadcastMac : Nat := 2 ^ 48 - 1

/-- `m_currentDeviceIndex` after `ResolveDeviceIndex`. -/
def Endpoint.nextCurrent (ep : Endpoint) (r : Rotation) (destRank : UInt16) : Nat :=
  let devs := (ep.routingDevicesTable.lookup destRank).getD []
  if r.sprayingEnabled ∧ devs.length > 1 then (r.currentDeviceIndex + 1) % ep.peers.length
  else
    match ep.routingTable.lookup destRank with
    | some _ => r.currentDeviceIndex
    | none => if ep.peers = [] then r.currentDeviceIndex else (r.currentDeviceIndex + 1) % ep.peers.length

/-- A `FabricEndpoint`, with the addresses of its neighbors. -/
structure FabricEndpoint where
  rank : UInt16
  tables : Endpoint
  sprayingEnabled : Bool := false
  neighborMacTable : AList (fun _ : UInt16 => Nat) := ∅

/-- `RouteEntry`. -/
structure RouteEntry where
  fabric : Fabric.FabricType := .nvlink
  deviceIndex : Nat := 0
  deriving DecidableEq

/-- A `GatewayEndpoint`. Nothing reads `maxHops`. -/
structure GatewayEndpoint extends FabricEndpoint where
  hybridRoutingTable : Option (AList (fun _ : UInt16 => RouteEntry)) := none
  maxHops : UInt8 := 8

/-- What `TryForwardReceivedPacket` does with a packet: leaves it to the endpoint, sends it, or schedules
`ForwardToFabric`. -/
inductive Forwarding
  | receive
  | send (deviceIndex : Nat) (header : Fabric.Header)
  | schedule (route : RouteEntry) (header : Fabric.Header)

namespace FabricEndpoint

/-- `GetNeighborMac`. -/
def getNeighborMac (ep : FabricEndpoint) (rank : UInt16) : Nat :=
  (ep.neighborMacTable.lookup rank).getD broadcastMac

/-- `ResolveDestMac`. -/
def resolveDestMac (ep : FabricEndpoint) (destRank : UInt16) : Nat :=
  (ep.neighborMacTable.lookup destRank).getD broadcastMac

/-- The rotation of an endpoint. -/
def rotation (ep : FabricEndpoint) (currentDeviceIndex : Nat) : Rotation :=
  ⟨ep.sprayingEnabled, currentDeviceIndex⟩

/-- `TryForwardReceivedPacket`. -/
def tryForwardReceivedPacket (ep : FabricEndpoint) (currentDeviceIndex : Nat) (h : Fabric.Header) : Forwarding :=
  match ep.tables.tryForwardReceivedPacket (ep.rotation currentDeviceIndex) ep.rank h.destRank with
  | some deviceIndex => .send deviceIndex { h with destMac := ep.resolveDestMac h.destRank }
  | none => .receive

end FabricEndpoint

namespace GatewayEndpoint

/-- `LookupRoute`, where there is a hybrid table. -/
def lookupRoute (gw : GatewayEndpoint) (destRank : UInt16) : Option RouteEntry :=
  gw.hybridRoutingTable.bind fun table => table.lookup destRank

/-- `TryForwardReceivedPacket`. -/
def tryForwardReceivedPacket (gw : GatewayEndpoint) (currentDeviceIndex : Nat) (h : Fabric.Header) :
    Forwarding :=
  if h.destRank = gw.rank then .receive
  else
    match gw.lookupRoute h.destRank with
    | none => gw.toFabricEndpoint.tryForwardReceivedPacket currentDeviceIndex h
    | some route =>
        let destMac := gw.getNeighborMac h.destRank
        let destMac := if destMac = 0 then gw.resolveDestMac h.destRank else destMac
        .schedule route { h with destMac }

end GatewayEndpoint

/-- The header that `ForwardToFabric` sends. -/
def forwardToFabric (route : RouteEntry) (h : Fabric.Header) : Fabric.Header := { h with fabricType := route.fabric }

/-- A node, which has devices or ports. -/
inductive Node
  | endpoint (ep : FabricEndpoint)
  | gateway (gw : GatewayEndpoint)
  | switch (ports : List Nat)

namespace Node

/-- The nodes at the far ends of the devices. -/
def peers : Node → List Nat
  | endpoint ep => ep.tables.peers
  | gateway gw => gw.tables.peers
  | switch ports => ports

end Node

/-- The nodes and links of a cluster. A link ends at a device of a node of the cluster. -/
structure HybridNetwork where
  size : Nat
  node : Nat → Node
  farPort : Nat → Nat → Nat
  inside : ∀ v, ∀ w ∈ (node v).peers, w < size

/-- A copy of a packet on its way to a node. -/
structure Transit where
  node : Nat
  inPort : Nat
  header : Fabric.Header
  deriving DecidableEq

/-- A packet that waits for the delay of a gateway. -/
structure Scheduled where
  node : Nat
  route : RouteEntry
  header : Fabric.Header
  deriving DecidableEq

/-- The copies of a packet, with how often endpoints and gateways have forwarded it. -/
structure Journey where
  currentDeviceIndex : Nat → Nat
  switches : Nat → Switch.NvSwitch
  flying : List Transit
  scheduled : List Scheduled := []
  forwards : Nat := 0

/-- A packet leaves a node. From a device that there is not, it goes nowhere. -/
def HybridNetwork.transmit (net : HybridNetwork) (v deviceIndex : Nat) (h : Fabric.Header) : List Transit :=
  match (net.node v).peers[deviceIndex]? with
  | some w => [{ node := w, inPort := net.farPort v deviceIndex, header := h }]
  | none => []

namespace Journey

/-- An endpoint resolves a device, for a packet of any kind. -/
def resolve (σ : Journey) (v : Nat) (ep : FabricEndpoint) (destRank : UInt16) : Journey :=
  { σ with
    currentDeviceIndex := Function.update σ.currentDeviceIndex v
      (ep.tables.nextCurrent (ep.rotation (σ.currentDeviceIndex v)) destRank) }

/-- What `TryForwardReceivedPacket` has decided is done. -/
def carryOut (net : HybridNetwork) (σ : Journey) (v : Nat) (ep : FabricEndpoint) : Forwarding → Journey
  | .receive => σ
  | .send deviceIndex h =>
      { σ.resolve v ep h.destRank with
        flying := σ.flying ++ net.transmit v deviceIndex h
        forwards := σ.forwards + 1 }
  | .schedule route h =>
      { σ with scheduled := σ.scheduled ++ [⟨v, route, h⟩], forwards := σ.forwards + 1 }

/-- The ports that a switch sends a packet on. -/
def outputs (ports : List Nat) (isUp : Nat → Bool) (inPort : Nat) : Switch.Forwarding → List Nat
  | .port outPort => [outPort]
  | .dropped => []
  | .flooded => (List.range ports.length).filter fun port => decide (port ≠ inPort) && isUp port

/-- `NvSwitch::ReceiveFromPort`, which counts the time to live down. -/
def receiveFromPort (net : HybridNetwork) (σ : Journey) (ports : List Nat) (linkUp : Nat → Bool)
    (p : Transit) : Journey :=
  if p.header.ttl ≤ 1 then σ
  else
    let h := { p.header with ttl := p.header.ttl - 1 }
    let isUp := fun port => decide (port < ports.length) && linkUp port
    let routed := (σ.switches p.node).receiveFromPort isUp h.sourceMac h.destMac h.sourceRank p.inPort
    { σ with
      switches := Function.update σ.switches p.node routed.1
      flying := σ.flying ++ (outputs ports isUp p.inPort routed.2).flatMap fun port => net.transmit p.node port h }

/-- A copy comes to its node. -/
def receive (net : HybridNetwork) (σ : Journey) (linkUp : Nat → Bool) (p : Transit) : Journey :=
  match net.node p.node with
  | .endpoint ep => σ.carryOut net p.node ep (ep.tryForwardReceivedPacket (σ.currentDeviceIndex p.node) p.header)
  | .gateway gw =>
      σ.carryOut net p.node gw.toFabricEndpoint
        (gw.tryForwardReceivedPacket (σ.currentDeviceIndex p.node) p.header)
  | .switch ports => σ.receiveFromPort net ports linkUp p

/-- An endpoint sends some other packet. -/
def sendOther (net : HybridNetwork) (σ : Journey) (v : Nat) (destRank : UInt16) : Journey :=
  match net.node v with
  | .endpoint ep => σ.resolve v ep destRank
  | .gateway gw => σ.resolve v gw.toFabricEndpoint destRank
  | .switch _ => σ

end Journey

/-- What may happen next. A copy may be lost, on a link or in a queue, and so may one that a gateway delays
past the end of time. -/
inductive JourneyAct
  | arrive (p : Transit) (linkUp : Nat → Bool)
  | lose (p : Transit)
  | forwardToFabric (w : Scheduled)
  | expire (w : Scheduled)
  | sendOther (v : Nat) (destRank : UInt16)

namespace Journey

def Enabled (σ : Journey) : JourneyAct → Prop
  | .arrive p _ => p ∈ σ.flying
  | .lose p => p ∈ σ.flying
  | .forwardToFabric w => w ∈ σ.scheduled
  | .expire w => w ∈ σ.scheduled
  | .sendOther _ _ => True

def step (net : HybridNetwork) (σ : Journey) : JourneyAct → Journey
  | .arrive p linkUp => { σ with flying := σ.flying.erase p }.receive net linkUp p
  | .lose p => { σ with flying := σ.flying.erase p }
  | .forwardToFabric w =>
      { σ with
        scheduled := σ.scheduled.erase w
        flying := σ.flying ++ net.transmit w.node w.route.deviceIndex (Topology.forwardToFabric w.route w.header) }
  | .expire w => { σ with scheduled := σ.scheduled.erase w }
  | .sendOther v destRank => σ.sendOther net v destRank

/-- The rotations are over the devices that there are. -/
def InRange (net : HybridNetwork) (σ : Journey) : Prop :=
  ∀ v, (net.node v).peers ≠ [] → σ.currentDeviceIndex v < (net.node v).peers.length

end Journey

/-- The journey of a packet that is on its way to a node. The switches may have any tables. -/
def journey (net : HybridNetwork) (p : Transit) : Machine Journey JourneyAct Empty where
  init σ := σ.InRange net ∧ σ.flying = [p] ∧ σ.scheduled = [] ∧ σ.forwards = 0
  enabled := Journey.Enabled
  exec σ act := .ok (σ.step net act)

/-- Endpoints and gateways forward a packet for a rank only so many times. -/
def LoopBounded (net : HybridNetwork) (dst : UInt16) : Prop :=
  ∀ p : Transit, p.node < net.size → p.header.destRank = dst →
    ∃ bound, (journey net p).Invariant fun σ => σ.forwards ≤ bound

/-! ## Where the tables lead -/

/-- The tables of an endpoint lead to a device, for one of the turns of its rotation. -/
def FabricEndpoint.Routes (ep : FabricEndpoint) (dst : UInt16) (deviceIndex : Nat) : Prop :=
  dst ≠ ep.rank ∧ ep.tables.routingTable.entries ≠ [] ∧ ∃ current < ep.tables.peers.length,
    ep.tables.resolveDeviceIndex (ep.rotation current) dst = deviceIndex

/-- The tables of a gateway: the hybrid one comes first. -/
def GatewayEndpoint.Routes (gw : GatewayEndpoint) (dst : UInt16) (deviceIndex : Nat) : Prop :=
  match gw.lookupRoute dst with
  | some route => dst ≠ gw.rank ∧ route.deviceIndex = deviceIndex
  | none => gw.toFabricEndpoint.Routes dst deviceIndex

def Node.Routes (dst : UInt16) (deviceIndex : Nat) : Node → Prop
  | endpoint ep => ep.Routes dst deviceIndex
  | gateway gw => gw.Routes dst deviceIndex
  | switch _ => False

/-- The tables of an endpoint or gateway lead over a link to another node. -/
def HybridNetwork.Routes (net : HybridNetwork) (dst : UInt16) (v w : Nat) : Prop :=
  ∃ deviceIndex, (net.node v).Routes dst deviceIndex ∧ (net.node v).peers[deviceIndex]? = some w

end ProtoBridge.Topology
