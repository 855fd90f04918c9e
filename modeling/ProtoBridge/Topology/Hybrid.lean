import ProtoBridge.Topology.Ring

/-!
# Hybrid topologies

A hybrid topology has several fabrics, each a ring, a full mesh or GPUs around a switch, and links between
the gateways of fabrics. `PopulateCrossFabricRouting` goes through these links and makes what is for one of
the two fabrics go by its gateway.
-/

namespace ProtoBridge.Topology

open Lib

/-- The types of fabrics. Whatever is no ring and no full mesh has a switch. -/
inductive FabricTopology
  | ring | fullmesh | switch
  deriving DecidableEq

/-- A `FabricConfig`. -/
structure FabricConfig where
  topologyType : FabricTopology
  numGpus : Nat
  baseRank : Nat

/-- A `CrossFabricLink`, and the devices that it gets. Fabrics are numbered as they are added. -/
structure CrossFabricLink where
  fabric1Id : Nat
  fabric2Id : Nat
  gateway1Rank : Nat
  gateway2Rank : Nat
  gw1DeviceIndex : Nat := 0
  gw2DeviceIndex : Nat := 0

namespace FabricConfig

/-- A rank is one of the fabric. -/
def Has (f : FabricConfig) (v : Nat) : Prop := f.baseRank ≤ v ∧ v < f.baseRank + f.numGpus

instance (f : FabricConfig) (v : Nat) : Decidable (f.Has v) := inferInstanceAs (Decidable (_ ∧ _))

/-- The ranks of the fabric. -/
def ranks (f : FabricConfig) : List Nat := (List.range f.numGpus).map fun i => f.baseRank + i

/-- The node of the switch, which is behind all ranks. -/
def switchNode (f : FabricConfig) : Nat := 2 ^ 16 + f.baseRank

/-- The loop over the destinations at a GPU. A ring sets no entry for a device that there is not. -/
def routes (f : FabricConfig) (checked : Bool) (i : Nat) (device : Nat → Nat) (ep : Endpoint) : Endpoint :=
  (List.range f.numGpus).foldl (fun ep j =>
    if i = j ∨ (checked ∧ ¬ ep.getNNetDevices > device j) then ep
    else ep.setRoutingEntry (UInt16.ofNat (f.baseRank + j)) (device j)) ep

/-- The device for the shorter way on the ring. -/
def ringDevice (f : FabricConfig) (i j forwardDevice backwardDevice : Nat) : Nat :=
  let distForward := if j > i then j - i else f.numGpus - i + j
  let distBackward := if i > j then i - j else f.numGpus - j + i
  if distForward ≤ distBackward then forwardDevice else backwardDevice

/-- The links of a full mesh, from each GPU to those behind it. -/
def meshLinks (f : FabricConfig) : List (Nat × Nat) :=
  (List.range f.numGpus).flatMap fun i => (List.range' (i + 1) (f.numGpus - (i + 1))).map fun j => (i, j)

/-- What `BuildFabric` makes of the endpoint of a GPU. The links join GPUs by their numbers in the fabric. -/
def endpoint (f : FabricConfig) (i : Nat) : Endpoint :=
  match f.topologyType with
  | .ring =>
      let b := (List.range f.numGpus).foldl (installEdge f.numGpus 1) {}
      f.routes true i (fun j => f.ringDevice i j (b.cwLogicalDev i) (b.ccwLogicalDev i))
        { peers := (b.net i).peers.map fun j => f.baseRank + j }
  | .fullmesh =>
      let net := f.meshLinks.foldl (fun net l => installLane net l.1 l.2) Network.bare
      f.routes false i (fun j => if j < i then j else j - 1)
        { peers := (net i).peers.map fun j => f.baseRank + j }
  | .switch => { peers := [f.switchNode] }

end FabricConfig

/-- `BuildFabric`. -/
def buildFabric (net : Network) (f : FabricConfig) : Network := fun v =>
  if f.Has v then f.endpoint (v - f.baseRank) else net v

/-- A round of `BuildCrossFabricLinks`, which notes the devices of the link. -/
def buildCrossFabricLink (fabrics : List FabricConfig) (s : Network × List CrossFabricLink)
    (link : CrossFabricLink) : Network × List CrossFabricLink :=
  match fabrics[link.fabric1Id]?, fabrics[link.fabric2Id]? with
  | some f1, some f2 =>
      if f1.Has link.gateway1Rank ∧ f2.Has link.gateway2Rank then
        let gw1DeviceIndex := (s.1 link.gateway1Rank).getNNetDevices
        let net := Function.update s.1 link.gateway1Rank
          ((s.1 link.gateway1Rank).addNetDevice link.gateway2Rank)
        let gw2DeviceIndex := (net link.gateway2Rank).getNNetDevices
        let net := Function.update net link.gateway2Rank
          ((net link.gateway2Rank).addNetDevice link.gateway1Rank)
        (net, s.2 ++ [{ link with gw1DeviceIndex, gw2DeviceIndex }])
      else (s.1, s.2 ++ [link])
  | _, _ => (s.1, s.2 ++ [link])

/-- An endpoint gets entries with one device. -/
def setEntries (ranks : List Nat) (deviceIndex : Nat) (ep : Endpoint) : Endpoint :=
  ranks.foldl (fun ep rank => ep.setRoutingEntry (UInt16.ofNat rank) deviceIndex) ep

/-- The other GPUs of a fabric send what is for a remote one the way they send what is for the gateway. -/
def routeOthers (f remote : FabricConfig) (gatewayRank : Nat) (net : Network) : Network := fun v =>
  if f.Has v ∧ v ≠ gatewayRank then
    setEntries remote.ranks ((net v).getRoutingDeviceIndex (UInt16.ofNat gatewayRank)) (net v)
  else net v

/-- A round of `PopulateCrossFabricRouting`. -/
def populateLink (fabrics : List FabricConfig) (net : Network) (link : CrossFabricLink) : Network :=
  match fabrics[link.fabric1Id]?, fabrics[link.fabric2Id]? with
  | some f1, some f2 =>
      let net := Function.update net link.gateway1Rank
        (setEntries f2.ranks link.gw1DeviceIndex (net link.gateway1Rank))
      let net := Function.update net link.gateway2Rank
        (setEntries f1.ranks link.gw2DeviceIndex (net link.gateway2Rank))
      routeOthers f2 f1 link.gateway2Rank (routeOthers f1 f2 link.gateway1Rank net)
  | _, _ => net

/-- The endpoints after `Build`, and the links. -/
def buildHybrid (fabrics : List FabricConfig) (links : List CrossFabricLink) :
    Network × List CrossFabricLink :=
  links.foldl (buildCrossFabricLink fabrics) (fabrics.foldl buildFabric Network.bare, [])

/-- The endpoints after `Build` and `PopulateCrossFabricRouting`. -/
def hybridNetwork (fabrics : List FabricConfig) (links : List CrossFabricLink) : Network :=
  (buildHybrid fabrics links).2.foldl (populateLink fabrics) (buildHybrid fabrics links).1

/-! ## What is meant -/

/-- The link joins gateways that lie in its fabrics. -/
structure CrossFabricLink.Joins (fabrics : List FabricConfig) (l : CrossFabricLink) (f g : FabricConfig) :
    Prop where
  first : fabrics[l.fabric1Id]? = some f
  second : fabrics[l.fabric2Id]? = some g
  gateway1 : f.Has l.gateway1Rank
  gateway2 : g.Has l.gateway2Rank

/-- Fabrics on ranges of ranks that are apart, and links whose gateways lie in their fabrics. -/
structure Admissible (fabrics : List FabricConfig) (links : List CrossFabricLink) : Prop where
  ranks : ∀ f ∈ fabrics, f.baseRank + f.numGpus ≤ 2 ^ 16
  apart : fabrics.Pairwise fun f g => ∀ v, f.Has v → ¬ g.Has v
  rings : ∀ f ∈ fabrics, f.topologyType = .ring → 2 ≤ f.numGpus
  gateways : ∀ l ∈ links, ∃ f g, l.Joins fabrics f g

/-- Two ranks of one fabric. -/
def SameFabric (fabrics : List FabricConfig) (v w : Nat) : Prop := ∃ f ∈ fabrics, f.Has v ∧ f.Has w

/-- From each rank of a fabric the entries lead to each rank of another one, and from fabric to fabric once. -/
def Reaches (fabrics : List FabricConfig) (net : Network) (f g : FabricConfig) : Prop :=
  ∀ src, f.Has src → ∀ dst, g.Has dst →
    (∃ deviceIndex, (net src).routingTable.lookup (UInt16.ofNat dst) = some deviceIndex ∧
      deviceIndex < (net src).getNNetDevices) ∧
    ∃ path : Nat → Nat, ∃ k, path 0 = src ∧ path k = dst ∧ Walk (EntryLeads net dst) path k ∧
      ∃ m < k, ∀ i < k, ¬ SameFabric fabrics (path i) (path (i + 1)) ↔ i = m

/-- The two fabrics of every link reach each other. -/
def LinkedFabricsReach (fabrics : List FabricConfig) (links : List CrossFabricLink) : Prop :=
  ∀ l ∈ links, ∀ f g, l.Joins fabrics f g →
    Reaches fabrics (hybridNetwork fabrics links) f g ∧ Reaches fabrics (hybridNetwork fabrics links) g f

/-- The endpoints of a fabric have entries for one another, or there is only one. -/
def FabricConfig.Connected (f : FabricConfig) : Prop := f.topologyType = .switch → f.numGpus ≤ 1

end ProtoBridge.Topology
