import ProtoBridge.Topology.FullMesh
import ProtoBridge.Topology.Hypercube
import ProtoBridge.Topology.Ring

/-!
# Direct topologies

The topologies without switches in which the builder installs the links that its routes go over.
-/

namespace ProtoBridge.Topology

theorem fullMeshDist_le (cols src dst : Nat) : fullMeshDist cols src dst ≤ 2 := by
  unfold fullMeshDist
  split_ifs <;> omega

/-- Rings, meshes, hypercubes and full meshes have the shortest routes. -/
theorem direct_routes :
    (∀ numGpus numLanes, 2 ≤ numGpus → numGpus ≤ 65535 → 1 ≤ numLanes →
      ∃ net, buildRing numGpus numLanes = .ok net ∧ ShortestRoutes net numGpus (ringDist numGpus)) ∧
    (∀ rows cols, 2 ≤ rows * cols → rows * cols ≤ 65535 →
      ∃ net, buildMesh2D rows cols = .ok net ∧ ShortestRoutes net (rows * cols) (meshDist cols)) ∧
    (∀ dimensions, 2 ≤ 2 ^ dimensions → 2 ^ dimensions ≤ 65535 →
      ∃ net, buildHypercube dimensions = .ok net ∧
        ShortestRoutes net (2 ^ dimensions) (hypercubeDist dimensions)) ∧
    ∀ rows cols, 2 ≤ rows * cols → rows * cols ≤ 65535 →
      (∃ net, build2DFullMesh rows cols = .ok net ∧
        ShortestRoutes net (rows * cols) (fullMeshDist cols)) ∧
      ∀ src dst, fullMeshDist cols src dst ≤ 2 := by
  refine ⟨?_, ?_, ?_, ?_⟩
  · intro numGpus numLanes htwo hnodes hlanes
    exact ring_routes htwo hnodes hlanes
  · intro rows cols htwo hnodes
    exact mesh_routes htwo hnodes
  · intro dimensions htwo hnodes
    exact hypercube_routes htwo hnodes
  · intro rows cols htwo hnodes
    exact ⟨fullMesh_routes htwo hnodes, fullMeshDist_le cols⟩

/-- Five nodes with two lanes, two rows of three nodes, and a cube. -/
theorem direct_routes_small :
    (∃ net, buildRing 5 2 = .ok net ∧ ShortestRoutes net 5 (ringDist 5)) ∧
    (∃ net, buildMesh2D 2 3 = .ok net ∧ ShortestRoutes net (2 * 3) (meshDist 3)) ∧
    (∃ net, buildHypercube 3 = .ok net ∧ ShortestRoutes net (2 ^ 3) (hypercubeDist 3)) ∧
    ∃ net, build2DFullMesh 2 3 = .ok net ∧ ShortestRoutes net (2 * 3) (fullMeshDist 3) :=
  ⟨direct_routes.1 5 2 (by decide) (by decide) (by decide), direct_routes.2.1 2 3 (by decide) (by decide),
    direct_routes.2.2.1 3 (by decide) (by decide), (direct_routes.2.2.2 2 3 (by decide) (by decide)).1⟩

end ProtoBridge.Topology
