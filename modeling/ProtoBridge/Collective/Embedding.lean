import ProtoBridge.Collective.LocalityTree
import ProtoBridge.Lib.GrayCode
import ProtoBridge.Lib.Snake
import ProtoBridge.Lib.Table
import ProtoBridge.Topology.Torus

/-!
# The embedding of the collectives

`InstallCollectiveEmbedding` puts the ranks in an order that follows the topology. From it come the ring,
which goes around the order, and the locality tree.
-/

namespace ProtoBridge.Collective

open Lib Topology

/-- The families with an order of their own; every other one is switched. `2dfullmesh` and `ndfullmesh` are
one. -/
inductive CollectiveFamily
  | hypercube | torus | mesh2d | fullMesh2D | railFatTree | ring | fullMesh | switched
  deriving DecidableEq

/-- What ends the simulation in `InstallCollectiveEmbedding`. -/
inductive EmbeddingAbort
  | railLayout
  deriving DecidableEq

/-- `static_cast<uint16_t>`. -/
def rank16 (rank : Nat) : Nat := rank % 2 ^ 16

/-! ## Orders -/

/-- The serpentine through a torus. -/
def torusOrder (dx dy dz : Nat) : List Nat :=
  (List.range dx).flatMap fun x => (List.range dy).flatMap fun yy =>
    let y := turned x dy yy
    (List.range dz).map fun zz =>
      let z := turned y dz zz
      torusIndex dy dz x y z

/-- The snake through the rows of a mesh, or through those of a full mesh. -/
def meshOrder (r c : Nat) : List Nat :=
  (List.range r).flatMap fun i => (List.range c).map fun jj =>
    let j := turned i c jj
    i * c + j

/-- The enclosures of a leaf. -/
def railSegment (nodesPerLeaf enclosures segment : Nat) : List Nat :=
  let first := segment * nodesPerLeaf
  let last := min (wadd 32 first nodesPerLeaf) enclosures
  List.range' first (last - first)

/-- Rail after rail, and leaf after leaf. -/
def railOrder (rails nodesPerLeaf n : Nat) : List Nat :=
  let enclosures := n / rails
  let leavesPerRail := enclosures / nodesPerLeaf + if enclosures % nodesPerLeaf ≠ 0 then 1 else 0
  (List.range rails).flatMap fun rail => (List.range leavesPerRail).flatMap fun segment =>
    (railSegment nodesPerLeaf enclosures segment).map fun enclosure => enclosure * rails + rail

/-- The ranks, sorted by node. -/
def switchedOrder (nodeId : Nat → UInt32) (n : Nat) : List Nat :=
  (List.range n).mergeSort fun a b => decide (nodeId a < nodeId b ∨ nodeId a = nodeId b ∧ a ≤ b)

/-- The order of a family. -/
def localityOrder (family : CollectiveFamily) (dims : List UInt32) (nodeId : Nat → UInt32) (n : Nat) :
    Except EmbeddingAbort (List Nat) :=
  match family, dims.map UInt32.toNat with
  | .hypercube, _ => .ok ((List.range n).map gray)
  | .torus, dx :: dy :: dz :: _ => .ok (torusOrder dx dy dz)
  | .mesh2d, r :: c :: _ => .ok (meshOrder r c)
  | .fullMesh2D, r :: c :: _ => .ok (meshOrder r c)
  | .fullMesh2D, [r] => .ok (meshOrder r 1)
  | .railFatTree, rails :: nodesPerLeaf :: _ =>
      if rails = 0 ∨ nodesPerLeaf = 0 ∨ n % rails ≠ 0 then .error .railLayout
      else .ok (railOrder rails nodesPerLeaf n)
  | .ring, _ | .fullMesh, _ => .ok (List.range n)
  | _, _ => .ok (switchedOrder nodeId n)

/-- `sortedOrder`, in 16 bits. -/
def sortedOrder (family : CollectiveFamily) (dims : List UInt32) (nodeId : Nat → UInt32) (n : Nat) :
    Except EmbeddingAbort (List Nat) :=
  (localityOrder family dims nodeId n).map fun order => order.map rank16

/-! ## What is installed -/

/-- The neighbors of the endpoints in the collectives, by rank. -/
structure Embedding where
  ring : Nat → Nat × Nat := fun _ => (noRank, noRank)
  tree : TreeTables := TreeTables.bare

namespace Embedding

/-- `GetRingNext`. -/
def getRingNext (e : Embedding) (rank : Nat) : Nat := (e.ring rank).1

/-- `GetRingPrev`. -/
def getRingPrev (e : Embedding) (rank : Nat) : Nat := (e.ring rank).2

end Embedding

/-- What the loop over the positions sets. -/
def ringNeighbors (order : Nat → Nat) (n : Nat) : List (Nat × (Nat × Nat)) :=
  (List.range n).map fun i => (order i, (order ((i + 1) % n), order ((i + n - 1) % n)))

/-- The ring and the tree of an order. -/
def embed (order : List Nat) (n : Nat) : Embedding where
  ring := tableOf (fun _ => (noRank, noRank)) (ringNeighbors (fun i => order.getD i 0) n)
  tree := (buildLocalityTree (fun i => order.getD i 0) 0 n noRank TreeTables.bare).2

/-- `InstallCollectiveEmbedding`. -/
def installCollectiveEmbedding (family : CollectiveFamily) (dims : List UInt32) (nodeId : Nat → UInt32)
    (n : Nat) : Except EmbeddingAbort Embedding :=
  if n < 2 then .ok {}
  else (sortedOrder family dims nodeId n).map fun order => embed order n

/-! ## What is meant -/

/-- The dimensions that the simulator passes for `n` ranks. -/
def Dimensions (n : Nat) : CollectiveFamily → List UInt32 → Prop
  | .hypercube, _ => ∃ k, n = 2 ^ k
  | .torus, dims => ∃ dx dy dz, dims = [dx, dy, dz] ∧ dx.toNat * dy.toNat * dz.toNat = n
  | .mesh2d, dims | .fullMesh2D, dims => ∃ r c, dims = [r, c] ∧ r.toNat * c.toNat = n
  | .railFatTree, dims => ∃ rails nodesPerLeaf, dims = [rails, nodesPerLeaf] ∧ rails.toNat ∣ n ∧
      1 ≤ nodesPerLeaf.toNat
  | .ring, _ | .fullMesh, _ | .switched, _ => True

/-- The ring goes around all ranks and back, and the tree is balanced. -/
structure Consistent (n : Nat) (order : List Nat) (e : Embedding) : Prop where
  perm : order.Perm (List.range n)
  ring : OneCycle n e.getRingNext
  inverse : ∀ rank < n, e.getRingPrev (e.getRingNext rank) = rank ∧ e.getRingNext (e.getRingPrev rank) = rank
  tree : BalancedTree n order e.tree

/-- What the next position of an order has to do with one. -/
def NeighborsInOrder (n : Nat) (order : List Nat) : CollectiveFamily → List UInt32 → Prop
  | .hypercube, _ => ∀ i < n, ∃ bit, order.getD i 0 ^^^ order.getD ((i + 1) % n) 0 = 2 ^ bit
  | .mesh2d, dims => ∀ r c, dims = [r, c] → ∀ i, i + 1 < n →
      meshDist c.toNat (order.getD i 0) (order.getD (i + 1) 0) = 1
  | .fullMesh2D, dims => ∀ r c, dims = [r, c] → ∀ i, i + 1 < n →
      order.getD i 0 / c.toNat = order.getD (i + 1) 0 / c.toNat ∨
        order.getD i 0 % c.toNat = order.getD (i + 1) 0 % c.toNat
  | .torus, _ | .railFatTree, _ | .ring, _ | .fullMesh, _ | .switched, _ => True

variable {n r c dx dy dz rails nodesPerLeaf enclosures i p q : Nat} {order : List Nat}
  {family : CollectiveFamily} {dims : List UInt32}

/-! ## Orders are permutations -/

theorem meshOrder_eq (r c : Nat) : meshOrder r c = (List.range (r * c)).map (snake c) :=
  flatMap_grid (fun i jj => i * c + turned i c jj) r c

theorem meshOrder_perm (r c : Nat) : (meshOrder r c).Perm (List.range (r * c)) := by
  rw [meshOrder_eq]
  exact map_perm_range (fun _ => snake_lt) fun _ hp _ hq => snake_injective hp hq

/-- A torus is a grid of rows, which a snake goes through, each in the direction of its second coordinate. -/
def torusPlace (dy dz p : Nat) : Nat := regrid dz (snake dy) (fun row => turned (row % dy) dz) p

theorem torusOrder_eq (dx dy dz : Nat) :
    torusOrder dx dy dz = (List.range (dx * dy * dz)).map (torusPlace dy dz) := by
  unfold torusOrder
  rw [flatMap_rows, flatMap_grid]
  refine List.map_congr_left fun p hp => ?_
  have hdy : 0 < dy := pos_of_lt_grid (div_lt_rows (List.mem_range.mp hp))
  show torusIndex dy dz (p / dz / dy) (turned (p / dz / dy) dy (p / dz % dy))
      (turned (turned (p / dz / dy) dy (p / dz % dy)) dz (p % dz)) =
    snake dy (p / dz) * dz + turned (snake dy (p / dz) % dy) dz (p % dz)
  rw [snake_mod hdy, torusIndex, ← Nat.add_mul]
  rfl

theorem torusPlace_lt (hp : p < dx * dy * dz) : torusPlace dy dz p < dx * dy * dz :=
  regrid_lt (fun _ => snake_lt) (fun _ _ => turned_lt) hp

theorem torusPlace_injective (hp : p < dx * dy * dz) (hq : q < dx * dy * dz)
    (h : torusPlace dy dz p = torusPlace dy dz q) : p = q := by
  refine regrid_injective ?_ ?_ ?_ hp hq h
  · exact fun _ hm _ hm' => snake_injective hm hm'
  · exact fun _ _ => turned_lt
  · exact fun _ _ hi _ hj => turned_injective hi hj

theorem torusOrder_perm (dx dy dz : Nat) : (torusOrder dx dy dz).Perm (List.range (dx * dy * dz)) := by
  rw [torusOrder_eq]
  exact map_perm_range (fun _ => torusPlace_lt) fun _ hp _ hq => torusPlace_injective hp hq

theorem flatMap_railSegment (hleaf : 0 < nodesPerLeaf) (hwide : nodesPerLeaf < 2 ^ 32)
    (hfew : enclosures ≤ 65535) {m : Nat} (hm : m = 0 ∨ (m - 1) * nodesPerLeaf < enclosures) :
    (List.range m).flatMap (railSegment nodesPerLeaf enclosures) =
      List.range (min (m * nodesPerLeaf) enclosures) := by
  induction m with
  | zero => simp
  | succ m ih =>
      have hstart : m * nodesPerLeaf < enclosures := by simpa using hm
      have hbefore : m = 0 ∨ (m - 1) * nodesPerLeaf < enclosures := by
        refine (Nat.eq_zero_or_pos m).imp_right fun _ => ?_
        exact lt_of_le_of_lt (Nat.mul_le_mul_right _ (Nat.sub_le m 1)) hstart
      -- the sum is below 2^32: behind the first leaf, a leaf is no longer than all enclosures
      have hsum : m * nodesPerLeaf + nodesPerLeaf < 2 ^ 32 := by
        rcases Nat.eq_zero_or_pos m with rfl | hpos
        · omega
        · have hlong := Nat.le_mul_of_pos_left nodesPerLeaf hpos
          omega
      rw [List.range_succ, List.flatMap_append, ih hbefore, List.flatMap_singleton, railSegment,
        wadd_eq hsum, min_eq_left hstart.le, Nat.succ_mul, List.range_eq_range', List.range_eq_range']
      have hsplit : min (m * nodesPerLeaf + nodesPerLeaf) enclosures = m * nodesPerLeaf +
          (min (m * nodesPerLeaf + nodesPerLeaf) enclosures - m * nodesPerLeaf) := by omega
      conv_rhs => rw [hsplit, ← List.range'_append_1, Nat.zero_add]

theorem railOrder_eq (hleaf : 0 < nodesPerLeaf) (hwide : nodesPerLeaf < 2 ^ 32) (hn : n ≤ 65535) :
    railOrder rails nodesPerLeaf n =
      (List.range (rails * (n / rails))).map fun p => p % (n / rails) * rails + p / (n / rails) := by
  have hfew : n / rails ≤ 65535 := (Nat.div_le_self n rails).trans hn
  unfold railOrder
  dsimp only
  generalize n / rails = enclosures at hfew ⊢
  generalize hleaves : enclosures / nodesPerLeaf + (if enclosures % nodesPerLeaf ≠ 0 then 1 else 0) = leaves
  have hsplit := Nat.div_add_mod' enclosures nodesPerLeaf
  have hrest := Nat.mod_lt enclosures hleaf
  have hcover : enclosures ≤ leaves * nodesPerLeaf ∧
      (leaves = 0 ∨ (leaves - 1) * nodesPerLeaf < enclosures) := by
    subst hleaves
    split
    · rename_i hne
      rw [Nat.add_sub_cancel, Nat.succ_mul]
      exact ⟨by omega, .inr (by omega)⟩
    · rw [Nat.add_zero]
      refine ⟨by omega, (Nat.eq_zero_or_pos _).imp_right fun hpos => ?_⟩
      have hless : (enclosures / nodesPerLeaf - 1) * nodesPerLeaf + nodesPerLeaf =
          enclosures / nodesPerLeaf * nodesPerLeaf := by
        rw [← Nat.succ_mul]
        congr 1
        omega
      omega
  have hrail : ∀ rail, ((List.range leaves).flatMap fun segment =>
      (railSegment nodesPerLeaf enclosures segment).map fun enclosure => enclosure * rails + rail) =
        (List.range enclosures).map fun enclosure => enclosure * rails + rail := by
    intro rail
    rw [← List.map_flatMap, flatMap_railSegment hleaf hwide hfew hcover.2, min_eq_right hcover.1]
  simp only [hrail]
  exact flatMap_grid (fun rail enclosure => enclosure * rails + rail) rails enclosures

theorem railOrder_perm (hrails : 0 < rails) (hleaf : 0 < nodesPerLeaf) (hwide : nodesPerLeaf < 2 ^ 32)
    (hdvd : rails ∣ n) (hn : n ≤ 65535) : (railOrder rails nodesPerLeaf n).Perm (List.range n) := by
  obtain ⟨enclosures, rfl⟩ := hdvd
  rw [railOrder_eq hleaf hwide hn, Nat.mul_div_cancel_left _ hrails]
  refine map_perm_range ?_ ?_
  · intro p hp
    rw [Nat.mul_comm rails]
    exact place_lt (Nat.mod_lt p (pos_of_lt_grid hp)) (div_lt_rows hp)
  · intro p hp q hq h
    have hdiv : p / enclosures = q / enclosures := by
      have hmod := congrArg (· % rails) h
      simp only [place_mod (div_lt_rows hp), place_mod (div_lt_rows hq)] at hmod
      exact hmod
    have hmod : p % enclosures = q % enclosures := by
      have hdiv' := congrArg (· / rails) h
      simp only [place_div (div_lt_rows hp), place_div (div_lt_rows hq)] at hdiv'
      exact hdiv'
    rw [← Nat.div_add_mod p enclosures, ← Nat.div_add_mod q enclosures, hdiv, hmod]

theorem localityOrder_perm (hdims : Dimensions n family dims) (htwo : 2 ≤ n) (hn : n ≤ 65535)
    (nodeId : Nat → UInt32) : ∃ order, localityOrder family dims nodeId n = .ok order ∧
      order.Perm (List.range n) := by
  cases family with
  | hypercube =>
      obtain ⟨k, rfl⟩ := hdims
      exact ⟨_, rfl, map_perm_range (fun _ => gray_lt) fun _ _ _ _ => fun heq => gray_injective heq⟩
  | torus =>
      obtain ⟨dx, dy, dz, rfl, rfl⟩ := hdims
      exact ⟨_, rfl, torusOrder_perm _ _ _⟩
  | mesh2d | fullMesh2D =>
      obtain ⟨r, c, rfl, rfl⟩ := hdims
      exact ⟨_, rfl, meshOrder_perm _ _⟩
  | railFatTree =>
      obtain ⟨rails, nodesPerLeaf, rfl, hdvd, hleaf⟩ := hdims
      have hrails : 0 < rails.toNat := Nat.pos_of_dvd_of_pos hdvd (by omega)
      have haccepted : ¬ (rails.toNat = 0 ∨ nodesPerLeaf.toNat = 0 ∨ n % rails.toNat ≠ 0) := by
        rw [Nat.mod_eq_zero_of_dvd hdvd]
        omega
      refine ⟨_, if_neg haccepted, ?_⟩
      exact railOrder_perm hrails hleaf nodesPerLeaf.toNat_lt hdvd hn
  | ring => exact ⟨_, rfl, List.Perm.refl _⟩
  | fullMesh => exact ⟨_, rfl, List.Perm.refl _⟩
  | switched => exact ⟨_, rfl, List.mergeSort_perm _ _⟩

/-! ## The ring -/

theorem map_rank16 (hperm : order.Perm (List.range n)) (hn : n ≤ 65536) : order.map rank16 = order := by
  conv_rhs => rw [← List.map_id order]
  refine List.map_congr_left fun rank hrank => ?_
  have hlt := List.mem_range.mp (hperm.mem_iff.mp hrank)
  exact Nat.mod_eq_of_lt (by omega)

theorem eq_map_getD (hperm : order.Perm (List.range n)) :
    order = (List.range n).map fun i => order.getD i 0 := by
  have hlength : order.length = n := by rw [hperm.length_eq, List.length_range]
  refine List.ext_getElem ?_ fun i hi hi' => ?_
  · rw [List.length_map, List.length_range, hlength]
  · rw [List.getElem_map, List.getElem_range, List.getD_eq_getElem _ _ hi]

theorem getD_lt (hperm : order.Perm (List.range n)) (hi : i < n) : order.getD i 0 < n := by
  have hlength : order.length = n := by rw [hperm.length_eq, List.length_range]
  rw [List.getD_eq_getElem _ _ (by omega)]
  exact List.mem_range.mp (hperm.mem_iff.mp (List.getElem_mem _))

theorem getD_injective (hperm : order.Perm (List.range n)) (hp : p < n) (hq : q < n)
    (h : order.getD p 0 = order.getD q 0) : p = q := by
  have hlength : order.length = n := by rw [hperm.length_eq, List.length_range]
  rw [List.getD_eq_getElem _ _ (by omega), List.getD_eq_getElem _ _ (by omega)] at h
  exact (hperm.nodup_iff.mpr List.nodup_range).getElem_inj_iff.mp h

theorem embed_ring (hperm : order.Perm (List.range n)) (hi : i < n) : (embed order n).ring (order.getD i 0) =
    (order.getD ((i + 1) % n) 0, order.getD ((i + n - 1) % n) 0) := by
  refine tableOf_eq (List.mem_map.mpr ⟨i, List.mem_range.mpr hi, rfl⟩) fun v hv => ?_
  obtain ⟨j, hj, heq⟩ := List.mem_map.mp hv
  rw [Prod.mk.injEq] at heq
  rw [getD_injective hperm (List.mem_range.mp hj) hi heq.1] at heq
  exact heq.2.symm

theorem pred_mod_succ (hi : i < n) : ((i + 1) % n + n - 1) % n = i := by
  rcases Nat.lt_or_ge (i + 1) n with hlt | hge
  · rw [Nat.mod_eq_of_lt hlt, show i + 1 + n - 1 = i + n by omega, Nat.add_mod_right, Nat.mod_eq_of_lt hi]
  · rw [show i + 1 = n by omega, Nat.mod_self, Nat.zero_add, Nat.mod_eq_of_lt (by omega)]
    omega

theorem embed_consistent (hperm : order.Perm (List.range n)) (hpos : 0 < n) (hn : n ≤ 65535) :
    Consistent n order (embed order n) := by
  have hlt : ∀ i < n, order.getD i 0 < n := fun i hi => getD_lt hperm hi
  have hinj : ∀ i < n, ∀ j < n, order.getD i 0 = order.getD j 0 → i = j :=
    fun i hi j hj => getD_injective hperm hi hj
  have hall := exists_of_injective hlt hinj
  have hnext : ∀ i < n, (embed order n).getRingNext (order.getD i 0) = order.getD ((i + 1) % n) 0 :=
    fun i hi => congrArg Prod.fst (embed_ring hperm hi)
  have hprev : ∀ i < n, (embed order n).getRingPrev (order.getD i 0) = order.getD ((i + n - 1) % n) 0 :=
    fun i hi => congrArg Prod.snd (embed_ring hperm hi)
  have hring : OneCycle n (embed order n).getRingNext := (oneCycle_succ hpos).image hlt hall hnext
  have hback : ∀ rank < n, (embed order n).getRingPrev ((embed order n).getRingNext rank) = rank := by
    intro rank hrank
    obtain ⟨i, hi, rfl⟩ := hall rank hrank
    rw [hnext i hi, hprev _ (Nat.mod_lt _ hpos), pred_mod_succ hi]
  refine ⟨hperm, hring, fun rank hrank => ⟨hback rank hrank, ?_⟩, ?_⟩
  · obtain ⟨before, hbefore, rfl⟩ := exists_of_injective hring.lt hring.injective rank hrank
    rw [hback before hbefore]
  · have htree : BalancedTree n ((List.range n).map fun i => order.getD i 0) (embed order n).tree :=
      balancedTree hpos hn hlt hinj
    rwa [← eq_map_getD hperm] at htree

/-! ## Neighbors -/

theorem getD_map_range (f : Nat → Nat) (hi : i < n) : ((List.range n).map f).getD i 0 = f i := by
  rw [List.getD_eq_getElem _ _ (by simpa using hi), List.getElem_map, List.getElem_range]

theorem gray_around (k : Nat) (hi : i < 2 ^ k) (htwo : 2 ≤ 2 ^ k) :
    ∃ bit, gray i ^^^ gray ((i + 1) % 2 ^ k) = 2 ^ bit := by
  rcases Nat.lt_or_ge (i + 1) (2 ^ k) with hlt | hge
  · rw [Nat.mod_eq_of_lt hlt]
    exact gray_succ i
  · cases k with
    | zero => exact absurd htwo (by decide)
    | succ k =>
        refine ⟨k, ?_⟩
        rw [show i + 1 = 2 ^ (k + 1) by omega, Nat.mod_self, show i = 2 ^ (k + 1) - 1 by omega]
        exact gray_last k

theorem localityOrder_neighbors (hdims : Dimensions n family dims) (htwo : 2 ≤ n) {nodeId : Nat → UInt32}
    (horder : localityOrder family dims nodeId n = .ok order) : NeighborsInOrder n order family dims := by
  have hsnake : ∀ r c : Nat, r * c = n → ∀ i, i + 1 < n → 0 < c ∧
      (meshOrder r c).getD i 0 = snake c i ∧ (meshOrder r c).getD (i + 1) 0 = snake c (i + 1) := by
    intro r c hrc i hi
    rw [← hrc] at hi
    rw [meshOrder_eq, getD_map_range _ (Nat.lt_of_succ_lt hi), getD_map_range _ hi]
    exact ⟨pos_of_lt_grid hi, rfl, rfl⟩
  cases family with
  | hypercube =>
      obtain ⟨k, rfl⟩ := hdims
      cases horder
      intro i hi
      rw [getD_map_range _ hi, getD_map_range _ (Nat.mod_lt _ (by omega))]
      exact gray_around k hi htwo
  | mesh2d =>
      obtain ⟨r, c, rfl, hrc⟩ := hdims
      cases horder
      intro r' c' heq i hi
      cases heq
      obtain ⟨hpos, hhere, hnext⟩ := hsnake _ _ hrc i hi
      rw [hhere, hnext, meshDist]
      simp only [Nat.dist]
      rcases snake_succ hpos i with ⟨hrow, hstep⟩ | ⟨hrow, hcol⟩ <;> omega
  | fullMesh2D =>
      obtain ⟨r, c, rfl, hrc⟩ := hdims
      cases horder
      intro r' c' heq i hi
      cases heq
      obtain ⟨hpos, hhere, hnext⟩ := hsnake _ _ hrc i hi
      rw [hhere, hnext]
      rcases snake_succ hpos i with ⟨hrow, -⟩ | ⟨-, hcol⟩
      · exact .inl hrow.symm
      · exact .inr hcol.symm
  | torus => trivial
  | railFatTree => trivial
  | ring => trivial
  | fullMesh => trivial
  | switched => trivial

/-- The embedding of every family that the simulator passes is consistent. -/
theorem embedding_consistent (hdims : Dimensions n family dims) (htwo : 2 ≤ n) (hn : n ≤ 65535)
    (nodeId : Nat → UInt32) : ∃ order e, sortedOrder family dims nodeId n = .ok order ∧
      installCollectiveEmbedding family dims nodeId n = .ok e ∧ Consistent n order e ∧
        NeighborsInOrder n order family dims := by
  obtain ⟨order, horder, hperm⟩ := localityOrder_perm hdims htwo hn nodeId
  have hsorted : sortedOrder family dims nodeId n = .ok order := by
    unfold sortedOrder
    rw [horder]
    exact congrArg Except.ok (map_rank16 hperm (by omega))
  refine ⟨order, embed order n, hsorted, ?_, embed_consistent hperm (by omega) hn,
    localityOrder_neighbors hdims htwo horder⟩
  unfold installCollectiveEmbedding
  rw [if_neg (by omega), hsorted]
  rfl

theorem embedding_consistent_mesh : ∃ order e, sortedOrder .mesh2d [2, 3] (fun _ => 0) 6 = .ok order ∧
    installCollectiveEmbedding .mesh2d [2, 3] (fun _ => 0) 6 = .ok e ∧ Consistent 6 order e ∧
      NeighborsInOrder 6 order .mesh2d [2, 3] :=
  embedding_consistent (show Dimensions 6 .mesh2d [2, 3] from ⟨2, 3, rfl, rfl⟩) (by decide) (by decide) _

/-! ## The serpentine through a torus -/

/-- Two coordinates of a dimension are one step apart, which may go around it. -/
def OneStep (length a b : Nat) : Prop := a ≠ b ∧ ((a + 1) % length = b ∨ (b + 1) % length = a)

/-- Two ranks of a torus differ in one dimension, and there by one step. -/
def TorusNeighbors (dx dy dz v w : Nat) : Prop :=
  OneStep dx (v / (dy * dz)) (w / (dy * dz)) ∧ v / dz % dy = w / dz % dy ∧ v % dz = w % dz ∨
    v / (dy * dz) = w / (dy * dz) ∧ OneStep dy (v / dz % dy) (w / dz % dy) ∧ v % dz = w % dz ∨
    v / (dy * dz) = w / (dy * dz) ∧ v / dz % dy = w / dz % dy ∧ OneStep dz (v % dz) (w % dz)

/-- From each position of an order to the next one it is one hop. -/
def WalksTorus (dx dy dz : Nat) (order : List Nat) : Prop :=
  ∀ i, i + 1 < dx * dy * dz → TorusNeighbors dx dy dz (order.getD i 0) (order.getD (i + 1) 0)

theorem oneStep_of_succ {length a b : Nat} (ha : a < length) (hb : b < length) (h : b = a + 1 ∨ a = b + 1) :
    OneStep length a b := by
  rcases h with rfl | rfl
  · exact ⟨by omega, .inl (Nat.mod_eq_of_lt hb)⟩
  · exact ⟨by omega, .inr (Nat.mod_eq_of_lt ha)⟩

theorem torusPlace_coord (hdy : 0 < dy) (hdz : 0 < dz) (p : Nat) :
    torusPlace dy dz p / (dy * dz) = p / dz / dy ∧ torusPlace dy dz p / dz % dy = snake dy (p / dz) % dy ∧
      torusPlace dy dz p % dz = turned (snake dy (p / dz) % dy) dz (p % dz) := by
  have hdiv : torusPlace dy dz p / dz = snake dy (p / dz) := regrid_div (fun _ => turned_lt) hdz
  refine ⟨?_, ?_, ?_⟩
  · rw [Nat.mul_comm dy, ← Nat.div_div_eq_div_mul, hdiv, snake_div hdy]
  · rw [hdiv]
  · exact regrid_mod (fun _ => turned_lt) hdz

theorem torusNeighbors_of_thin (hthin : dx = 1 ∨ dz = 1) (hp : p + 1 < dx * dy * dz) :
    TorusNeighbors dx dy dz (torusPlace dy dz p) (torusPlace dy dz (p + 1)) := by
  have hdz := pos_of_lt_grid hp
  have hdy : 0 < dy := pos_of_lt_grid (div_lt_rows hp)
  obtain ⟨hx, hy, hz⟩ := torusPlace_coord hdy hdz p
  obtain ⟨hx', hy', hz'⟩ := torusPlace_coord hdy hdz (p + 1)
  have hrow' : (p + 1) / dz / dy < dx := div_lt_rows (div_lt_rows hp)
  rw [TorusNeighbors, hx, hx', hy, hy', hz, hz']
  rcases succ_place hdz p with ⟨hin, hdiv, hmod⟩ | ⟨hend, hdiv, hmod⟩
  · rw [hdiv, hmod]
    exact .inr (.inr ⟨rfl, rfl, oneStep_of_succ (turned_lt (by omega)) (turned_lt hin) (turned_succ hin)⟩)
  · rw [hdiv] at hrow' ⊢
    rw [hmod, show p % dz = dz - 1 by omega]
    have hside := snake_succ hdy (p / dz)
    rw [snake_div hdy, snake_div hdy] at hside
    rcases hside with ⟨hrow, hcol⟩ | ⟨hrow, hcol⟩
    · -- the second coordinate changes, and with it the direction of the row
      refine .inr (.inl ⟨hrow.symm, ?_, (turned_next hdz (by omega)).symm⟩)
      exact oneStep_of_succ (Nat.mod_lt _ hdy) (Nat.mod_lt _ hdy) hcol
    · rcases hthin with rfl | rfl
      · rw [hrow] at hrow'
        exact absurd (Nat.lt_of_succ_lt_succ hrow') (Nat.not_lt_zero _)
      · refine .inl ⟨oneStep_of_succ (by omega) hrow' (.inl hrow), hcol.symm, ?_⟩
        have hzero : ∀ row, turned row 1 0 = 0 := fun row => Nat.lt_one_iff.mp (turned_lt Nat.one_pos)
        rw [hzero, hzero]

theorem not_torusNeighbors (dx : Nat) (hdy : 0 < dy) (hdz : 2 ≤ dz) :
    ¬ TorusNeighbors dx dy dz (torusPlace dy dz (dy * dz - 1)) (torusPlace dy dz (dy * dz)) := by
  have hpos : 0 < dz := by omega
  have hplane : dy * dz - 1 = (dy - 1) * dz + (dz - 1) := by
    have hsplit := Nat.succ_mul (dy - 1) dz
    rw [Nat.succ_eq_add_one, Nat.sub_add_cancel hdy] at hsplit
    omega
  have hrow : (dy * dz - 1) / dz = dy - 1 := by rw [hplane, place_div (by omega)]
  have hplace : (dy * dz - 1) % dz = dz - 1 := by rw [hplane, place_mod (by omega)]
  obtain ⟨hx, hy, hz⟩ := torusPlace_coord hdy hpos (dy * dz - 1)
  obtain ⟨hx', hy', hz'⟩ := torusPlace_coord hdy hpos (dy * dz)
  rw [Nat.mul_div_cancel _ hpos, Nat.div_self hdy] at hx'
  rw [Nat.mul_div_cancel _ hpos, Nat.mul_mod_left] at hz'
  have hfirst : (dy - 1) / dy = 0 := Nat.div_eq_of_lt (by omega)
  rw [hrow, hfirst] at hx
  rw [hrow, hplace] at hz
  -- the second coordinate stays
  have hsame : snake dy dy % dy = snake dy (dy - 1) % dy := by
    rw [snake_mod hdy, snake_mod hdy, Nat.div_self hdy, Nat.mod_self, Nat.div_eq_of_lt (by omega),
      Nat.mod_eq_of_lt (by omega)]
    exact turned_next hdy (by decide)
  rw [hsame] at hz'
  have hother : torusPlace dy dz (dy * dz - 1) % dz ≠ torusPlace dy dz (dy * dz) % dz := by
    rw [hz, hz']
    intro heq
    have := turned_injective (by omega) hpos heq
    omega
  rintro (⟨-, -, hfixed⟩ | ⟨hfixed, -⟩ | ⟨hfixed, -⟩)
  · exact hother hfixed
  · exact absurd (hx.symm.trans (hfixed.trans hx')) Nat.zero_ne_one
  · exact absurd (hx.symm.trans (hfixed.trans hx')) Nat.zero_ne_one

/-- The serpentine goes from neighbor to neighbor exactly if there is one plane, or rows are of one rank. -/
theorem walksTorus_iff (dx dy dz : UInt32) (nodeId : Nat → UInt32) (hdx : 1 ≤ dx.toNat) (hdy : 1 ≤ dy.toNat)
    (hdz : 1 ≤ dz.toNat) (hranks : dx.toNat * dy.toNat * dz.toNat ≤ 65536) :
    (∃ order, sortedOrder .torus [dx, dy, dz] nodeId (dx.toNat * dy.toNat * dz.toNat) = .ok order ∧
      WalksTorus dx.toNat dy.toNat dz.toNat order) ↔ dx.toNat = 1 ∨ dz.toNat = 1 := by
  have hsorted : sortedOrder .torus [dx, dy, dz] nodeId (dx.toNat * dy.toNat * dz.toNat) =
      .ok (torusOrder dx.toNat dy.toNat dz.toNat) :=
    congrArg Except.ok (map_rank16 (torusOrder_perm _ _ _) hranks)
  have hplace : ∀ i < dx.toNat * dy.toNat * dz.toNat,
      (torusOrder dx.toNat dy.toNat dz.toNat).getD i 0 = torusPlace dy.toNat dz.toNat i := by
    intro i hi
    rw [torusOrder_eq, getD_map_range _ hi]
  rw [hsorted]
  constructor
  · rintro ⟨order, horder, hwalks⟩
    cases horder
    by_contra hthick
    have hplanes : dy.toNat * dz.toNat + dy.toNat * dz.toNat ≤ dx.toNat * dy.toNat * dz.toNat := by
      calc dy.toNat * dz.toNat + dy.toNat * dz.toNat = 2 * dy.toNat * dz.toNat := by ring
        _ ≤ dx.toNat * dy.toNat * dz.toNat :=
          Nat.mul_le_mul_right _ (Nat.mul_le_mul_right _ (by omega))
    have hpos : 0 < dy.toNat * dz.toNat := Nat.mul_pos hdy hdz
    have hstep := hwalks (dy.toNat * dz.toNat - 1) (by omega)
    rw [Nat.sub_add_cancel hpos, hplace _ (by omega), hplace _ (by omega)] at hstep
    exact not_torusNeighbors _ hdy (by omega) hstep
  · intro hthin
    refine ⟨_, rfl, fun i hi => ?_⟩
    rw [hplace i (by omega), hplace (i + 1) hi]
    exact torusNeighbors_of_thin hthin hi

theorem walksTorus_iff_cube :
    (∃ order, sortedOrder .torus [2, 2, 2] (fun _ => 0) 8 = .ok order ∧ WalksTorus 2 2 2 order) ↔
      (2 : UInt32).toNat = 1 ∨ (2 : UInt32).toNat = 1 :=
  walksTorus_iff 2 2 2 (fun _ => 0) (by decide) (by decide) (by decide) (by decide)

/-- In a torus of 2 x 1 x 2 the second position has coordinates 0, 0, 1, and the third one 1, 0, 0. -/
theorem not_walksTorus : sortedOrder .torus [2, 1, 2] (fun _ => 0) 4 = .ok [0, 1, 2, 3] ∧
    ¬ WalksTorus 2 1 2 [0, 1, 2, 3] := by
  refine ⟨by decide, fun hwalks => ?_⟩
  rcases hwalks 1 (by decide) with ⟨-, -, hfixed⟩ | ⟨hfixed, -⟩ | ⟨hfixed, -⟩
  · exact absurd hfixed (by decide)
  · exact absurd hfixed (by decide)
  · exact absurd hfixed (by decide)

end ProtoBridge.Collective
