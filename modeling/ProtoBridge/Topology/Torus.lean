import ProtoBridge.Topology.Ring

/-!
# Tori

A node has a link to the next node of each dimension where that one has the larger index. So the last node
of a dimension of three or more has no link to the first one, although the routes go over it.
-/

namespace ProtoBridge.Topology

open Lib

/-- The index of a node, `indexFromCoord`. -/
def torusIndex (dimY dimZ x y z : Nat) : Nat := x * dimY * dimZ + y * dimZ + z

/-- The link between two nodes, if the first one has the smaller index. -/
def torusLink (idx1 idx2 : Nat) : List (Nat × Nat) := if idx1 < idx2 then [(idx1, idx2)] else []

/-- The links of `BuildTorus`, dimension after dimension. -/
def torusLinks (dimX dimY dimZ : Nat) : List (Nat × Nat) :=
  let index := torusIndex dimY dimZ
  ((List.range dimY).flatMap fun y => (List.range dimZ).flatMap fun z => (List.range dimX).flatMap fun x =>
    torusLink (index x y z) (index ((x + 1) % dimX) y z)) ++
  (if dimY > 1 then
    (List.range dimX).flatMap fun x => (List.range dimZ).flatMap fun z => (List.range dimY).flatMap fun y =>
      torusLink (index x y z) (index x ((y + 1) % dimY) z)
  else []) ++
  if dimZ > 1 then
    (List.range dimX).flatMap fun x => (List.range dimY).flatMap fun y => (List.range dimZ).flatMap fun z =>
      torusLink (index x y z) (index x y ((z + 1) % dimZ))
  else []

/-- The next node of a dimension-order route; in a dimension it is the one of a ring. -/
def torusNext (dimX dimY dimZ src dst : Nat) : Nat :=
  let srcX := src / (dimY * dimZ)
  let srcY := src / dimZ % dimY
  let srcZ := src % dimZ
  let dstX := dst / (dimY * dimZ)
  let dstY := dst / dimZ % dimY
  let dstZ := dst % dimZ
  if dstX ≠ srcX then torusIndex dimY dimZ (ringHop dimX srcX dstX) srcY srcZ
  else if dstY ≠ srcY then torusIndex dimY dimZ srcX (ringHop dimY srcY dstY) srcZ
  else torusIndex dimY dimZ srcX srcY (ringHop dimZ srcZ dstZ)

/-- `BuildTorus`. -/
def buildTorus (dimX dimY dimZ : Nat) : Except BuildAbort Network :=
  let numNodes := dimX * dimY * dimZ
  if numNodes < 2 then .error .tooFewNodes
  else .ok (build numNodes (torusLinks dimX dimY dimZ) (torusNext dimX dimY dimZ))

/-- The sum of the distances on the rings of the dimensions. -/
def torusDist (dimX dimY dimZ src dst : Nat) : Nat :=
  ringDist dimX (src / (dimY * dimZ)) (dst / (dimY * dimZ)) +
    ringDist dimY (src / dimZ % dimY) (dst / dimZ % dimY) + ringDist dimZ (src % dimZ) (dst % dimZ)

/-- The torus has exactly the shortest routes. -/
def TorusRoutes (dimX dimY dimZ : Nat) : Prop :=
  ∃ net, buildTorus dimX dimY dimZ = .ok net ∧
    ShortestRoutes net (dimX * dimY * dimZ) (torusDist dimX dimY dimZ)

variable {dimX dimY dimZ src : Nat}

/-! ## Links -/

theorem mem_torusLink {idx1 idx2 : Nat} {l : Nat × Nat} :
    l ∈ torusLink idx1 idx2 ↔ idx1 < idx2 ∧ l = (idx1, idx2) := by
  unfold torusLink
  split
  · rename_i hlt
    rw [List.mem_singleton]
    exact (and_iff_right hlt).symm
  · rename_i hle
    exact iff_of_false List.not_mem_nil fun h => hle h.1

theorem mem_torusLinks {l : Nat × Nat} (hl : l ∈ torusLinks dimX dimY dimZ) :
    ∃ x < dimX, ∃ y < dimY, ∃ z < dimZ, ∃ x' < dimX, ∃ y' < dimY, ∃ z' < dimZ,
      (x' = (x + 1) % dimX ∧ y' = y ∧ z' = z ∨ x' = x ∧ y' = (y + 1) % dimY ∧ z' = z ∨
        x' = x ∧ y' = y ∧ z' = (z + 1) % dimZ) ∧
      torusIndex dimY dimZ x y z < torusIndex dimY dimZ x' y' z' ∧
      l = (torusIndex dimY dimZ x y z, torusIndex dimY dimZ x' y' z') := by
  have hmod : ∀ {a n : Nat}, a < n → (a + 1) % n < n := fun ha => Nat.mod_lt _ (by omega)
  unfold torusLinks at hl
  dsimp only at hl
  rw [List.mem_append, List.mem_append] at hl
  rcases hl with (hX | hY) | hZ
  · simp only [List.mem_flatMap, List.mem_range, mem_torusLink] at hX
    obtain ⟨y, hy, z, hz, x, hx, hup, heq⟩ := hX
    exact ⟨x, hx, y, hy, z, hz, _, hmod hx, y, hy, z, hz, .inl ⟨rfl, rfl, rfl⟩, hup, heq⟩
  · split at hY
    · simp only [List.mem_flatMap, List.mem_range, mem_torusLink] at hY
      obtain ⟨x, hx, z, hz, y, hy, hup, heq⟩ := hY
      exact ⟨x, hx, y, hy, z, hz, x, hx, _, hmod hy, z, hz, .inr (.inl ⟨rfl, rfl, rfl⟩), hup, heq⟩
    · cases hY
  · split at hZ
    · simp only [List.mem_flatMap, List.mem_range, mem_torusLink] at hZ
      obtain ⟨x, hx, y, hy, z, hz, hup, heq⟩ := hZ
      exact ⟨x, hx, y, hy, z, hz, x, hx, y, hy, _, hmod hz, .inr (.inr ⟨rfl, rfl, rfl⟩), hup, heq⟩
    · cases hZ

theorem torusIndex_lt {x y z : Nat} (hx : x < dimX) (hy : y < dimY) (hz : z < dimZ) :
    torusIndex dimY dimZ x y z < dimX * dimY * dimZ := by
  have hplane := place_lt (place_lt hx hy) hz
  rwa [Nat.add_mul] at hplane

theorem proper_torusLinks (dimX dimY dimZ : Nat) :
    Proper (dimX * dimY * dimZ) (torusLinks dimX dimY dimZ) := by
  intro l hl
  obtain ⟨x, hx, y, hy, z, hz, x', hx', y', hy', z', hz', -, hup, rfl⟩ := mem_torusLinks hl
  exact ⟨torusIndex_lt hx hy hz, torusIndex_lt hx' hy' hz', hup.ne⟩

theorem length_torusLinks (hnodes : dimX * dimY * dimZ ≤ 65535) :
    (torusLinks dimX dimY dimZ).length < noDevice := by
  have hone : ∀ idx1 idx2, (torusLink idx1 idx2).length ≤ 1 := by
    intro idx1 idx2
    unfold torusLink
    split
    · exact Nat.le_refl _
    · exact Nat.zero_le _
  -- a loop over three dimensions
  have hloop : ∀ (a b c : Nat) (f : Nat → Nat → Nat → List (Nat × Nat)),
      (∀ i j k, (f i j k).length ≤ 1) →
      ((List.range a).flatMap fun i => (List.range b).flatMap fun j => (List.range c).flatMap (f i j)).length ≤
        a * (b * (c * 1)) := by
    intro a b c f hf
    have houter := length_flatMap_le (l := List.range a) (k := b * (c * 1))
      (f := fun i => (List.range b).flatMap fun j => (List.range c).flatMap (f i j)) ?_
    · rwa [List.length_range] at houter
    · intro i _
      have hmiddle := length_flatMap_le (l := List.range b) (k := c * 1)
        (f := fun j => (List.range c).flatMap (f i j)) ?_
      · rwa [List.length_range] at hmiddle
      · intro j _
        have hinner := length_flatMap_le (l := List.range c) fun k _ => hf i j k
        rwa [List.length_range] at hinner
  have hX := hloop dimY dimZ dimX (fun y z x =>
    torusLink (torusIndex dimY dimZ x y z) (torusIndex dimY dimZ ((x + 1) % dimX) y z)) fun _ _ _ => hone _ _
  have hY := hloop dimX dimZ dimY (fun x z y =>
    torusLink (torusIndex dimY dimZ x y z) (torusIndex dimY dimZ x ((y + 1) % dimY) z)) fun _ _ _ => hone _ _
  have hZ := hloop dimX dimY dimZ (fun x y z =>
    torusLink (torusIndex dimY dimZ x y z) (torusIndex dimY dimZ x y ((z + 1) % dimZ))) fun _ _ _ => hone _ _
  rw [show dimY * (dimZ * (dimX * 1)) = dimX * dimY * dimZ by ring] at hX
  rw [show dimX * (dimZ * (dimY * 1)) = dimX * dimY * dimZ by ring] at hY
  rw [show dimX * (dimY * (dimZ * 1)) = dimX * dimY * dimZ by ring] at hZ
  unfold torusLinks
  dsimp only
  rw [List.length_append, List.length_append]
  have hY' : (if dimY > 1 then (List.range dimX).flatMap fun x => (List.range dimZ).flatMap fun z =>
      (List.range dimY).flatMap fun y => torusLink (torusIndex dimY dimZ x y z)
        (torusIndex dimY dimZ x ((y + 1) % dimY) z) else []).length ≤ dimX * dimY * dimZ := by
    split
    · exact hY
    · exact Nat.zero_le _
  have hZ' : (if dimZ > 1 then (List.range dimX).flatMap fun x => (List.range dimY).flatMap fun y =>
      (List.range dimZ).flatMap fun z => torusLink (torusIndex dimY dimZ x y z)
        (torusIndex dimY dimZ x y ((z + 1) % dimZ)) else []).length ≤ dimX * dimY * dimZ := by
    split
    · exact hZ
    · exact Nat.zero_le _
  unfold noDevice
  omega

/-- Node 0 has links to the next nodes of the three dimensions only. -/
theorem linked_zero (h : Linked (torusLinks dimX dimY dimZ) src 0) :
    src = dimY * dimZ ∨ src = dimZ ∨ src = 1 := by
  rcases h with hmem | hmem
  · -- the index of the second node of a link is the larger one
    obtain ⟨x, -, y, -, z, -, x', -, y', -, z', -, -, hup, heq⟩ := mem_torusLinks hmem
    rw [← (Prod.mk.inj heq).2] at hup
    exact absurd hup (Nat.not_lt_zero _)
  · obtain ⟨x, hx, y, hy, z, hz, x', hx', y', hy', z', hz', hside, hup, heq⟩ := mem_torusLinks hmem
    obtain ⟨hzero, rfl⟩ := Prod.mk.inj heq
    rw [← hzero] at hup
    unfold torusIndex at hzero hup ⊢
    have hzplace : z = 0 := by omega
    have hyplace : y = 0 := by
      have hprod : y * dimZ = 0 := by omega
      exact (Nat.mul_eq_zero.mp hprod).resolve_right (by omega)
    have hxplace : x = 0 := by
      have hprod : x * dimY * dimZ = 0 := by omega
      have hpair := (Nat.mul_eq_zero.mp hprod).resolve_right (by omega)
      exact (Nat.mul_eq_zero.mp hpair).resolve_right (by omega)
    subst hxplace hyplace hzplace
    have hone : ∀ n : Nat, (0 + 1) % n = 1 ∨ n = 1 ∧ (0 + 1) % n = 0 := by
      intro n
      by_cases hn : n = 1
      · exact .inr ⟨hn, by rw [hn]⟩
      · exact .inl (Nat.one_mod_eq_one.mpr hn)
    rcases hside with ⟨rfl, rfl, rfl⟩ | ⟨rfl, rfl, rfl⟩ | ⟨rfl, rfl, rfl⟩
    · rcases hone dimX with hstep | ⟨-, hstep⟩
      · left
        rw [hstep]
        ring
      · rw [hstep] at hup
        omega
    · rcases hone dimY with hstep | ⟨-, hstep⟩
      · right
        left
        rw [hstep]
        ring
      · rw [hstep] at hup
        omega
    · rcases hone dimZ with hstep | ⟨-, hstep⟩
      · right
        right
        rw [hstep]
        ring
      · rw [hstep] at hup
        omega

/-! ## Routes -/

/-- The route from the last node of a ring of three or more to the first goes over the link between them. -/
theorem ringHop_last {n : Nat} (hn : 3 ≤ n) : ringHop n (n - 1) 0 = 0 := by
  unfold ringHop ringDevice
  dsimp only
  rw [if_neg (Nat.not_lt_zero _), if_pos (by omega), Nat.sub_add_cancel (by omega), Nat.mod_self]

/-- A dimension of three or more has a node without an entry for node 0. -/
theorem exists_stuck (htwo : 2 ≤ dimX * dimY * dimZ) (hlarge : ¬ (dimX ≤ 2 ∧ dimY ≤ 2 ∧ dimZ ≤ 2)) :
    ∃ src < dimX * dimY * dimZ, src ≠ 0 ∧ ¬ Linked (torusLinks dimX dimY dimZ) src 0 ∧
      torusNext dimX dimY dimZ src 0 = 0 := by
  have hX : 0 < dimX := Nat.pos_of_ne_zero fun hzero => by simp [hzero] at htwo
  have hY : 0 < dimY := Nat.pos_of_ne_zero fun hzero => by simp [hzero] at htwo
  have hZ : 0 < dimZ := Nat.pos_of_ne_zero fun hzero => by simp [hzero] at htwo
  have hYZ : dimZ ≤ dimY * dimZ := Nat.le_mul_of_pos_left dimZ hY
  have hplane : 0 < dimY * dimZ := by omega
  by_cases hlargeX : 3 ≤ dimX
  · have htwice : 2 * (dimY * dimZ) ≤ (dimX - 1) * (dimY * dimZ) := Nat.mul_le_mul_right _ (by omega)
    refine ⟨(dimX - 1) * (dimY * dimZ), ?_, by omega, ?_, ?_⟩
    · rw [Nat.mul_assoc]
      exact Nat.mul_lt_mul_of_pos_right (by omega) hplane
    · intro hlinked
      rcases linked_zero hlinked with h | h | h
      · omega
      · omega
      · omega
    · have hx : (dimX - 1) * (dimY * dimZ) / (dimY * dimZ) = dimX - 1 := Nat.mul_div_cancel _ hplane
      have hy : (dimX - 1) * (dimY * dimZ) / dimZ % dimY = 0 := by
        rw [← Nat.mul_assoc, Nat.mul_div_cancel _ hZ, Nat.mul_mod_left]
      have hz : (dimX - 1) * (dimY * dimZ) % dimZ = 0 := by
        rw [← Nat.mul_assoc, Nat.mul_mod_left]
      unfold torusNext
      dsimp only
      rw [hx, hy, hz, Nat.zero_div, if_pos (by omega), ringHop_last hlargeX]
      unfold torusIndex
      ring
  · by_cases hlargeY : 3 ≤ dimY
    · have htwice : 2 * dimZ ≤ (dimY - 1) * dimZ := Nat.mul_le_mul_right _ (by omega)
      have hrow : (dimY - 1) * dimZ < dimY * dimZ := Nat.mul_lt_mul_of_pos_right (by omega) hZ
      have hfirst : dimY * dimZ ≤ dimX * dimY * dimZ := by
        rw [Nat.mul_assoc]
        exact Nat.le_mul_of_pos_left _ hX
      refine ⟨(dimY - 1) * dimZ, by omega, by omega, ?_, ?_⟩
      · intro hlinked
        rcases linked_zero hlinked with h | h | h
        · omega
        · omega
        · omega
      · have hx : (dimY - 1) * dimZ / (dimY * dimZ) = 0 := Nat.div_eq_of_lt hrow
        have hy : (dimY - 1) * dimZ / dimZ % dimY = dimY - 1 := by
          rw [Nat.mul_div_cancel _ hZ, Nat.mod_eq_of_lt (by omega)]
        have hz : (dimY - 1) * dimZ % dimZ = 0 := Nat.mul_mod_left _ _
        unfold torusNext
        dsimp only
        rw [hx, hy, hz, Nat.zero_div, if_neg (not_not.mpr rfl), Nat.zero_div, Nat.zero_mod,
          if_pos (by omega), ringHop_last hlargeY]
        unfold torusIndex
        ring
    · have hlargeZ : 3 ≤ dimZ := by omega
      have hfirst : dimY * dimZ ≤ dimX * dimY * dimZ := by
        rw [Nat.mul_assoc]
        exact Nat.le_mul_of_pos_left _ hX
      refine ⟨dimZ - 1, by omega, by omega, ?_, ?_⟩
      · intro hlinked
        rcases linked_zero hlinked with h | h | h
        · omega
        · omega
        · omega
      · have hx : (dimZ - 1) / (dimY * dimZ) = 0 := Nat.div_eq_of_lt (by omega)
        have hy : (dimZ - 1) / dimZ % dimY = 0 := by
          rw [Nat.div_eq_of_lt (by omega), Nat.zero_mod]
        have hz : (dimZ - 1) % dimZ = dimZ - 1 := Nat.mod_eq_of_lt (by omega)
        unfold torusNext
        dsimp only
        rw [hx, hy, hz, Nat.zero_div, if_neg (not_not.mpr rfl), Nat.zero_div, Nat.zero_mod,
          if_neg (not_not.mpr rfl), Nat.zero_mod, ringHop_last hlargeZ]
        unfold torusIndex
        ring

theorem not_torusRoutes (htwo : 2 ≤ dimX * dimY * dimZ) (hnodes : dimX * dimY * dimZ ≤ 65535)
    (hlarge : ¬ (dimX ≤ 2 ∧ dimY ≤ 2 ∧ dimZ ≤ 2)) : ¬ TorusRoutes dimX dimY dimZ := by
  rintro ⟨net, hbuild, hroutes⟩
  obtain ⟨src, hsrc, hne, hapart, hself⟩ := exists_stuck htwo hlarge
  unfold buildTorus at hbuild
  dsimp only at hbuild
  rw [if_neg (by omega)] at hbuild
  cases hbuild
  exact not_shortestRoutes_of_stuck (by omega) (proper_torusLinks dimX dimY dimZ)
    (length_torusLinks hnodes) hsrc (by omega) hne hapart hself hroutes

/-- The distance is zero at the node itself only, one at its neighbors, and one less from the next node, which
is linked. -/
def TorusCloser (dimX dimY dimZ src dst : Nat) : Prop :=
  (torusDist dimX dimY dimZ src dst = 0 ↔ src = dst) ∧
    (Linked (torusLinks dimX dimY dimZ) src dst → torusDist dimX dimY dimZ src dst = 1) ∧
    (src ≠ dst → ¬ Linked (torusLinks dimX dimY dimZ) src dst →
      torusNext dimX dimY dimZ src dst < dimX * dimY * dimZ ∧
      Linked (torusLinks dimX dimY dimZ) src (torusNext dimX dimY dimZ src dst) ∧
      torusDist dimX dimY dimZ (torusNext dimX dimY dimZ src dst) dst + 1 =
        torusDist dimX dimY dimZ src dst)

instance (dimX dimY dimZ src dst : Nat) : Decidable (TorusCloser dimX dimY dimZ src dst) :=
  inferInstanceAs (Decidable (_ ∧ _ ∧ (_ → _ → _ ∧ _ ∧ _)))

theorem torusCloser_of_small : ∀ dimX < 3, ∀ dimY < 3, ∀ dimZ < 3, ∀ src < dimX * dimY * dimZ,
    ∀ dst < dimX * dimY * dimZ, TorusCloser dimX dimY dimZ src dst := by
  decide +kernel

theorem torusRoutes_of_small (htwo : 2 ≤ dimX * dimY * dimZ) (hX : dimX ≤ 2) (hY : dimY ≤ 2)
    (hZ : dimZ ≤ 2) : TorusRoutes dimX dimY dimZ := by
  have hnodes : dimX * dimY * dimZ ≤ 2 * 2 * 2 := Nat.mul_le_mul (Nat.mul_le_mul hX hY) hZ
  have hcloser := torusCloser_of_small dimX (by omega) dimY (by omega) dimZ (by omega)
  refine ⟨_, if_neg (by omega), ?_⟩
  exact shortestRoutes_build (by omega) (proper_torusLinks dimX dimY dimZ) (length_torusLinks (by omega))
    (fun src hsrc dst hdst => (hcloser src hsrc dst hdst).1)
    (fun src hsrc dst hdst => (hcloser src hsrc dst hdst).2.1)
    (fun src hsrc dst hdst => (hcloser src hsrc dst hdst).2.2)

/-- The torus has the shortest routes exactly if no dimension is larger than two. -/
theorem torusRoutes_iff (dimX dimY dimZ : Nat) (htwo : 2 ≤ dimX * dimY * dimZ)
    (hnodes : dimX * dimY * dimZ ≤ 65535) :
    TorusRoutes dimX dimY dimZ ↔ dimX ≤ 2 ∧ dimY ≤ 2 ∧ dimZ ≤ 2 := by
  constructor
  · intro hroutes
    by_contra hlarge
    exact not_torusRoutes htwo hnodes hlarge hroutes
  · rintro ⟨hX, hY, hZ⟩
    exact torusRoutes_of_small htwo hX hY hZ

/-- A cube of eight nodes. -/
theorem torusRoutes_cube : TorusRoutes 2 2 2 :=
  (torusRoutes_iff 2 2 2 (by decide) (by decide)).mpr (by decide)

/-- Three nodes in a row have no routes between the last and the first one. -/
theorem not_torusRoutes_row : ¬ ∀ dimX dimY dimZ, 2 ≤ dimX * dimY * dimZ →
    dimX * dimY * dimZ ≤ 65535 → TorusRoutes dimX dimY dimZ :=
  fun h => not_torusRoutes (by decide) (by decide) (by decide) (h 3 1 1 (by decide) (by decide))

end ProtoBridge.Topology
