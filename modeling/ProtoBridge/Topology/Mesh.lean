import Mathlib.Data.Nat.Dist
import ProtoBridge.Lib.Grid
import ProtoBridge.Lib.Word
import ProtoBridge.Topology.Links

/-!
# Meshes

In a mesh a node has links to the next ones of its row and of its column, in a full mesh to all others of
them. A packet goes along the row first.
-/

namespace ProtoBridge.Topology

open Lib

/-- Why a builder gives up. -/
inductive BuildAbort
  | tooFewNodes
  | noDirectNextHop
  deriving DecidableEq

/-- `indexFromCoord`. -/
def indexFromCoord (cols row col : Nat) : Nat := row * cols + col

/-! ## BuildMesh2D -/

/-- The links of `BuildMesh2D`, first the horizontal ones. -/
def meshLinks (rows cols : Nat) : List (Nat × Nat) :=
  ((List.range rows).flatMap fun row => (List.range (cols - 1)).map fun col =>
    (indexFromCoord cols row col, indexFromCoord cols row (col + 1))) ++
  (List.range cols).flatMap fun col => (List.range (rows - 1)).map fun row =>
    (indexFromCoord cols row col, indexFromCoord cols (row + 1) col)

/-- A step to the side of the goal, in 32 bits. -/
def stepToward (src dst : Nat) : Nat := wadd 32 src (if dst > src then 1 else 2 ^ 32 - 1)

/-- The next node of a dimension-order route. -/
def meshNext (cols src dst : Nat) : Nat :=
  if dst % cols ≠ src % cols then
    indexFromCoord cols (src / cols) (stepToward (src % cols) (dst % cols))
  else indexFromCoord cols (stepToward (src / cols) (dst / cols)) (src % cols)

/-- `BuildMesh2D`. -/
def buildMesh2D (rows cols : Nat) : Except BuildAbort Network :=
  if rows * cols < 2 then .error .tooFewNodes
  else .ok (build (rows * cols) (meshLinks rows cols) (meshNext cols))

/-- The Manhattan distance. -/
def meshDist (cols src dst : Nat) : Nat :=
  Nat.dist (src / cols) (dst / cols) + Nat.dist (src % cols) (dst % cols)

variable {rows cols row col row' col' src dst v w : Nat}

theorem exists_coord (hv : v < rows * cols) :
    ∃ row < rows, ∃ col < cols, v = indexFromCoord cols row col := by
  have hcols : 0 < cols := Nat.pos_of_ne_zero fun hzero => by simp [hzero] at hv
  refine ⟨v / cols, Nat.div_lt_of_lt_mul (by rwa [Nat.mul_comm]), v % cols, Nat.mod_lt _ hcols, ?_⟩
  unfold indexFromCoord
  rw [Nat.mul_comm, Nat.div_add_mod]

theorem indexFromCoord_lt (hrow : row < rows) (hcol : col < cols) :
    indexFromCoord cols row col < rows * cols := place_lt hrow hcol

theorem indexFromCoord_inj (hcol : col < cols) (hcol' : col' < cols) :
    indexFromCoord cols row col = indexFromCoord cols row' col' ↔ row = row' ∧ col = col' := by
  constructor
  · intro heq
    have hrow := congrArg (· / cols) heq
    have hmod := congrArg (· % cols) heq
    simp only [indexFromCoord, place_div hcol, place_div hcol', place_mod hcol, place_mod hcol'] at hrow hmod
    exact ⟨hrow, hmod⟩
  · rintro ⟨rfl, rfl⟩
    rfl

theorem meshDist_coord (hcol : col < cols) (hcol' : col' < cols) :
    meshDist cols (indexFromCoord cols row col) (indexFromCoord cols row' col') =
      Nat.dist row row' + Nat.dist col col' := by
  simp only [meshDist, indexFromCoord, place_div hcol, place_div hcol', place_mod hcol, place_mod hcol']

theorem meshNext_coord (hcol : col < cols) (hcol' : col' < cols) :
    meshNext cols (indexFromCoord cols row col) (indexFromCoord cols row' col') =
      if col' ≠ col then indexFromCoord cols row (stepToward col col')
      else indexFromCoord cols (stepToward row row') col := by
  simp only [meshNext, indexFromCoord, place_div hcol, place_div hcol', place_mod hcol, place_mod hcol']

theorem stepToward_cases {a b n : Nat} (hne : b ≠ a) (ha : a < n) (hb : b < n) (hn : n < 2 ^ 32) :
    (stepToward a b = a + 1 ∨ stepToward a b + 1 = a) ∧ stepToward a b < n ∧
      Nat.dist (stepToward a b) b + 1 = Nat.dist a b := by
  unfold stepToward
  split
  · rename_i hup
    rw [wadd_eq (by omega)]
    refine ⟨.inl rfl, by omega, ?_⟩
    unfold Nat.dist
    omega
  · rename_i hdown
    have hback : wadd 32 a (2 ^ 32 - 1) = a - 1 := by
      unfold wadd
      rw [show a + (2 ^ 32 - 1) = a - 1 + 2 ^ 32 by omega, Nat.add_mod_right]
      exact Nat.mod_eq_of_lt (by omega)
    rw [hback]
    refine ⟨.inr (by omega), by omega, ?_⟩
    unfold Nat.dist
    omega

theorem mem_meshLinks {l : Nat × Nat} : l ∈ meshLinks rows cols ↔
    (∃ row < rows, ∃ col, col + 1 < cols ∧
      l = (indexFromCoord cols row col, indexFromCoord cols row (col + 1))) ∨
    ∃ row col, row + 1 < rows ∧ col < cols ∧
      l = (indexFromCoord cols row col, indexFromCoord cols (row + 1) col) := by
  unfold meshLinks
  simp only [List.mem_append, List.mem_flatMap, List.mem_map, List.mem_range]
  constructor
  · rintro (⟨row, hrow, col, hcol, rfl⟩ | ⟨col, hcol, row, hrow, rfl⟩)
    · exact .inl ⟨row, hrow, col, by omega, rfl⟩
    · exact .inr ⟨row, col, by omega, hcol, rfl⟩
  · rintro (⟨row, hrow, col, hcol, rfl⟩ | ⟨row, col, hrow, hcol, rfl⟩)
    · exact .inl ⟨row, hrow, col, by omega, rfl⟩
    · exact .inr ⟨col, hcol, row, by omega, rfl⟩

theorem proper_meshLinks (rows cols : Nat) : Proper (rows * cols) (meshLinks rows cols) := by
  intro l hl
  rcases mem_meshLinks.mp hl with ⟨row, hrow, col, hcol, rfl⟩ | ⟨row, col, hrow, hcol, rfl⟩
  · refine ⟨indexFromCoord_lt hrow (by omega), indexFromCoord_lt hrow hcol, fun heq => ?_⟩
    have := ((indexFromCoord_inj (by omega) hcol).mp heq).2
    omega
  · refine ⟨indexFromCoord_lt (by omega) hcol, indexFromCoord_lt hrow hcol, fun heq => ?_⟩
    have := ((indexFromCoord_inj hcol hcol).mp heq).1
    omega

theorem meshDist_of_mem (hl : (v, w) ∈ meshLinks rows cols) :
    meshDist cols v w = 1 ∧ meshDist cols w v = 1 := by
  rcases mem_meshLinks.mp hl with ⟨row, hrow, col, hcol, heq⟩ | ⟨row, col, hrow, hcol, heq⟩
  · obtain ⟨rfl, rfl⟩ := Prod.mk.inj heq
    rw [meshDist_coord (by omega) hcol, meshDist_coord hcol (by omega)]
    unfold Nat.dist
    omega
  · obtain ⟨rfl, rfl⟩ := Prod.mk.inj heq
    rw [meshDist_coord hcol hcol, meshDist_coord hcol hcol]
    unfold Nat.dist
    omega

theorem length_meshLinks (hnodes : rows * cols ≤ 65535) : (meshLinks rows cols).length < noDevice := by
  have hone : rows * (cols - 1) ≤ rows * cols := Nat.mul_le_mul_left rows (Nat.sub_le _ _)
  have htwo : cols * (rows - 1) ≤ rows * cols := by
    rw [Nat.mul_comm]
    exact Nat.mul_le_mul_right cols (Nat.sub_le _ _)
  unfold meshLinks
  simp only [List.length_append, List.length_flatMap, List.length_map, List.length_range,
    List.map_const', List.sum_replicate, smul_eq_mul]
  unfold noDevice
  omega

theorem linked_row {step : Nat} (hrow : row < rows) (hcol : col < cols) (hstep : step < cols)
    (hside : step = col + 1 ∨ step + 1 = col) :
    Linked (meshLinks rows cols) (indexFromCoord cols row col) (indexFromCoord cols row step) := by
  rcases hside with rfl | rfl
  · exact .inl (mem_meshLinks.mpr (.inl ⟨row, hrow, col, hstep, rfl⟩))
  · exact .inr (mem_meshLinks.mpr (.inl ⟨row, hrow, step, hcol, rfl⟩))

theorem linked_column {step : Nat} (hrow : row < rows) (hcol : col < cols) (hstep : step < rows)
    (hside : step = row + 1 ∨ step + 1 = row) :
    Linked (meshLinks rows cols) (indexFromCoord cols row col) (indexFromCoord cols step col) := by
  rcases hside with rfl | rfl
  · exact .inl (mem_meshLinks.mpr (.inr ⟨row, col, hstep, hcol, rfl⟩))
  · exact .inr (mem_meshLinks.mpr (.inr ⟨step, col, hrow, hcol, rfl⟩))

theorem mesh_routes (htwo : 2 ≤ rows * cols) (hnodes : rows * cols ≤ 65535) :
    ∃ net, buildMesh2D rows cols = .ok net ∧ ShortestRoutes net (rows * cols) (meshDist cols) := by
  have hrows : rows ≤ 65535 := by
    rcases Nat.eq_zero_or_pos cols with rfl | hpos
    · omega
    · exact (Nat.le_mul_of_pos_right rows hpos).trans hnodes
  have hcols : cols ≤ 65535 := by
    rcases Nat.eq_zero_or_pos rows with rfl | hpos
    · omega
    · exact (Nat.le_mul_of_pos_left cols hpos).trans hnodes
  refine ⟨_, if_neg (by omega), ?_⟩
  refine shortestRoutes_build (by omega) (proper_meshLinks rows cols) (length_meshLinks hnodes) ?_ ?_ ?_
  · intro src hsrc dst hdst
    obtain ⟨row, hrow, col, hcol, rfl⟩ := exists_coord hsrc
    obtain ⟨row', hrow', col', hcol', rfl⟩ := exists_coord hdst
    rw [meshDist_coord hcol hcol', indexFromCoord_inj hcol hcol']
    unfold Nat.dist
    omega
  · rintro src - dst - (hmem | hmem)
    · exact (meshDist_of_mem hmem).1
    · exact (meshDist_of_mem hmem).2
  · intro src hsrc dst hdst hne _
    obtain ⟨row, hrow, col, hcol, rfl⟩ := exists_coord hsrc
    obtain ⟨row', hrow', col', hcol', rfl⟩ := exists_coord hdst
    rw [meshNext_coord hcol hcol', meshDist_coord hcol hcol']
    split
    · rename_i hcolumns
      obtain ⟨hside, hstep, hcloser⟩ := stepToward_cases hcolumns hcol hcol' (by omega)
      refine ⟨indexFromCoord_lt hrow hstep, linked_row hrow hcol hstep hside, ?_⟩
      rw [meshDist_coord hstep hcol']
      omega
    · rename_i hsame
      obtain rfl : col' = col := not_not.mp hsame
      have hrows' : row' ≠ row := by
        rintro rfl
        exact hne rfl
      obtain ⟨hside, hstep, hcloser⟩ := stepToward_cases hrows' hrow hrow' (by omega)
      refine ⟨indexFromCoord_lt hstep hcol, linked_column hrow hcol hstep hside, ?_⟩
      rw [meshDist_coord hcol hcol]
      omega

end ProtoBridge.Topology
