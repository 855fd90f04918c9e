import ProtoBridge.Lib.Count
import ProtoBridge.Topology.Mesh

/-!
# Hypercubes

Neighbors differ in one bit. A packet corrects the lowest bit in which it differs from its goal.
-/

namespace ProtoBridge.Topology

open Lib

/-- The links of `BuildHypercube`. -/
def hypercubeLinks (dimensions : Nat) : List (Nat × Nat) :=
  (List.range (1 <<< dimensions)).flatMap fun node => (List.range dimensions).flatMap fun d =>
    let neighbor := node ^^^ (1 <<< d)
    if node < neighbor then [(node, neighbor)] else []

/-- The loop that looks for the lowest bit of a difference. -/
def lowestDim (diff : Nat) : Nat → Nat → Nat
  | 0, d => d
  | rounds + 1, d => if diff &&& (1 <<< d) = 0 then lowestDim diff rounds (d + 1) else d

/-- The next node of a bit-correction route. -/
def hypercubeNext (src dst : Nat) : Nat := src ^^^ (1 <<< lowestDim (src ^^^ dst) 32 0)

/-- `BuildHypercube`. -/
def buildHypercube (dimensions : Nat) : Except BuildAbort Network :=
  let numNodes := 1 <<< dimensions
  if numNodes < 2 then .error .tooFewNodes
  else .ok (build numNodes (hypercubeLinks dimensions) hypercubeNext)

/-- The Hamming distance. -/
def hypercubeDist (dimensions src dst : Nat) : Nat :=
  ((Finset.range dimensions).filter fun d => src.testBit d ≠ dst.testBit d).card

variable {dimensions rounds d src dst v w diff : Nat}

theorem and_shiftLeft_eq_zero : diff &&& (1 <<< d) = 0 ↔ diff.testBit d = false := by
  rw [Nat.one_shiftLeft]
  constructor
  · intro hzero
    have hbit := Nat.testBit_and diff (2 ^ d) d
    rwa [hzero, Nat.zero_testBit, Nat.testBit_two_pow_self, Bool.and_true, eq_comm] at hbit
  · intro hclear
    refine Nat.eq_of_testBit_eq fun i => ?_
    rw [Nat.testBit_and, Nat.testBit_two_pow, Nat.zero_testBit]
    by_cases hi : d = i
    · rw [← hi, hclear, Bool.false_and]
    · rw [decide_eq_false hi, Bool.and_false]

theorem testBit_lowestDim {i : Nat} (hi : diff.testBit i = true) (hfrom : d ≤ i) (hto : i < d + rounds) :
    diff.testBit (lowestDim diff rounds d) = true := by
  induction rounds generalizing d with
  | zero => omega
  | succ rounds ih =>
      unfold lowestDim
      split
      · rename_i hclear
        have hne : d ≠ i := by
          rintro rfl
          rw [and_shiftLeft_eq_zero, hi] at hclear
          cases hclear
        exact ih (by omega) (by omega)
      · rename_i hset
        rw [and_shiftLeft_eq_zero, Bool.not_eq_false] at hset
        exact hset

theorem testBit_flip (v d i : Nat) : (v ^^^ 2 ^ d).testBit i = (v.testBit i ^^ decide (d = i)) := by
  rw [Nat.testBit_xor, Nat.testBit_two_pow]

theorem exists_bit (hv : v < 2 ^ dimensions) (hw : w < 2 ^ dimensions) (hne : v ≠ w) :
    ∃ i < dimensions, v.testBit i ≠ w.testBit i := by
  by_contra! hsame
  refine hne (Nat.eq_of_testBit_eq fun i => ?_)
  by_cases hi : i < dimensions
  · exact hsame i hi
  · have hle := Nat.pow_le_pow_right (by norm_num : 2 > 0) (Nat.not_lt.mp hi)
    rw [Nat.testBit_lt_two_pow (hv.trans_le hle), Nat.testBit_lt_two_pow (hw.trans_le hle)]

theorem hypercubeDist_eq_zero (hv : v < 2 ^ dimensions) (hw : w < 2 ^ dimensions) :
    hypercubeDist dimensions v w = 0 ↔ v = w := by
  unfold hypercubeDist
  rw [Finset.card_eq_zero, Finset.filter_eq_empty_iff]
  constructor
  · intro hnone
    by_contra hne
    obtain ⟨i, hi, hdiff⟩ := exists_bit hv hw hne
    exact hnone (Finset.mem_range.mpr hi) hdiff
  · rintro rfl i - hne
    exact hne rfl

theorem hypercubeDist_flip (hd : d < dimensions) (hdiff : v.testBit d ≠ w.testBit d) :
    hypercubeDist dimensions (v ^^^ 2 ^ d) w + 1 = hypercubeDist dimensions v w := by
  refine (card_filter_insert hd ?_ hdiff ?_).symm
  · rw [testBit_flip, decide_eq_true rfl, Bool.xor_true]
    revert hdiff
    cases v.testBit d <;> cases w.testBit d <;> simp
  · intro i hi
    rw [testBit_flip, decide_eq_false (Ne.symm hi), Bool.xor_false]

theorem mem_hypercubeLinks {l : Nat × Nat} : l ∈ hypercubeLinks dimensions ↔
    ∃ node < 2 ^ dimensions, ∃ d < dimensions, node < node ^^^ 2 ^ d ∧ l = (node, node ^^^ 2 ^ d) := by
  unfold hypercubeLinks
  simp only [Nat.one_shiftLeft, List.mem_flatMap, List.mem_range]
  constructor
  · rintro ⟨node, hnode, d, hd, hmem⟩
    split at hmem
    · rename_i hup
      exact ⟨node, hnode, d, hd, hup, List.mem_singleton.mp hmem⟩
    · cases hmem
  · rintro ⟨node, hnode, d, hd, hup, rfl⟩
    refine ⟨node, hnode, d, hd, ?_⟩
    rw [if_pos hup]
    exact List.mem_singleton.mpr rfl

theorem flip_lt (hv : v < 2 ^ dimensions) (hd : d < dimensions) : v ^^^ 2 ^ d < 2 ^ dimensions :=
  Nat.xor_lt_two_pow hv (Nat.pow_lt_pow_right (by norm_num) hd)

theorem flip_flip (v d : Nat) : v ^^^ 2 ^ d ^^^ 2 ^ d = v := by
  rw [Nat.xor_assoc, Nat.xor_self, Nat.xor_zero]

theorem flip_ne (v d : Nat) : v ^^^ 2 ^ d ≠ v := by
  intro heq
  have hbit := congrArg (fun x => x.testBit d) heq
  rw [testBit_flip, decide_eq_true rfl, Bool.xor_true] at hbit
  exact absurd hbit (by simp)

theorem linked_flip (hv : v < 2 ^ dimensions) (hd : d < dimensions) :
    Linked (hypercubeLinks dimensions) v (v ^^^ 2 ^ d) := by
  rcases Nat.lt_or_gt_of_ne (flip_ne v d) with hdown | hup
  · right
    rw [mem_hypercubeLinks]
    refine ⟨v ^^^ 2 ^ d, flip_lt hv hd, d, hd, ?_, ?_⟩
    · rw [flip_flip]
      exact hdown
    · rw [flip_flip]
  · exact .inl (mem_hypercubeLinks.mpr ⟨v, hv, d, hd, hup, rfl⟩)

theorem hypercubeDist_comm (dimensions v w : Nat) :
    hypercubeDist dimensions v w = hypercubeDist dimensions w v := by
  unfold hypercubeDist
  exact congrArg Finset.card (Finset.filter_congr fun i _ => ne_comm)

theorem hypercubeDist_neighbor (hd : d < dimensions) : hypercubeDist dimensions v (v ^^^ 2 ^ d) = 1 := by
  have hdiff : v.testBit d ≠ (v ^^^ 2 ^ d).testBit d := by
    rw [testBit_flip, decide_eq_true rfl, Bool.xor_true]
    simp
  have hself : hypercubeDist dimensions (v ^^^ 2 ^ d) (v ^^^ 2 ^ d) = 0 := by
    unfold hypercubeDist
    rw [Finset.card_eq_zero, Finset.filter_eq_empty_iff]
    exact fun i _ hne => hne rfl
  rw [← hypercubeDist_flip hd hdiff, hself]

theorem hypercube_routes (htwo : 2 ≤ 2 ^ dimensions) (hnodes : 2 ^ dimensions ≤ 65535) :
    ∃ net, buildHypercube dimensions = .ok net ∧
      ShortestRoutes net (2 ^ dimensions) (hypercubeDist dimensions) := by
  have hdims : dimensions < 16 := by
    by_contra hmany
    have hle := Nat.pow_le_pow_right (by norm_num : 2 > 0) (Nat.not_lt.mp hmany)
    omega
  have hfew : (hypercubeLinks dimensions).length < noDevice := by
    have hone : ∀ node, ∀ d ∈ List.range dimensions,
        (if node < node ^^^ (1 <<< d) then [(node, node ^^^ (1 <<< d))] else []).length ≤ 1 := by
      intro node d _
      split
      · exact Nat.le_refl _
      · exact Nat.zero_le _
    have hall : (hypercubeLinks dimensions).length ≤ 1 <<< dimensions * (dimensions * 1) := by
      have hnodes' := length_flatMap_le (l := List.range (1 <<< dimensions)) (k := dimensions * 1)
        (f := fun node => (List.range dimensions).flatMap fun d =>
          if node < node ^^^ (1 <<< d) then [(node, node ^^^ (1 <<< d))] else []) ?_
      · rwa [List.length_range] at hnodes'
      · intro node _
        have hdims' := length_flatMap_le (hone node)
        rwa [List.length_range] at hdims'
    rw [Nat.one_shiftLeft, Nat.mul_one] at hall
    calc (hypercubeLinks dimensions).length ≤ 2 ^ dimensions * dimensions := hall
      _ ≤ 65535 * 16 := Nat.mul_le_mul hnodes hdims.le
      _ < noDevice := by decide
  refine ⟨build (2 ^ dimensions) (hypercubeLinks dimensions) hypercubeNext, ?_, ?_⟩
  · unfold buildHypercube
    rw [Nat.one_shiftLeft]
    exact if_neg (by omega)
  · refine shortestRoutes_build (by omega) ?_ hfew (fun src hsrc dst hdst => hypercubeDist_eq_zero hsrc hdst)
      ?_ ?_
    · intro l hl
      obtain ⟨node, hnode, d, hd, -, rfl⟩ := mem_hypercubeLinks.mp hl
      exact ⟨hnode, flip_lt hnode hd, (flip_ne node d).symm⟩
    · rintro src hsrc dst hdst (hmem | hmem)
      · obtain ⟨node, hnode, d, hd, -, heq⟩ := mem_hypercubeLinks.mp hmem
        obtain ⟨rfl, rfl⟩ := Prod.mk.inj heq
        exact hypercubeDist_neighbor hd
      · obtain ⟨node, hnode, d, hd, -, heq⟩ := mem_hypercubeLinks.mp hmem
        obtain ⟨rfl, rfl⟩ := Prod.mk.inj heq
        rw [hypercubeDist_comm]
        exact hypercubeDist_neighbor hd
    · intro src hsrc dst hdst hne _
      obtain ⟨i, hi, hdiff⟩ := exists_bit hsrc hdst hne
      have hbit : (src ^^^ dst).testBit i = true := by
        rw [Nat.testBit_xor, Bool.xor_iff_ne]
        exact hdiff
      have hfound := testBit_lowestDim hbit (Nat.zero_le i) (by omega : i < 0 + 32)
      unfold hypercubeNext
      rw [Nat.one_shiftLeft]
      generalize lowestDim (src ^^^ dst) 32 0 = d at hfound
      have hd : d < dimensions := by
        by_contra hlarge
        have hle := Nat.pow_le_pow_right (by norm_num : 2 > 0) (Nat.not_lt.mp hlarge)
        rw [Nat.testBit_lt_two_pow ((Nat.xor_lt_two_pow hsrc hdst).trans_le hle)] at hfound
        cases hfound
      rw [Nat.testBit_xor, Bool.xor_iff_ne] at hfound
      exact ⟨flip_lt hsrc hd, linked_flip hsrc hd, hypercubeDist_flip hd hfound⟩

end ProtoBridge.Topology
