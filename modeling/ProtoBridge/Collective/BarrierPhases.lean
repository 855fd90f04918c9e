import ProtoBridge.Collective.FullMesh
import ProtoBridge.Collective.Hierarchical

/-!
# What the phases do

The collectives in phases keep them apart in every run. The hierarchical ones come to their end with
two nodes or more, not with one, where no packet ever closes an inter-node phase. Their
reduce-scatter brings an owner all contributions only where a node has one rank, and the phases that
gather inside a node bring the right shares only where these are all the same.
-/

namespace ProtoBridge.Collective

open Lib

/-- The collectives in phases. -/
inductive PhasedCollective
  | hierarchical (kind : HierarchicalKind) (G : HierarchicalGrid)
  | fullMesh (kind : FullMeshKind) (numGpus dataSize : Nat)

namespace PhasedCollective

def barrier : PhasedCollective → Barrier
  | .hierarchical kind G => kind.barrier G
  | .fullMesh kind numGpus dataSize => kind.barrier numGpus dataSize

/-- There are ranks and data, and a full mesh has two ranks. -/
def Admitted : PhasedCollective → Prop
  | .hierarchical _ G => 1 ≤ G.numNodes ∧ 1 ≤ G.gpusPerNode ∧ 1 ≤ G.dataSize
  | .fullMesh _ numGpus dataSize => 2 ≤ numGpus ∧ 1 ≤ dataSize

instance : ∀ c : PhasedCollective, Decidable c.Admitted
  | .hierarchical _ G => inferInstanceAs (Decidable (1 ≤ G.numNodes ∧ _ ∧ _))
  | .fullMesh _ numGpus _ => inferInstanceAs (Decidable (2 ≤ numGpus ∧ _))

/-- The bytes of all its phases. -/
def volume : PhasedCollective → Nat
  | .hierarchical kind G => G.kindVolume kind
  | .fullMesh kind numGpus dataSize => FullMesh.kindVolume numGpus dataSize kind

theorem balanced (c : PhasedCollective) (hc : c.Admitted) : c.barrier.Balanced := by
  cases c with
  | hierarchical kind G =>
      obtain ⟨hn, hg, hd⟩ := hc
      exact HierarchicalGrid.kind_balanced hn hg hd kind
  | fullMesh kind numGpus dataSize =>
      obtain ⟨hn, hd⟩ := hc
      exact FullMesh.kind_balanced hn hd kind

end PhasedCollective

variable {G : HierarchicalGrid}

/-- A collective rests only when it is completed. -/
def Finishes (c : Barrier) : Prop :=
  (barrierMachine c).Invariant fun σ => σ.Quiet → σ.completed = true

theorem HierarchicalKind.void_barrier (kind : HierarchicalKind) (hd : G.dataSize = 0) :
    (kind.barrier G).void = true := by
  have hvoid : (G.dataSize == 0) = true := by simpa using hd
  cases kind <;> exact hvoid

theorem HierarchicalKind.not_finishes (kind : HierarchicalKind) (hn : G.numNodes = 1)
    (hg : 1 ≤ G.gpusPerNode) (hd : 1 ≤ G.dataSize) : ¬ Finishes (kind.barrier G) := by
  intro hfinishes
  have hb := HierarchicalGrid.kind_balanced (by omega) hg hd kind
  obtain ⟨ph, hph, hsends, hends⟩ := HierarchicalGrid.kind_stuck hn hg hd kind
  have hsilent : ∀ src dst, ph.between src dst = 0 := by
    intro src dst
    rw [Phase.between, hsends]
    rfl
  obtain ⟨τ, hreach, hq, hcompleted⟩ := exists_stuck hb hph hsilent hends
  rw [hfinishes τ hreach hq] at hcompleted
  cases hcompleted

/-- The hierarchical collectives finish exactly where there are two nodes, or no data. -/
theorem hierarchical_finishes_iff (kind : HierarchicalKind) (G : HierarchicalGrid)
    (hn : 1 ≤ G.numNodes) (hg : 1 ≤ G.gpusPerNode) :
    Finishes (kind.barrier G) ↔ 2 ≤ G.numNodes ∨ G.dataSize = 0 := by
  constructor
  · intro hfinishes
    by_contra hnot
    have hone : G.numNodes = 1 := by omega
    exact kind.not_finishes hone hg (by omega) hfinishes
  · rintro (htwo | hzero) σ hreach hq
    · by_cases hzero : G.dataSize = 0
      · exact void_completed_of_quiet (kind.void_barrier hzero) hreach hq
      · exact completed_of_quiet (HierarchicalGrid.kind_balanced hn hg (by omega) kind)
          (HierarchicalGrid.kind_progressive htwo hg kind) hreach hq
    · exact void_completed_of_quiet (kind.void_barrier hzero) hreach hq

theorem hierarchical_finishes_iff_oneNode :
    Finishes (hierarchicalAllGather ⟨1, 4, 8⟩) ↔ 2 ≤ 1 ∨ 8 = 0 :=
  hierarchical_finishes_iff .allGather ⟨1, 4, 8⟩ (by decide) (by decide)

/-- One node of two ranks stalls. -/
theorem not_hierarchical_finishes :
    ¬ ∀ (kind : HierarchicalKind) (G : HierarchicalGrid), 1 ≤ G.numNodes → 1 ≤ G.gpusPerNode →
      Finishes (kind.barrier G) := fun h =>
  (HierarchicalKind.allReduce false).not_finishes (G := ⟨1, 2, 2⟩) rfl (by decide) (by decide)
    (h _ _ (by decide) (by decide))

/-! ## The reduce-scatter -/

/-- A rank is brought the chunks of all ranks at its place by each of the other ranks of its node,
and all chunks are sent to their owners by all other ranks. -/
def HierarchicalReduceScatter.MovesAll (G : HierarchicalGrid) (log : List BarrierObs) : Prop :=
  (∀ m < G.numNodes, ∀ l < G.gpusPerNode,
    ∑ l' ∈ (Finset.range G.gpusPerNode).erase l,
      deliveredOf log 0 (G.getGlobalRank m l') (G.getGlobalRank m l) =
    (G.gpusPerNode - 1) *
      ∑ m' ∈ Finset.range G.numNodes, G.chunkSizeOf (G.getGlobalRank m' l)) ∧
  bytesSent log = (G.numGpus - 1) * G.dataSize

variable {l m : Nat} {ring : Bool} {σ : BarrierRun}

theorem HierarchicalGrid.sum_localPhase (hm : m < G.numNodes) (hl : l < G.gpusPerNode)
    (ring waits : Bool) (share : Nat → Nat) :
    ∑ l' ∈ (Finset.range G.gpusPerNode).erase l,
      (G.localPhase ring waits share).between (G.getGlobalRank m l') (G.getGlobalRank m l) =
    share (G.getGlobalRank m l) * (G.gpusPerNode - 1) := by
  cases ring with
  | false =>
      rw [← HierarchicalGrid.sum_erase_const hl]
      refine Finset.sum_congr rfl fun l' hl' => ?_
      obtain ⟨hne, hlt⟩ := Finset.mem_erase.mp hl'
      rw [HierarchicalGrid.between_local rfl hm (Finset.mem_range.mp hlt) hl, if_pos ⟨rfl, hne⟩]
  | true =>
      obtain ⟨p, hp, hnext, honly⟩ := HierarchicalGrid.exists_prev hl
      by_cases hself : p = l
      -- a ring of one rank
      · have hone : G.gpusPerNode = 1 := by
          by_contra hmore
          subst hself
          rcases Nat.lt_or_eq_of_le (Nat.succ_le_of_lt hp) with hlt | heq
          · rw [Nat.mod_eq_of_lt hlt] at hnext
            omega
          · rw [← heq, Nat.mod_self] at hnext
            omega
        have hzero : l = 0 := by omega
        rw [hone, hzero]
        rfl
      · rw [Finset.sum_eq_single p]
        · rw [HierarchicalGrid.between_next rfl hm hp hl, if_pos ⟨rfl, hnext⟩]
        · intro l' hl' hne
          have hlt := Finset.mem_range.mp (Finset.mem_of_mem_erase hl')
          rw [HierarchicalGrid.between_next rfl hm hlt hl]
          exact if_neg fun heq => hne (honly l' hlt heq.2)
        · exact fun hout => absurd (Finset.mem_erase.mpr ⟨hself, Finset.mem_range.mpr hp⟩) hout

theorem HierarchicalReduceScatter.done_moves (hn : 2 ≤ G.numNodes) (hg : 1 ≤ G.gpusPerNode)
    (hd : 1 ≤ G.dataSize) (h : Done (hierarchicalReduceScatter G ring) σ) :
    (∀ m < G.numNodes, ∀ l < G.gpusPerNode,
      ∑ l' ∈ (Finset.range G.gpusPerNode).erase l,
        deliveredOf σ.log 0 (G.getGlobalRank m l') (G.getGlobalRank m l) =
      G.chunkSizeOf (G.getGlobalRank m l) * (G.gpusPerNode - 1)) ∧
    bytesSent σ.log = (G.gpusPerNode + G.numNodes - 2) * G.dataSize := by
  constructor
  · intro m hm l hl
    rw [← HierarchicalGrid.sum_localPhase hm hl ring true]
    refine Finset.sum_congr rfl fun l' _ => ?_
    exact h.arrived rfl _ _
  · have hb : (hierarchicalReduceScatter G ring).Balanced :=
      HierarchicalGrid.kind_balanced (by omega) hg hd (.reduceScatter ring)
    rw [h.ledger.bytesSent hb, List.take_length]
    exact HierarchicalGrid.kind_volume (by omega) hg (.reduceScatter ring)

/-- Its completed runs move every contribution. -/
def HierarchicalReduceScatter.Moves (G : HierarchicalGrid) (ring : Bool) : Prop :=
  (barrierMachine (hierarchicalReduceScatter G ring)).Invariant fun σ =>
    σ.completed = true → HierarchicalReduceScatter.MovesAll G σ.log

theorem HierarchicalReduceScatter.not_moves (ring : Bool) (hn : 2 ≤ G.numNodes)
    (hg : 2 ≤ G.gpusPerNode) (hd : 1 ≤ G.dataSize) : ¬ HierarchicalReduceScatter.Moves G ring := by
  intro hmoves
  have hb := HierarchicalGrid.kind_balanced (by omega) (by omega) hd (.reduceScatter ring)
  have hp := HierarchicalGrid.kind_progressive hn (by omega) (.reduceScatter ring)
  obtain ⟨τ, hreach, hdone⟩ := exists_done hb hp
  have hsent := (hmoves τ hreach hdone.completed).2
  rw [(HierarchicalReduceScatter.done_moves hn (by omega) hd hdone).2] at hsent
  have hcounts := Nat.eq_of_mul_eq_mul_right hd hsent
  obtain ⟨n, hn'⟩ : ∃ n, G.numNodes = n + 2 := ⟨G.numNodes - 2, by omega⟩
  obtain ⟨g, hg'⟩ : ∃ g, G.gpusPerNode = g + 2 := ⟨G.gpusPerNode - 2, by omega⟩
  rw [HierarchicalGrid.numGpus, hn', hg'] at hcounts
  have hmul : (n + 2) * (g + 2) = n * g + 2 * n + 2 * g + 4 := by ring
  have hpos := Nat.zero_le (n * g)
  omega

/-- The reduce-scatter moves every contribution exactly where a node has one rank. -/
theorem reduceScatter_moves_iff (G : HierarchicalGrid) (ring : Bool) (hn : 2 ≤ G.numNodes)
    (hg : 1 ≤ G.gpusPerNode) (hd : 1 ≤ G.dataSize) :
    HierarchicalReduceScatter.Moves G ring ↔ G.gpusPerNode = 1 := by
  constructor
  · intro hmoves
    by_contra hmore
    exact HierarchicalReduceScatter.not_moves ring hn (by omega) hd hmoves
  · intro hone σ hreach hcompleted
    obtain ⟨stage, hstage⟩ := stage_invariant
      (HierarchicalGrid.kind_balanced (by omega) hg hd (.reduceScatter ring)) σ hreach
    obtain ⟨hlocal, hbytes⟩ :=
      HierarchicalReduceScatter.done_moves hn hg hd (hstage.of_completed hcompleted)
    refine ⟨fun m hm l hl => ?_, ?_⟩
    · rw [hlocal m hm l hl, hone, Nat.sub_self, Nat.mul_zero, Nat.zero_mul]
    · rw [hbytes, HierarchicalGrid.numGpus, hone, Nat.mul_one]
      congr 1
      omega

theorem reduceScatter_moves_iff_oneRank :
    HierarchicalReduceScatter.Moves ⟨2, 1, 15⟩ true ↔ 1 = 1 :=
  reduceScatter_moves_iff ⟨2, 1, 15⟩ true (by decide) (by decide) (by decide)

/-- With 15 bytes on two nodes of two ranks, 30 bytes are sent, not 45. -/
theorem not_reduceScatter_moves :
    ¬ ∀ (G : HierarchicalGrid) (ring : Bool), 2 ≤ G.numNodes → 1 ≤ G.gpusPerNode →
      1 ≤ G.dataSize → HierarchicalReduceScatter.Moves G ring := fun h =>
  HierarchicalReduceScatter.not_moves (G := ⟨2, 2, 15⟩) false (by decide) (by decide) (by decide)
    (h _ _ (by decide) (by decide) (by decide))

/-! ## The gathers -/

/-- The other ranks of its node have each sent a rank their own chunk, each other node has sent it
the chunks of that node, and this is all it was sent. -/
def HierarchicalAllGather.DeliversLacking (G : HierarchicalGrid) (log : List BarrierObs) : Prop :=
  ∀ m < G.numNodes, ∀ l < G.gpusPerNode,
    (∀ l' < G.gpusPerNode, l' ≠ l →
      deliveredOf log 0 (G.getGlobalRank m l') (G.getGlobalRank m l) =
        G.chunkSizeOf (G.getGlobalRank m l')) ∧
    (∀ m' < G.numNodes, m' ≠ m → ∑ l' ∈ Finset.range G.gpusPerNode,
      deliveredOf log 1 (G.getGlobalRank m' l') (G.getGlobalRank m l) = G.nodeChunk m') ∧
    ∑ k ∈ Finset.range 2, ∑ src ∈ Finset.range G.numGpus,
      deliveredOf log k src (G.getGlobalRank m l) =
        G.dataSize - G.chunkSizeOf (G.getGlobalRank m l)

/-- In the last phase the other ranks of its node have each sent a rank their own segment. -/
def HierarchicalAllReduce.DeliversLacking (G : HierarchicalGrid) (log : List BarrierObs) : Prop :=
  ∀ m < G.numNodes, ∀ l < G.gpusPerNode,
    (∀ l' < G.gpusPerNode, l' ≠ l →
      deliveredOf log 3 (G.getGlobalRank m l') (G.getGlobalRank m l) = G.localSegmentOf l') ∧
    ∑ src ∈ Finset.range G.numGpus, deliveredOf log 3 src (G.getGlobalRank m l) =
      G.dataSize - G.localSegmentOf l

/-- The completed runs of the all-gather, and of both kinds of all-reduce, deliver what each rank
lacks. -/
def HierarchicalGrid.Gathers (G : HierarchicalGrid) : Prop :=
  ((barrierMachine (hierarchicalAllGather G)).Invariant fun σ =>
    σ.completed = true → HierarchicalAllGather.DeliversLacking G σ.log) ∧
  ∀ ring, (barrierMachine (hierarchicalAllReduce G ring)).Invariant fun σ =>
    σ.completed = true → HierarchicalAllReduce.DeliversLacking G σ.log

namespace HierarchicalGrid

theorem localSegmentOf_eq_of_dvd (h : G.gpusPerNode ∣ G.dataSize) (l l' : Nat) :
    G.localSegmentOf l = G.localSegmentOf l' := by
  refine portion_eq_iff.mpr ?_
  rw [Nat.mod_eq_zero_of_dvd h]
  exact iff_of_false (Nat.not_lt_zero l) (Nat.not_lt_zero l')

theorem chunkSizeOf_eq_of_dvd (h : G.gpusPerNode ∣ G.dataSize) {m l l' : Nat}
    (hl : l < G.gpusPerNode) (hl' : l' < G.gpusPerNode) :
    G.chunkSizeOf (G.getGlobalRank m l) = G.chunkSizeOf (G.getGlobalRank m l') := by
  refine portion_eq_iff.mpr ?_
  have hmod : G.gpusPerNode ∣ G.dataSize % G.numGpus := (Nat.dvd_mod_iff ⟨_, Nat.mul_comm _ _⟩).mpr h
  obtain ⟨a, ha⟩ := hmod
  have hrow : ∀ i < G.gpusPerNode, G.getGlobalRank m i < G.dataSize % G.numGpus ↔ m < a := by
    intro i hi
    rw [ha, Nat.mul_comm]
    constructor
    · intro hlt
      by_contra hnot
      have := Nat.mul_le_mul_right G.gpusPerNode (Nat.not_lt.mp hnot)
      rw [getGlobalRank] at hlt
      omega
    · intro hlt
      exact place_lt hlt hi
  rw [hrow l hl, hrow l' hl']

theorem dvd_of_chunkSizeOf_eq (hn : 1 ≤ G.numNodes) (hg : 1 ≤ G.gpusPerNode)
    (h : ∀ m < G.numNodes, ∀ l < G.gpusPerNode,
      G.chunkSizeOf (G.getGlobalRank m l) = G.chunkSizeOf (G.getGlobalRank m 0)) :
    G.gpusPerNode ∣ G.dataSize := by
  have hlt : G.dataSize % G.numGpus < G.numGpus := Nat.mod_lt _ (Nat.mul_pos hn hg)
  obtain ⟨m, hm, l, hl, hplace⟩ := place hg hlt
  have heq := portion_eq_iff.mp (h m hm l hl)
  have hl0 : l = 0 := by
    rw [hplace, getGlobalRank, getGlobalRank] at heq
    omega
  have hdvd : G.gpusPerNode ∣ G.dataSize % G.numGpus := by
    rw [hplace, getGlobalRank, hl0, Nat.add_zero]
    exact Nat.dvd_mul_left _ _
  exact (Nat.dvd_mod_iff ⟨_, Nat.mul_comm _ _⟩).mp hdvd

end HierarchicalGrid

theorem HierarchicalAllGather.done_delivers (hn : 1 ≤ G.numNodes) (hg : 1 ≤ G.gpusPerNode)
    (h : Done (hierarchicalAllGather G) σ) (hm : m < G.numNodes) (hl : l < G.gpusPerNode) :
    (∀ l' < G.gpusPerNode, l' ≠ l →
      deliveredOf σ.log 0 (G.getGlobalRank m l') (G.getGlobalRank m l) =
        G.chunkSizeOf (G.getGlobalRank m l)) ∧
    (∀ m' < G.numNodes, m' ≠ m → ∑ l' ∈ Finset.range G.gpusPerNode,
      deliveredOf σ.log 1 (G.getGlobalRank m' l') (G.getGlobalRank m l) = G.nodeChunk m') ∧
    ∑ k ∈ Finset.range 2, ∑ src ∈ Finset.range G.numGpus,
      deliveredOf σ.log k src (G.getGlobalRank m l) =
        G.chunkSizeOf (G.getGlobalRank m l) * (G.gpusPerNode - 1) +
          (G.dataSize - G.nodeChunk m) := by
  have hlocal : ∀ src dst, deliveredOf σ.log 0 src dst =
      (HierarchicalAllGather.localAllGather G).between src dst := h.arrived rfl
  have hinter : ∀ src dst, deliveredOf σ.log 1 src dst =
      (HierarchicalAllGather.interAllGather G).between src dst := h.arrived rfl
  have hrank := HierarchicalGrid.getGlobalRank_lt hm hl
  refine ⟨fun l' hl' hne => ?_, fun m' hm' hne => ?_, ?_⟩
  · rw [hlocal, HierarchicalGrid.between_local rfl hm hl' hl, if_pos ⟨rfl, hne⟩]
  · rw [Finset.sum_eq_single l]
    · rw [hinter, HierarchicalGrid.between_remote rfl hm' hl hm hl, if_pos ⟨hne, rfl⟩,
        HierarchicalGrid.getNodeId_place hl]
    · intro l' hl' hne'
      rw [hinter, HierarchicalGrid.between_remote rfl hm' (Finset.mem_range.mp hl') hm hl]
      exact if_neg fun heq => hne' heq.2
    · exact fun hout => absurd (Finset.mem_range.mpr hl) hout
  · have hremote : G.overRemote (G.getGlobalRank m l) G.nodeChunk = G.dataSize - G.nodeChunk m := by
      have hwhole := HierarchicalGrid.sum_nodeChunk (G := G) hn hg
      rw [← Finset.add_sum_erase _ _ (Finset.mem_range.mpr hm)] at hwhole
      rw [HierarchicalGrid.overRemote_place hl]
      omega
    rw [Finset.sum_range_succ, Finset.sum_range_one]
    congr 1
    · rw [Finset.sum_congr rfl fun src _ => hlocal src _]
      exact (HierarchicalGrid.localPhase_sound hg _ _ _).balanced _ hrank
    · rw [Finset.sum_congr rfl fun src _ => hinter src _, ← hremote]
      exact (HierarchicalGrid.gatherPhase_sound hg _ _ _).balanced _ hrank

theorem HierarchicalAllReduce.done_delivers (hg : 1 ≤ G.gpusPerNode)
    (h : Done (hierarchicalAllReduce G ring) σ) (hm : m < G.numNodes) (hl : l < G.gpusPerNode) :
    (∀ l' < G.gpusPerNode, l' ≠ l →
      deliveredOf σ.log 3 (G.getGlobalRank m l') (G.getGlobalRank m l) = G.localSegmentOf l) ∧
    ∑ src ∈ Finset.range G.numGpus, deliveredOf σ.log 3 src (G.getGlobalRank m l) =
      G.localSegmentOf l * (G.gpusPerNode - 1) := by
  have hlocal : ∀ src dst, deliveredOf σ.log 3 src dst =
      (HierarchicalAllReduce.localAllGather G).between src dst := h.arrived rfl
  refine ⟨fun l' hl' hne => ?_, ?_⟩
  · rw [hlocal, HierarchicalGrid.between_local rfl hm hl' hl, if_pos ⟨rfl, hne⟩]
    show G.localSegmentOf (G.getLocalIdx (G.getGlobalRank m l)) = _
    rw [HierarchicalGrid.getLocalIdx_place hl]
  · have hbalanced := (HierarchicalGrid.localPhase_sound hg false false
      fun gpu => G.localSegmentOf (G.getLocalIdx gpu)).balanced _
        (HierarchicalGrid.getGlobalRank_lt hm hl)
    rw [Finset.sum_congr rfl fun src _ => hlocal src _]
    refine hbalanced.trans ?_
    show G.localSegmentOf (G.getLocalIdx (G.getGlobalRank m l)) * (G.gpusPerNode - 1) = _
    rw [HierarchicalGrid.getLocalIdx_place hl]

theorem HierarchicalGrid.dvd_of_gathers (hn : 2 ≤ G.numNodes) (hg : 1 ≤ G.gpusPerNode)
    (hd : 1 ≤ G.dataSize) (h : G.Gathers) : G.gpusPerNode ∣ G.dataSize := by
  have hb : (hierarchicalAllGather G).Balanced :=
    HierarchicalGrid.kind_balanced (by omega) hg hd .allGather
  obtain ⟨τ, hreach, hdone⟩ :=
    exists_done hb (HierarchicalGrid.kind_progressive hn hg .allGather)
  have hlacking := h.1 τ hreach hdone.completed
  apply HierarchicalGrid.dvd_of_chunkSizeOf_eq (by omega) hg
  intro m hm l hl
  by_cases hzero : l = 0
  · rw [hzero]
  · rw [← (hlacking m hm 0 hg).1 l hl hzero]
    exact (HierarchicalAllGather.done_delivers (by omega) hg hdone hm hg).1 l hl hzero

/-- The gathers deliver what each rank lacks exactly where the ranks of a node divide the data. -/
theorem hierarchical_gathers_iff (G : HierarchicalGrid) (hn : 2 ≤ G.numNodes)
    (hg : 1 ≤ G.gpusPerNode) (hd : 1 ≤ G.dataSize) :
    G.Gathers ↔ G.gpusPerNode ∣ G.dataSize := by
  constructor
  · exact HierarchicalGrid.dvd_of_gathers hn hg hd
  intro hdvd
  constructor
  · intro σ hreach hcompleted m hm l hl
    obtain ⟨stage, hstage⟩ := stage_invariant
      (HierarchicalGrid.kind_balanced (by omega) hg hd .allGather) σ hreach
    obtain ⟨hlocal, hinter, hall⟩ := HierarchicalAllGather.done_delivers (by omega) hg
      (hstage.of_completed hcompleted) hm hl
    have hsame : ∀ l' < G.gpusPerNode,
        G.chunkSizeOf (G.getGlobalRank m l') = G.chunkSizeOf (G.getGlobalRank m l) :=
      fun l' hl' => HierarchicalGrid.chunkSizeOf_eq_of_dvd hdvd hl' hl
    refine ⟨fun l' hl' hne => ?_, hinter, ?_⟩
    · rw [hlocal l' hl' hne, hsame l' hl']
    · have hnode : G.nodeChunk m = G.chunkSizeOf (G.getGlobalRank m l) * G.gpusPerNode := by
        rw [HierarchicalGrid.nodeChunk_eq,
          Finset.sum_congr rfl fun l' hl' => hsame l' (Finset.mem_range.mp hl'), Finset.sum_const,
          Finset.card_range, smul_eq_mul, Nat.mul_comm]
      have hle : G.nodeChunk m ≤ G.dataSize := by
        rw [← HierarchicalGrid.sum_nodeChunk (G := G) (by omega) hg]
        exact Finset.single_le_sum (fun _ _ => Nat.zero_le _) (Finset.mem_range.mpr hm)
      have hsucc : G.chunkSizeOf (G.getGlobalRank m l) * (G.gpusPerNode - 1) +
          G.chunkSizeOf (G.getGlobalRank m l) = G.nodeChunk m := by
        rw [hnode, ← Nat.mul_succ, Nat.succ_eq_add_one, Nat.sub_add_cancel hg]
      rw [hall]
      omega
  · intro ring σ hreach hcompleted m hm l hl
    obtain ⟨stage, hstage⟩ := stage_invariant
      (HierarchicalGrid.kind_balanced (by omega) hg hd (.allReduce ring)) σ hreach
    obtain ⟨hlocal, hall⟩ :=
      HierarchicalAllReduce.done_delivers hg (hstage.of_completed hcompleted) hm hl
    refine ⟨fun l' hl' hne => ?_, ?_⟩
    · rw [hlocal l' hl' hne]
      exact HierarchicalGrid.localSegmentOf_eq_of_dvd hdvd l l'
    · have hwhole : G.localSegmentOf l * G.gpusPerNode = G.dataSize := by
        rw [← HierarchicalGrid.sum_localSegmentOf hg, Finset.sum_congr rfl fun l' _ =>
          HierarchicalGrid.localSegmentOf_eq_of_dvd hdvd l' l, Finset.sum_const, Finset.card_range,
          smul_eq_mul, Nat.mul_comm]
      have hsucc : G.localSegmentOf l * (G.gpusPerNode - 1) + G.localSegmentOf l =
          G.localSegmentOf l * G.gpusPerNode := by
        rw [← Nat.mul_succ, Nat.succ_eq_add_one, Nat.sub_add_cancel hg]
      rw [hall]
      omega

theorem hierarchical_gathers_iff_even :
    HierarchicalGrid.Gathers ⟨2, 2, 6⟩ ↔ 2 ∣ 6 :=
  hierarchical_gathers_iff ⟨2, 2, 6⟩ (by decide) (by decide) (by decide)

/-- An odd amount on nodes of two ranks is not delivered right. -/
theorem not_hierarchical_gathers :
    ¬ ∀ G : HierarchicalGrid, 2 ≤ G.numNodes → 1 ≤ G.gpusPerNode → 1 ≤ G.dataSize →
      G.Gathers := by
  intro h
  have hdvd : 2 ∣ 15 := HierarchicalGrid.dvd_of_gathers (G := ⟨2, 2, 15⟩) (by decide) (by decide)
    (by decide) (h _ (by decide) (by decide) (by decide))
  revert hdvd
  decide

end ProtoBridge.Collective
