import Mathlib.Algebra.BigOperators.Ring.Finset
import ProtoBridge.Collective.PhaseLoops
import ProtoBridge.Lib.Grid

/-!
# Hierarchical collectives

The ranks stand in nodes. In a local phase a rank sends to those of its node, in an inter-node phase
to those at its place in the other nodes, or to all of them. What is sent to a rank is sized by its
own share of the data in most phases, and by the share of the sender in those that gather across the
nodes.
-/

namespace ProtoBridge.Collective

open Lib
open List (forall_mem_cons forall_mem_nil mem_filter mem_range)
open Finset (card_range filter_ne' sum_comm sum_congr sum_const sum_eq_single sum_filter sum_mul)

/-- The nodes of a collective, the ranks of each, and its data. The ranks are numbered node by
node. -/
structure HierarchicalGrid where
  numNodes : Nat
  gpusPerNode : Nat
  dataSize : Nat

namespace HierarchicalGrid

variable (G : HierarchicalGrid)

def numGpus : Nat := G.numNodes * G.gpusPerNode

def getNodeId (rank : Nat) : Nat := rank / G.gpusPerNode

def getLocalIdx (globalRank : Nat) : Nat := globalRank % G.gpusPerNode

def getGlobalRank (nodeId localIdx : Nat) : Nat := nodeId * G.gpusPerNode + localIdx

/-- `ChunkSizeOf`; `ChunkOf` in the reduce-scatter. -/
def chunkSizeOf (rank : Nat) : Nat := portion G.dataSize G.numGpus rank

def localSegmentOf (localIdx : Nat) : Nat := portion G.dataSize G.gpusPerNode localIdx

def interChunkOf (nodeId localIdx : Nat) : Nat :=
  portion (G.localSegmentOf localIdx) G.numNodes nodeId

/-- The chunks of the ranks of a node. -/
def nodeChunk (nodeId : Nat) : Nat :=
  ((List.range G.gpusPerNode).map fun l => G.chunkSizeOf (G.getGlobalRank nodeId l)).sum

/-! ## Peers -/

/-- The other ranks of its node. -/
def localPeers (gpu : Nat) : List Nat :=
  ((List.range G.gpusPerNode).filter (· ≠ G.getLocalIdx gpu)).map
    (G.getGlobalRank (G.getNodeId gpu))

/-- The next rank of its node. -/
def nextLocal (gpu : Nat) : List Nat :=
  [G.getGlobalRank (G.getNodeId gpu) ((G.getLocalIdx gpu + 1) % G.gpusPerNode)]

/-- The ranks at its place in the other nodes. -/
def remotePeers (gpu : Nat) : List Nat :=
  ((List.range G.numNodes).filter (· ≠ G.getNodeId gpu)).map
    fun node => G.getGlobalRank node (G.getLocalIdx gpu)

/-- All ranks of the other nodes. -/
def remoteRanks (gpu : Nat) : List Nat :=
  (List.range G.numGpus).filter fun rank => G.getNodeId rank ≠ G.getNodeId gpu

/-- A sum over the other nodes. -/
def overRemote (gpu : Nat) (share : Nat → Nat) : Nat :=
  (((List.range G.numNodes).filter (· ≠ G.getNodeId gpu)).map share).sum

/-! ## Phases -/

/-- A phase inside the nodes. A rank is sent its share by each of the others, or all of these by the
one in front of it. -/
def localPhase (ring waits : Bool) (share : Nat → Nat) : Phase where
  sends :=
    if ring then sendsOf G.numGpus G.nextLocal fun _ next => share next * (G.gpusPerNode - 1)
    else sendsOf G.numGpus G.localPeers fun _ peer => share peer
  expected gpu := share gpu * (G.gpusPerNode - 1)
  credited gpu := share gpu == 0
  trivial := G.gpusPerNode ≤ 1
  waits := waits

/-- A phase between the nodes in which a rank is sent its share. -/
def remotePhase (share : Nat → Nat) : Phase where
  sends := sendsOf G.numGpus G.remotePeers fun _ remoteRank => share remoteRank
  expected gpu := share gpu * (G.numNodes - 1)
  credited gpu := share gpu == 0
  waits := true

/-- A phase between the nodes in which a rank sends the share of its node. -/
def gatherPhase (closes waits : Bool) (share : Nat → Nat → Nat) : Phase where
  sends := sendsOf G.numGpus G.remotePeers fun gpu _ =>
    share (G.getNodeId gpu) (G.getLocalIdx gpu)
  expected gpu := G.overRemote gpu fun node => share node (G.getLocalIdx gpu)
  credited gpu := G.overRemote gpu (fun node => share node (G.getLocalIdx gpu)) == 0
  closes := closes
  waits := waits

/-- A hierarchical collective. -/
def hierarchical (phases : List Phase) : Barrier where
  numGpus := G.numGpus
  phases := phases
  void := G.dataSize == 0
  early := true
  checksAll := false
  guarded := true

end HierarchicalGrid

namespace HierarchicalAllReduce

variable (G : HierarchicalGrid)

/-- `StartLocalReduceScatter` and `CheckLocalReduceScatterComplete`. -/
def localReduceScatter (ring : Bool) : Phase :=
  G.localPhase ring true fun gpu => G.localSegmentOf (G.getLocalIdx gpu)

/-- `StartInterNodeReduceScatter` and `CheckInterNodeReduceScatterComplete`. -/
def interReduceScatter : Phase :=
  G.remotePhase fun gpu => G.interChunkOf (G.getNodeId gpu) (G.getLocalIdx gpu)

/-- `StartInterNodeAllGather` and `CheckInterNodeAllGatherComplete`. -/
def interAllGather : Phase := G.gatherPhase true true G.interChunkOf

/-- `StartLocalAllGather` and `CheckLocalAllGatherComplete`. The ring is not used here. -/
def localAllGather : Phase :=
  G.localPhase false false fun gpu => G.localSegmentOf (G.getLocalIdx gpu)

end HierarchicalAllReduce

/-- Only the first phase of the all-reduce knows of the ring. -/
def hierarchicalAllReduce (G : HierarchicalGrid) (ring : Bool) : Barrier :=
  G.hierarchical [HierarchicalAllReduce.localReduceScatter G ring,
    HierarchicalAllReduce.interReduceScatter G, HierarchicalAllReduce.interAllGather G,
    HierarchicalAllReduce.localAllGather G]

namespace HierarchicalAllGather

variable (G : HierarchicalGrid)

/-- `StartLocalAllGather` and `CheckLocalAllGatherComplete`. -/
def localAllGather : Phase := G.localPhase false true G.chunkSizeOf

/-- `StartInterNodeAllGather` and `CheckInterNodeAllGatherComplete`. With one node it does not look
whether all are marked. -/
def interAllGather : Phase := G.gatherPhase (G.numNodes > 1) false fun node _ => G.nodeChunk node

end HierarchicalAllGather

def hierarchicalAllGather (G : HierarchicalGrid) : Barrier :=
  G.hierarchical [HierarchicalAllGather.localAllGather G, HierarchicalAllGather.interAllGather G]

namespace HierarchicalAlltoAll

variable (G : HierarchicalGrid)

/-- `StartLocalAlltoAll` and `CheckLocalAlltoAllComplete`. -/
def localAlltoAll : Phase := G.localPhase false true G.chunkSizeOf

/-- `StartInterNodeAlltoAll` and `CheckInterNodeAlltoAllComplete`. -/
def interAlltoAll : Phase where
  sends := sendsOf G.numGpus G.remoteRanks fun _ remoteRank => G.chunkSizeOf remoteRank
  expected gpu := G.chunkSizeOf gpu * G.gpusPerNode * (G.numNodes - 1)
  credited gpu := G.chunkSizeOf gpu == 0

end HierarchicalAlltoAll

def hierarchicalAlltoAll (G : HierarchicalGrid) : Barrier :=
  G.hierarchical [HierarchicalAlltoAll.localAlltoAll G, HierarchicalAlltoAll.interAlltoAll G]

namespace HierarchicalReduceScatter

variable (G : HierarchicalGrid)

/-- `StartLocalReduceScatter` and `CheckLocalReduceScatterComplete`. With one rank in a node it does
not come to the loops, which would send nothing. -/
def localReduceScatter (ring : Bool) : Phase := G.localPhase ring true G.chunkSizeOf

/-- `StartInterNodeReduceScatter` and `CheckInterNodeReduceScatterComplete`. -/
def interReduceScatter : Phase := G.remotePhase G.chunkSizeOf

end HierarchicalReduceScatter

def hierarchicalReduceScatter (G : HierarchicalGrid) (ring : Bool) : Barrier :=
  G.hierarchical [HierarchicalReduceScatter.localReduceScatter G ring,
    HierarchicalReduceScatter.interReduceScatter G]

/-! ## Places -/

namespace HierarchicalGrid

variable {G : HierarchicalGrid} {m m' l l' : Nat}

theorem place (hg : 0 < G.gpusPerNode) {r : Nat} (hr : r < G.numGpus) :
    ∃ m < G.numNodes, ∃ l < G.gpusPerNode, r = G.getGlobalRank m l := by
  refine ⟨r / G.gpusPerNode, ?_, r % G.gpusPerNode, Nat.mod_lt _ hg, ?_⟩
  · exact Nat.div_lt_of_lt_mul (by rwa [Nat.mul_comm])
  · exact (Nat.div_add_mod' r G.gpusPerNode).symm

theorem getGlobalRank_lt (hm : m < G.numNodes) (hl : l < G.gpusPerNode) :
    G.getGlobalRank m l < G.numGpus := place_lt hm hl

theorem getNodeId_place (hl : l < G.gpusPerNode) : G.getNodeId (G.getGlobalRank m l) = m :=
  place_div hl

theorem getLocalIdx_place (hl : l < G.gpusPerNode) : G.getLocalIdx (G.getGlobalRank m l) = l :=
  place_mod hl

theorem getGlobalRank_inj (hl : l < G.gpusPerNode) (hl' : l' < G.gpusPerNode) :
    G.getGlobalRank m l = G.getGlobalRank m' l' ↔ m = m' ∧ l = l' := by
  constructor
  · intro heq
    have hnode := congrArg G.getNodeId heq
    have hidx := congrArg G.getLocalIdx heq
    rw [getNodeId_place hl, getNodeId_place hl'] at hnode
    rw [getLocalIdx_place hl, getLocalIdx_place hl'] at hidx
    exact ⟨hnode, hidx⟩
  · rintro ⟨rfl, rfl⟩
    rfl

theorem sum_numGpus (G : HierarchicalGrid) (f : Nat → Nat) :
    ∑ r ∈ Finset.range G.numGpus, f r =
      ∑ m ∈ Finset.range G.numNodes, ∑ l ∈ Finset.range G.gpusPerNode, f (G.getGlobalRank m l) :=
  sum_grid f G.numNodes G.gpusPerNode

theorem mem_localPeers (hl : l < G.gpusPerNode) (hl' : l' < G.gpusPerNode) :
    G.getGlobalRank m l ∈ G.localPeers (G.getGlobalRank m' l') ↔ m' = m ∧ l' ≠ l := by
  rw [localPeers, getNodeId_place hl', getLocalIdx_place hl', List.mem_map]
  constructor
  · rintro ⟨i, hi, heq⟩
    simp only [mem_filter, mem_range, decide_eq_true_eq] at hi
    obtain ⟨rfl, rfl⟩ := (getGlobalRank_inj hi.1 hl).mp heq
    exact ⟨rfl, Ne.symm hi.2⟩
  · rintro ⟨rfl, hne⟩
    refine ⟨l, ?_, rfl⟩
    simp only [mem_filter, mem_range, decide_eq_true_eq]
    exact ⟨hl, Ne.symm hne⟩

theorem mem_nextLocal (hl : l < G.gpusPerNode) (hl' : l' < G.gpusPerNode) :
    G.getGlobalRank m l ∈ G.nextLocal (G.getGlobalRank m' l') ↔
      m' = m ∧ (l' + 1) % G.gpusPerNode = l := by
  have hnext : (l' + 1) % G.gpusPerNode < G.gpusPerNode := Nat.mod_lt _ (by omega)
  rw [nextLocal, getNodeId_place hl', getLocalIdx_place hl', List.mem_singleton,
    getGlobalRank_inj hl hnext]
  exact and_congr eq_comm eq_comm

theorem mem_remotePeers (hm : m < G.numNodes) (hl : l < G.gpusPerNode) (hl' : l' < G.gpusPerNode) :
    G.getGlobalRank m l ∈ G.remotePeers (G.getGlobalRank m' l') ↔ m' ≠ m ∧ l' = l := by
  rw [remotePeers, getNodeId_place hl', getLocalIdx_place hl', List.mem_map]
  constructor
  · rintro ⟨i, hi, heq⟩
    simp only [mem_filter, mem_range, decide_eq_true_eq] at hi
    obtain ⟨rfl, rfl⟩ := (getGlobalRank_inj hl' hl).mp heq
    exact ⟨Ne.symm hi.2, rfl⟩
  · rintro ⟨hne, rfl⟩
    refine ⟨m, ?_, rfl⟩
    simp only [mem_filter, mem_range, decide_eq_true_eq]
    exact ⟨hm, Ne.symm hne⟩

theorem mem_remoteRanks (hm : m < G.numNodes) (hl : l < G.gpusPerNode) (hl' : l' < G.gpusPerNode) :
    G.getGlobalRank m l ∈ G.remoteRanks (G.getGlobalRank m' l') ↔ m' ≠ m := by
  simp only [remoteRanks, mem_filter, mem_range, decide_eq_true_eq,
    getNodeId_place hl, getNodeId_place hl', getGlobalRank_lt hm hl, true_and]
  exact ne_comm

/-! ## What a phase sends -/

variable {ph : Phase} {size : Nat → Nat → Nat}

theorem nodup_localPeers (gpu : Nat) : (G.localPeers gpu).Nodup := by
  refine List.Nodup.map ?_ (List.nodup_range.filter _)
  exact fun l l' heq => Nat.add_left_cancel heq

theorem nodup_remotePeers (hg : 0 < G.gpusPerNode) (gpu : Nat) : (G.remotePeers gpu).Nodup := by
  refine List.Nodup.map ?_ (List.nodup_range.filter _)
  exact fun m m' heq => Nat.eq_of_mul_eq_mul_right hg (Nat.add_right_cancel heq)

theorem between_local (hs : ph.sends = sendsOf G.numGpus G.localPeers size)
    (hm' : m' < G.numNodes) (hl' : l' < G.gpusPerNode) (hl : l < G.gpusPerNode) :
    ph.between (G.getGlobalRank m' l') (G.getGlobalRank m l) =
      if m' = m ∧ l' ≠ l then size (G.getGlobalRank m' l') (G.getGlobalRank m l) else 0 := by
  rw [between_sendsOf hs fun gpu _ => nodup_localPeers gpu]
  refine if_congr ?_ rfl rfl
  rw [mem_localPeers hl hl']
  exact and_iff_right (getGlobalRank_lt hm' hl')

theorem between_next (hs : ph.sends = sendsOf G.numGpus G.nextLocal size)
    (hm' : m' < G.numNodes) (hl' : l' < G.gpusPerNode) (hl : l < G.gpusPerNode) :
    ph.between (G.getGlobalRank m' l') (G.getGlobalRank m l) =
      if m' = m ∧ (l' + 1) % G.gpusPerNode = l then
        size (G.getGlobalRank m' l') (G.getGlobalRank m l) else 0 := by
  rw [between_sendsOf hs fun gpu _ => List.nodup_singleton _]
  refine if_congr ?_ rfl rfl
  rw [mem_nextLocal hl hl']
  exact and_iff_right (getGlobalRank_lt hm' hl')

theorem between_remote (hs : ph.sends = sendsOf G.numGpus G.remotePeers size)
    (hm' : m' < G.numNodes) (hl' : l' < G.gpusPerNode) (hm : m < G.numNodes)
    (hl : l < G.gpusPerNode) :
    ph.between (G.getGlobalRank m' l') (G.getGlobalRank m l) =
      if m' ≠ m ∧ l' = l then size (G.getGlobalRank m' l') (G.getGlobalRank m l) else 0 := by
  have hg : 0 < G.gpusPerNode := by omega
  rw [between_sendsOf hs fun gpu _ => nodup_remotePeers hg gpu]
  refine if_congr ?_ rfl rfl
  rw [mem_remotePeers hm hl hl']
  exact and_iff_right (getGlobalRank_lt hm' hl')

theorem between_ranks (hs : ph.sends = sendsOf G.numGpus G.remoteRanks size)
    (hm' : m' < G.numNodes) (hl' : l' < G.gpusPerNode) (hm : m < G.numNodes)
    (hl : l < G.gpusPerNode) :
    ph.between (G.getGlobalRank m' l') (G.getGlobalRank m l) =
      if m' ≠ m then size (G.getGlobalRank m' l') (G.getGlobalRank m l) else 0 := by
  rw [between_sendsOf hs fun gpu _ => List.nodup_range.filter _]
  refine if_congr ?_ rfl rfl
  rw [mem_remoteRanks hm hl hl']
  exact and_iff_right (getGlobalRank_lt hm' hl')

theorem sum_between_local (hs : ph.sends = sendsOf G.numGpus G.localPeers size)
    (hm : m < G.numNodes) (hl : l < G.gpusPerNode) :
    ∑ src ∈ Finset.range G.numGpus, ph.between src (G.getGlobalRank m l) =
      ∑ l' ∈ (Finset.range G.gpusPerNode).erase l,
        size (G.getGlobalRank m l') (G.getGlobalRank m l) := by
  rw [G.sum_numGpus, sum_eq_single m]
  · rw [← filter_ne', sum_filter]
    refine sum_congr rfl fun l' hl' => ?_
    rw [between_local hs hm (Finset.mem_range.mp hl') hl]
    simp only [true_and]
  · intro m' hm' hne
    refine Finset.sum_eq_zero fun l' hl' => ?_
    rw [between_local hs (Finset.mem_range.mp hm') (Finset.mem_range.mp hl') hl]
    exact if_neg fun heq => hne heq.1
  · exact fun hout => absurd (Finset.mem_range.mpr hm) hout

theorem exists_prev {g : Nat} (hl : l < g) :
    ∃ p < g, (p + 1) % g = l ∧ ∀ l' < g, (l' + 1) % g = l → l' = p := by
  have hinj : ∀ a < g, ∀ b < g, (a + 1) % g = l → (b + 1) % g = l → a = b := by
    intro a ha b hb hal hbl
    rcases Nat.lt_or_eq_of_le (Nat.succ_le_of_lt ha) with ha' | ha'
    · rcases Nat.lt_or_eq_of_le (Nat.succ_le_of_lt hb) with hb' | hb'
      · rw [Nat.mod_eq_of_lt ha'] at hal
        rw [Nat.mod_eq_of_lt hb'] at hbl
        omega
      · rw [Nat.mod_eq_of_lt ha'] at hal
        rw [← hb', Nat.mod_self] at hbl
        omega
    · rcases Nat.lt_or_eq_of_le (Nat.succ_le_of_lt hb) with hb' | hb'
      · rw [← ha', Nat.mod_self] at hal
        rw [Nat.mod_eq_of_lt hb'] at hbl
        omega
      · omega
  rcases Nat.eq_zero_or_pos l with rfl | hpos
  · refine ⟨g - 1, by omega, ?_, ?_⟩
    · rw [Nat.sub_add_cancel (by omega), Nat.mod_self]
    · intro l' hl' heq
      refine hinj l' hl' (g - 1) (by omega) heq ?_
      rw [Nat.sub_add_cancel (by omega), Nat.mod_self]
  · have hback : (l - 1 + 1) % g = l := by
      rw [Nat.sub_add_cancel hpos, Nat.mod_eq_of_lt hl]
    exact ⟨l - 1, by omega, hback, fun l' hl' heq => hinj l' hl' (l - 1) (by omega) heq hback⟩

theorem sum_between_next {share : Nat → Nat}
    (hs : ph.sends = sendsOf G.numGpus G.nextLocal fun _ next => share next)
    (hm : m < G.numNodes) (hl : l < G.gpusPerNode) :
    ∑ src ∈ Finset.range G.numGpus, ph.between src (G.getGlobalRank m l) =
      share (G.getGlobalRank m l) := by
  obtain ⟨p, hp, hnext, honly⟩ := exists_prev hl
  rw [G.sum_numGpus, sum_eq_single m, sum_eq_single p]
  · rw [between_next hs hm hp hl, if_pos ⟨rfl, hnext⟩]
  · intro l' hl' hne
    rw [between_next hs hm (Finset.mem_range.mp hl') hl]
    exact if_neg fun heq => hne (honly l' (Finset.mem_range.mp hl') heq.2)
  · exact fun hout => absurd (Finset.mem_range.mpr hp) hout
  · intro m' hm' hne
    refine Finset.sum_eq_zero fun l' hl' => ?_
    rw [between_next hs (Finset.mem_range.mp hm') (Finset.mem_range.mp hl') hl]
    exact if_neg fun heq => hne heq.1
  · exact fun hout => absurd (Finset.mem_range.mpr hm) hout

theorem sum_between_remote (hs : ph.sends = sendsOf G.numGpus G.remotePeers size)
    (hm : m < G.numNodes) (hl : l < G.gpusPerNode) :
    ∑ src ∈ Finset.range G.numGpus, ph.between src (G.getGlobalRank m l) =
      ∑ m' ∈ (Finset.range G.numNodes).erase m,
        size (G.getGlobalRank m' l) (G.getGlobalRank m l) := by
  rw [G.sum_numGpus, ← filter_ne', sum_filter]
  refine sum_congr rfl fun m' hm' => ?_
  rw [sum_eq_single l]
  · rw [between_remote hs (Finset.mem_range.mp hm') hl hm hl]
    simp only [and_true]
  · intro l' hl' hne
    rw [between_remote hs (Finset.mem_range.mp hm') (Finset.mem_range.mp hl') hm hl]
    exact if_neg fun heq => hne heq.2
  · exact fun hout => absurd (Finset.mem_range.mpr hl) hout

theorem sum_between_ranks (hs : ph.sends = sendsOf G.numGpus G.remoteRanks size)
    (hm : m < G.numNodes) (hl : l < G.gpusPerNode) :
    ∑ src ∈ Finset.range G.numGpus, ph.between src (G.getGlobalRank m l) =
      ∑ m' ∈ (Finset.range G.numNodes).erase m, ∑ l' ∈ Finset.range G.gpusPerNode,
        size (G.getGlobalRank m' l') (G.getGlobalRank m l) := by
  rw [G.sum_numGpus, ← filter_ne', sum_filter]
  refine sum_congr rfl fun m' hm' => ?_
  by_cases hne : m' ≠ m
  · rw [if_pos hne]
    refine sum_congr rfl fun l' hl' => ?_
    rw [between_ranks hs (Finset.mem_range.mp hm') (Finset.mem_range.mp hl') hm hl, if_pos hne]
  · rw [if_neg hne]
    refine Finset.sum_eq_zero fun l' hl' => ?_
    rw [between_ranks hs (Finset.mem_range.mp hm') (Finset.mem_range.mp hl') hm hl, if_neg hne]

/-! ## The phases are sound -/

theorem sum_erase_const {n a : Nat} (ha : a < n) (x : Nat) :
    ∑ _i ∈ (Finset.range n).erase a, x = x * (n - 1) := by
  rw [sum_const, Finset.card_erase_of_mem (Finset.mem_range.mpr ha), card_range,
    smul_eq_mul, Nat.mul_comm]

theorem overRemote_place (hl : l < G.gpusPerNode) (share : Nat → Nat) :
    G.overRemote (G.getGlobalRank m l) share =
      ∑ m' ∈ (Finset.range G.numNodes).erase m, share m' := by
  rw [overRemote, getNodeId_place hl, ← filter_ne']
  rfl

theorem nodeChunk_eq (G : HierarchicalGrid) (m : Nat) :
    G.nodeChunk m = ∑ l ∈ Finset.range G.gpusPerNode, G.chunkSizeOf (G.getGlobalRank m l) := rfl

theorem mem_localPeers_lt (hg : 0 < G.gpusPerNode) {gpu peer : Nat} (hgpu : gpu < G.numGpus)
    (h : peer ∈ G.localPeers gpu) : peer < G.numGpus := by
  obtain ⟨m, hm, l, hl, rfl⟩ := place hg hgpu
  rw [localPeers, getNodeId_place hl, List.mem_map] at h
  obtain ⟨i, hi, rfl⟩ := h
  exact getGlobalRank_lt hm (List.mem_range.mp (List.mem_filter.mp hi).1)

theorem mem_nextLocal_lt (hg : 0 < G.gpusPerNode) {gpu peer : Nat} (hgpu : gpu < G.numGpus)
    (h : peer ∈ G.nextLocal gpu) : peer < G.numGpus := by
  obtain ⟨m, hm, l, hl, rfl⟩ := place hg hgpu
  rw [nextLocal, getNodeId_place hl, List.mem_singleton] at h
  rw [h]
  exact getGlobalRank_lt hm (Nat.mod_lt _ hg)

theorem mem_remotePeers_lt (hg : 0 < G.gpusPerNode) {gpu peer : Nat}
    (h : peer ∈ G.remotePeers gpu) : peer < G.numGpus := by
  obtain ⟨node, hnode, rfl⟩ := List.mem_map.mp h
  exact getGlobalRank_lt (List.mem_range.mp (List.mem_filter.mp hnode).1) (Nat.mod_lt gpu hg)

theorem mem_remoteRanks_lt {gpu peer : Nat} (h : peer ∈ G.remoteRanks gpu) : peer < G.numGpus :=
  List.mem_range.mp (List.mem_filter.mp h).1

theorem localPhase_sound (hg : 0 < G.gpusPerNode) (ring waits : Bool) (share : Nat → Nat) :
    (G.localPhase ring waits share).Sound G.numGpus where
  placed t ht := by
    cases ring with
    | true => exact placed_sendsOf (fun gpu hgpu peer hpeer => mem_nextLocal_lt hg hgpu hpeer) ht
    | false => exact placed_sendsOf (fun gpu hgpu peer hpeer => mem_localPeers_lt hg hgpu hpeer) ht
  balanced r hr := by
    obtain ⟨m, hm, l, hl, rfl⟩ := place hg hr
    cases ring with
    | true => exact sum_between_next rfl hm hl
    | false =>
        rw [sum_between_local rfl hm hl]
        exact sum_erase_const hl _
  credited r _ h := by
    have hzero : share r = 0 := by simpa [localPhase] using h
    show share r * (G.gpusPerNode - 1) = 0
    rw [hzero, Nat.zero_mul]
  trivial h r _ := by
    have hone : G.gpusPerNode ≤ 1 := by simpa [localPhase] using h
    show share r * (G.gpusPerNode - 1) = 0
    rw [Nat.sub_eq_zero_of_le hone, Nat.mul_zero]

theorem remotePhase_sound (hg : 0 < G.gpusPerNode) (share : Nat → Nat) :
    (G.remotePhase share).Sound G.numGpus where
  placed t ht := placed_sendsOf (fun gpu _ peer hpeer => mem_remotePeers_lt hg hpeer) ht
  balanced r hr := by
    obtain ⟨m, hm, l, hl, rfl⟩ := place hg hr
    rw [sum_between_remote rfl hm hl]
    exact sum_erase_const hm _
  credited r _ h := by
    have hzero : share r = 0 := by simpa [remotePhase] using h
    show share r * (G.numNodes - 1) = 0
    rw [hzero, Nat.zero_mul]
  trivial h := by cases h

theorem gatherPhase_sound (hg : 0 < G.gpusPerNode) (closes waits : Bool)
    (share : Nat → Nat → Nat) : (G.gatherPhase closes waits share).Sound G.numGpus where
  placed t ht := placed_sendsOf (fun gpu _ peer hpeer => mem_remotePeers_lt hg hpeer) ht
  balanced r hr := by
    obtain ⟨m, hm, l, hl, rfl⟩ := place hg hr
    rw [sum_between_remote rfl hm hl]
    show _ = G.overRemote (G.getGlobalRank m l)
      fun node => share node (G.getLocalIdx (G.getGlobalRank m l))
    rw [overRemote_place hl, getLocalIdx_place hl]
    refine sum_congr rfl fun m' _ => ?_
    rw [getNodeId_place hl, getLocalIdx_place hl]
  credited r _ h := by simpa [gatherPhase] using h
  trivial h := by cases h

theorem interAlltoAll_sound (hg : 0 < G.gpusPerNode) :
    (HierarchicalAlltoAll.interAlltoAll G).Sound G.numGpus where
  placed t ht := placed_sendsOf (fun gpu _ peer hpeer => mem_remoteRanks_lt hpeer) ht
  balanced r hr := by
    obtain ⟨m, hm, l, hl, rfl⟩ := place hg hr
    rw [sum_between_ranks rfl hm hl]
    show _ = G.chunkSizeOf (G.getGlobalRank m l) * G.gpusPerNode * (G.numNodes - 1)
    rw [← sum_erase_const hm]
    refine sum_congr rfl fun m' _ => ?_
    rw [sum_const, card_range, smul_eq_mul, Nat.mul_comm]
  credited r _ h := by
    have hzero : G.chunkSizeOf r = 0 := by simpa [HierarchicalAlltoAll.interAlltoAll] using h
    show G.chunkSizeOf r * G.gpusPerNode * (G.numNodes - 1) = 0
    rw [hzero, Nat.zero_mul, Nat.zero_mul]
  trivial h := by cases h

end HierarchicalGrid

/-! ## The collectives -/

/-- The hierarchical collectives; in two of them the local reduce-scatter may be a ring. -/
inductive HierarchicalKind
  | allReduce (ring : Bool)
  | allGather
  | alltoAll
  | reduceScatter (ring : Bool)
  deriving DecidableEq

def HierarchicalKind.barrier (G : HierarchicalGrid) : HierarchicalKind → Barrier
  | .allReduce ring => hierarchicalAllReduce G ring
  | .allGather => hierarchicalAllGather G
  | .alltoAll => hierarchicalAlltoAll G
  | .reduceScatter ring => hierarchicalReduceScatter G ring

namespace HierarchicalGrid

variable {G : HierarchicalGrid}

theorem hierarchical_balanced (hn : 0 < G.numNodes) (hg : 0 < G.gpusPerNode)
    (hd : 0 < G.dataSize) {phases : List Phase} (hne : phases ≠ [])
    (hsound : ∀ ph ∈ phases, ph.Sound G.numGpus) (hwaits : ∀ ph ∈ phases.dropLast, ph.waits = true) :
    (G.hierarchical phases).Balanced where
  void := by simpa [hierarchical] using Nat.ne_of_gt hd
  ranks := Nat.mul_pos hn hg
  nonempty := List.length_pos_iff.mpr hne
  placed ph hph := (hsound ph hph).placed
  balanced ph hph := (hsound ph hph).balanced
  credited ph hph := (hsound ph hph).credited
  trivial ph hph := (hsound ph hph).trivial
  closes h := by cases h
  staged _ k ph hk hnot := by
    obtain ⟨hlt, hget⟩ := List.getElem?_eq_some_iff.mp hk
    by_contra hlast
    have hlt' : k < phases.dropLast.length := by
      rw [List.length_dropLast]
      have hlt' : k < phases.length := hlt
      have hlast' : ¬ k + 1 = phases.length := hlast
      omega
    have hmem := hwaits _ (List.getElem_mem hlt')
    rw [List.getElem_dropLast] at hmem
    have hfalse : true = false := hmem.symm.trans ((congrArg Phase.waits hget).trans hnot)
    cases hfalse

theorem kind_balanced (hn : 0 < G.numNodes) (hg : 0 < G.gpusPerNode) (hd : 0 < G.dataSize)
    (kind : HierarchicalKind) : (kind.barrier G).Balanced := by
  cases kind with
  | allReduce ring =>
      refine hierarchical_balanced hn hg hd (List.cons_ne_nil _ _) ?_ ?_
      · simp only [forall_mem_cons]
        exact ⟨localPhase_sound hg _ _ _, remotePhase_sound hg _, gatherPhase_sound hg _ _ _,
          localPhase_sound hg _ _ _, forall_mem_nil _⟩
      · simp only [List.dropLast, forall_mem_cons]
        exact ⟨rfl, rfl, rfl, forall_mem_nil _⟩
  | allGather =>
      refine hierarchical_balanced hn hg hd (List.cons_ne_nil _ _) ?_ ?_
      · simp only [forall_mem_cons]
        exact ⟨localPhase_sound hg _ _ _, gatherPhase_sound hg _ _ _, forall_mem_nil _⟩
      · simp only [List.dropLast, forall_mem_cons]
        exact ⟨rfl, forall_mem_nil _⟩
  | alltoAll =>
      refine hierarchical_balanced hn hg hd (List.cons_ne_nil _ _) ?_ ?_
      · simp only [forall_mem_cons]
        exact ⟨localPhase_sound hg _ _ _, interAlltoAll_sound hg, forall_mem_nil _⟩
      · simp only [List.dropLast, forall_mem_cons]
        exact ⟨rfl, forall_mem_nil _⟩
  | reduceScatter ring =>
      refine hierarchical_balanced hn hg hd (List.cons_ne_nil _ _) ?_ ?_
      · simp only [forall_mem_cons]
        exact ⟨localPhase_sound hg _ _ _, remotePhase_sound hg _, forall_mem_nil _⟩
      · simp only [List.dropLast, forall_mem_cons]
        exact ⟨rfl, forall_mem_nil _⟩

/-! The bytes of the phases. -/

theorem sum_chunkSizeOf (hn : 0 < G.numNodes) (hg : 0 < G.gpusPerNode) :
    ∑ r ∈ Finset.range G.numGpus, G.chunkSizeOf r = G.dataSize :=
  sum_portion (Nat.mul_pos hn hg) G.dataSize

theorem sum_nodeChunk (hn : 0 < G.numNodes) (hg : 0 < G.gpusPerNode) :
    ∑ m ∈ Finset.range G.numNodes, G.nodeChunk m = G.dataSize := by
  rw [← sum_chunkSizeOf hn hg, sum_numGpus]
  exact sum_congr rfl fun m _ => nodeChunk_eq G m

theorem sum_localSegmentOf (hg : 0 < G.gpusPerNode) :
    ∑ l ∈ Finset.range G.gpusPerNode, G.localSegmentOf l = G.dataSize := sum_portion hg G.dataSize

theorem sum_interChunkOf (hn : 0 < G.numNodes) (l : Nat) :
    ∑ m ∈ Finset.range G.numNodes, G.interChunkOf m l = G.localSegmentOf l := sum_portion hn _

theorem sum_sum_erase (n : Nat) (f : Nat → Nat) :
    ∑ m ∈ Finset.range n, ∑ m' ∈ (Finset.range n).erase m, f m' =
      (∑ m ∈ Finset.range n, f m) * (n - 1) := by
  have hterm : ∀ m, ∑ m' ∈ (Finset.range n).erase m, f m' =
      ∑ m' ∈ Finset.range n, if m' ≠ m then f m' else 0 := by
    intro m
    rw [← filter_ne', sum_filter]
  simp only [hterm]
  rw [sum_comm, sum_mul]
  refine sum_congr rfl fun m' hm' => ?_
  rw [← sum_erase_const (Finset.mem_range.mp hm'), ← filter_ne', sum_filter]
  refine sum_congr rfl fun m _ => ?_
  exact if_congr ne_comm rfl rfl

theorem volume_localPhase (ring waits : Bool) (share : Nat → Nat) :
    (G.localPhase ring waits share).volume G.numGpus =
      (∑ r ∈ Finset.range G.numGpus, share r) * (G.gpusPerNode - 1) := (sum_mul _ _ _).symm

theorem volume_remotePhase (share : Nat → Nat) :
    (G.remotePhase share).volume G.numGpus =
      (∑ r ∈ Finset.range G.numGpus, share r) * (G.numNodes - 1) := (sum_mul _ _ _).symm

theorem volume_gatherPhase (closes waits : Bool) (share : Nat → Nat → Nat) :
    (G.gatherPhase closes waits share).volume G.numGpus =
      (∑ l ∈ Finset.range G.gpusPerNode, ∑ m ∈ Finset.range G.numNodes, share m l) *
        (G.numNodes - 1) := by
  rw [Phase.volume, sum_numGpus, sum_comm, sum_mul]
  refine sum_congr rfl fun l hl => ?_
  rw [← sum_sum_erase]
  refine sum_congr rfl fun m _ => ?_
  show G.overRemote (G.getGlobalRank m l)
    (fun node => share node (G.getLocalIdx (G.getGlobalRank m l))) = _
  rw [overRemote_place (Finset.mem_range.mp hl), getLocalIdx_place (Finset.mem_range.mp hl)]

theorem sum_localSegmentOf_rank (hg : 0 < G.gpusPerNode) :
    ∑ r ∈ Finset.range G.numGpus, G.localSegmentOf (G.getLocalIdx r) =
      G.numNodes * G.dataSize := by
  have hnode : ∀ m ∈ Finset.range G.numNodes, ∑ l ∈ Finset.range G.gpusPerNode,
      G.localSegmentOf (G.getLocalIdx (G.getGlobalRank m l)) = G.dataSize := by
    intro m _
    rw [← sum_localSegmentOf hg]
    refine sum_congr rfl fun l hl => ?_
    rw [getLocalIdx_place (Finset.mem_range.mp hl)]
  rw [sum_numGpus, sum_congr rfl hnode, sum_const, card_range, smul_eq_mul]

theorem sum_interChunkOf_rank (hn : 0 < G.numNodes) (hg : 0 < G.gpusPerNode) :
    ∑ r ∈ Finset.range G.numGpus, G.interChunkOf (G.getNodeId r) (G.getLocalIdx r) =
      G.dataSize := by
  rw [sum_numGpus, sum_comm, ← sum_localSegmentOf hg]
  refine sum_congr rfl fun l hl => ?_
  rw [← sum_interChunkOf hn]
  refine sum_congr rfl fun m _ => ?_
  rw [getNodeId_place (Finset.mem_range.mp hl), getLocalIdx_place (Finset.mem_range.mp hl)]

/-- The bytes of the collectives. -/
def kindVolume (G : HierarchicalGrid) : HierarchicalKind → Nat
  | .allReduce _ => 2 * ((G.numGpus - 1) * G.dataSize)
  | .allGather => (G.numGpus - 1) * G.dataSize
  | .alltoAll => (G.numGpus - 1) * G.dataSize
  | .reduceScatter _ => (G.gpusPerNode + G.numNodes - 2) * G.dataSize

theorem kind_volume (hn : 0 < G.numNodes) (hg : 0 < G.gpusPerNode) (kind : HierarchicalKind) :
    ((kind.barrier G).phases.map (Phase.volume G.numGpus)).sum = G.kindVolume kind := by
  obtain ⟨n, hn'⟩ : ∃ n, G.numNodes = n + 1 := ⟨G.numNodes - 1, by omega⟩
  obtain ⟨g, hg'⟩ : ∃ g, G.gpusPerNode = g + 1 := ⟨G.gpusPerNode - 1, by omega⟩
  have hgpus : G.numGpus - 1 = n * g + n + g := by
    have hmul : G.numGpus = n * g + n + g + 1 := by
      rw [numGpus, hn', hg']
      ring
    omega
  cases kind with
  | allReduce ring =>
      have hsegments : ∑ l ∈ Finset.range G.gpusPerNode, ∑ m ∈ Finset.range G.numNodes,
          G.interChunkOf m l = G.dataSize := by
        rw [← sum_localSegmentOf hg]
        exact sum_congr rfl fun l _ => sum_interChunkOf hn l
      show Phase.volume _ (G.localPhase _ _ _) + (Phase.volume _ (G.remotePhase _) +
        (Phase.volume _ (G.gatherPhase _ _ _) + (Phase.volume _ (G.localPhase _ _ _) + 0))) =
          2 * ((G.numGpus - 1) * G.dataSize)
      rw [volume_localPhase, volume_localPhase, volume_remotePhase, volume_gatherPhase,
        sum_localSegmentOf_rank hg, sum_interChunkOf_rank hn hg, hsegments, hgpus, hn', hg']
      simp only [Nat.add_sub_cancel]
      ring
  | allGather =>
      have hchunks : ∑ _l ∈ Finset.range G.gpusPerNode, ∑ m ∈ Finset.range G.numNodes,
          G.nodeChunk m = G.gpusPerNode * G.dataSize := by
        rw [sum_nodeChunk hn hg, sum_const, card_range, smul_eq_mul]
      show Phase.volume _ (G.localPhase _ _ _) + (Phase.volume _ (G.gatherPhase _ _ _) + 0) =
          (G.numGpus - 1) * G.dataSize
      rw [volume_localPhase, volume_gatherPhase, sum_chunkSizeOf hn hg, hchunks, hgpus, hn', hg']
      simp only [Nat.add_sub_cancel]
      ring
  | alltoAll =>
      have hinter : Phase.volume G.numGpus (HierarchicalAlltoAll.interAlltoAll G) =
          G.dataSize * G.gpusPerNode * (G.numNodes - 1) := by
        rw [← sum_chunkSizeOf hn hg, sum_mul, sum_mul]
        rfl
      show Phase.volume _ (G.localPhase _ _ _) + (Phase.volume _ _ + 0) =
          (G.numGpus - 1) * G.dataSize
      rw [volume_localPhase, hinter, sum_chunkSizeOf hn hg, hgpus, hn', hg']
      simp only [Nat.add_sub_cancel]
      ring
  | reduceScatter ring =>
      have hsum : G.gpusPerNode + G.numNodes - 2 = g + n := by omega
      show Phase.volume _ (G.localPhase _ _ _) + (Phase.volume _ (G.remotePhase _) + 0) =
          (G.gpusPerNode + G.numNodes - 2) * G.dataSize
      rw [volume_localPhase, volume_remotePhase, sum_chunkSizeOf hn hg, hsum, hn', hg']
      simp only [Nat.add_sub_cancel]
      ring

/-! With two nodes each phase can end. -/

theorem localPhase_advances (ring waits : Bool) (share : Nat → Nat) :
    (G.localPhase ring waits share).Advances G.numGpus := by
  by_cases hone : G.gpusPerNode ≤ 1
  · exact .inl (by simpa [localPhase] using hone)
  · refine .inr ⟨rfl, fun r _ hzero => ?_⟩
    have hmul : share r * (G.gpusPerNode - 1) = 0 := hzero
    have hshare : share r = 0 := by
      rcases Nat.mul_eq_zero.mp hmul with hshare | hpeers
      · exact hshare
      · omega
    simpa [localPhase] using hshare

theorem remotePhase_advances (hn : 2 ≤ G.numNodes) (share : Nat → Nat) :
    (G.remotePhase share).Advances G.numGpus := by
  refine .inr ⟨rfl, fun r _ hzero => ?_⟩
  have hmul : share r * (G.numNodes - 1) = 0 := hzero
  have hshare : share r = 0 := by
    rcases Nat.mul_eq_zero.mp hmul with hshare | hnodes
    · exact hshare
    · omega
  simpa [remotePhase] using hshare

theorem gatherPhase_advances {closes : Bool} (hcloses : closes = true) (waits : Bool)
    (share : Nat → Nat → Nat) : (G.gatherPhase closes waits share).Advances G.numGpus := by
  refine .inr ⟨hcloses, fun r _ hzero => ?_⟩
  have hsum : G.overRemote r (fun node => share node (G.getLocalIdx r)) = 0 := hzero
  simpa [gatherPhase] using hsum

theorem interAlltoAll_advances (hn : 2 ≤ G.numNodes) (hg : 0 < G.gpusPerNode) :
    (HierarchicalAlltoAll.interAlltoAll G).Advances G.numGpus := by
  refine .inr ⟨rfl, fun r _ hzero => ?_⟩
  have hmul : G.chunkSizeOf r * G.gpusPerNode * (G.numNodes - 1) = 0 := hzero
  have hchunk : G.chunkSizeOf r = 0 := by
    rcases Nat.mul_eq_zero.mp hmul with hmul | hnodes
    · rcases Nat.mul_eq_zero.mp hmul with hchunk | hgpus
      · exact hchunk
      · omega
    · omega
  simpa [HierarchicalAlltoAll.interAlltoAll] using hchunk

theorem kind_progressive (hn : 2 ≤ G.numNodes) (hg : 0 < G.gpusPerNode) (kind : HierarchicalKind) :
    (kind.barrier G).Progressive := by
  have hcloses : decide (G.numNodes > 1) = true := decide_eq_true hn
  refine ⟨fun _ => ?_, fun h => ?_⟩
  · cases kind with
    | allReduce ring =>
        show ∀ ph ∈ [_, _, _, _], Phase.Advances G.numGpus ph
        simp only [forall_mem_cons]
        exact ⟨localPhase_advances _ _ _, remotePhase_advances hn _, gatherPhase_advances rfl _ _,
          localPhase_advances _ _ _, forall_mem_nil _⟩
    | allGather =>
        show ∀ ph ∈ [_, _], Phase.Advances G.numGpus ph
        simp only [forall_mem_cons]
        exact ⟨localPhase_advances _ _ _, gatherPhase_advances hcloses _ _, forall_mem_nil _⟩
    | alltoAll =>
        show ∀ ph ∈ [_, _], Phase.Advances G.numGpus ph
        simp only [forall_mem_cons]
        exact ⟨localPhase_advances _ _ _, interAlltoAll_advances hn hg, forall_mem_nil _⟩
    | reduceScatter ring =>
        show ∀ ph ∈ [_, _], Phase.Advances G.numGpus ph
        simp only [forall_mem_cons]
        exact ⟨localPhase_advances _ _ _, remotePhase_advances hn _, forall_mem_nil _⟩
  · cases kind <;> cases h

/-! With one node the second phase cannot. -/

theorem getNodeId_eq_zero (hn : G.numNodes = 1) {r : Nat} (hr : r < G.numGpus) :
    G.getNodeId r = 0 := by
  rw [numGpus, hn, Nat.one_mul] at hr
  exact Nat.div_eq_of_lt hr

theorem remotePeers_eq_nil (hn : G.numNodes = 1) {gpu : Nat} (hgpu : gpu < G.numGpus) :
    G.remotePeers gpu = [] := by
  rw [remotePeers, getNodeId_eq_zero hn hgpu, hn]
  rfl

theorem remoteRanks_eq_nil (hn : G.numNodes = 1) {gpu : Nat} (hgpu : gpu < G.numGpus) :
    G.remoteRanks gpu = [] := by
  rw [remoteRanks, List.filter_eq_nil_iff]
  intro r hr
  rw [getNodeId_eq_zero hn hgpu, getNodeId_eq_zero hn (List.mem_range.mp hr)]
  simp

theorem chunkSizeOf_zero_pos (hd : 0 < G.dataSize) : 0 < G.chunkSizeOf 0 := portion_pos hd _

theorem interChunkOf_zero_pos (hd : 0 < G.dataSize) : 0 < G.interChunkOf 0 0 :=
  portion_pos (portion_pos hd _) _

theorem kind_stuck (hn : G.numNodes = 1) (hg : 0 < G.gpusPerNode) (hd : 0 < G.dataSize)
    (kind : HierarchicalKind) : ∃ ph, (kind.barrier G).phases[1]? = some ph ∧ ph.sends = [] ∧
      ¬ (kind.barrier G).EndsAtStart ph := by
  have hn' : 0 < G.numNodes := by omega
  have hranks : 0 < G.numGpus := Nat.mul_pos hn' hg
  have hremote : ∀ size, sendsOf G.numGpus G.remotePeers size = [] := fun size =>
    sendsOf_eq_nil fun gpu hgpu => remotePeers_eq_nil hn hgpu
  have hchunk := chunkSizeOf_zero_pos hd
  cases kind with
  | allReduce ring =>
      refine ⟨HierarchicalAllReduce.interReduceScatter G, rfl, hremote _, ?_⟩
      rintro (htrivial | ⟨-, hcredited⟩)
      · cases htrivial
      · have hzero : G.interChunkOf (G.getNodeId 0) (G.getLocalIdx 0) = 0 := by
          have := hcredited 0 hranks
          simpa [HierarchicalAllReduce.interReduceScatter, remotePhase] using this
        have hpos := interChunkOf_zero_pos hd
        rw [getNodeId, getLocalIdx, Nat.zero_div, Nat.zero_mod] at hzero
        omega
  | allGather =>
      refine ⟨HierarchicalAllGather.interAllGather G, rfl, hremote _, ?_⟩
      rintro (htrivial | ⟨hcloses, -⟩)
      · cases htrivial
      · have hmore : G.numNodes > 1 := by
          simpa [HierarchicalAllGather.interAllGather, gatherPhase] using hcloses
        omega
  | alltoAll =>
      refine ⟨HierarchicalAlltoAll.interAlltoAll G, rfl,
        sendsOf_eq_nil fun gpu hgpu => remoteRanks_eq_nil hn hgpu, ?_⟩
      rintro (htrivial | ⟨-, hcredited⟩)
      · cases htrivial
      · have hzero : G.chunkSizeOf 0 = 0 := by
          have := hcredited 0 hranks
          simpa [HierarchicalAlltoAll.interAlltoAll] using this
        omega
  | reduceScatter ring =>
      refine ⟨HierarchicalReduceScatter.interReduceScatter G, rfl, hremote _, ?_⟩
      rintro (htrivial | ⟨-, hcredited⟩)
      · cases htrivial
      · have hzero : G.chunkSizeOf 0 = 0 := by
          have := hcredited 0 hranks
          simpa [HierarchicalReduceScatter.interReduceScatter, remotePhase] using this
        omega

end HierarchicalGrid

end ProtoBridge.Collective
