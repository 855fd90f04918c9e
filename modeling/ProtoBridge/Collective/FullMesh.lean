import Mathlib.Algebra.BigOperators.Ring.Finset
import ProtoBridge.Collective.PhaseLoops
import ProtoBridge.Lib.Grid

/-!
# Full-mesh collectives

Each rank sends to all others at once. In a reduce-scatter a rank is sent its own chunk by each of
them, in an all-gather the chunks of the others.
-/

namespace ProtoBridge.Collective

open Lib

namespace FullMesh

variable (numGpus dataSize : Nat)

def chunkSizeOf (gpu : Nat) : Nat := portion dataSize numGpus gpu

/-- The other ranks. -/
def peers (gpu : Nat) : List Nat := (List.range numGpus).filter (· ≠ gpu)

/-- `TriggerReduceScatterPhase` and `CheckReduceScatterComplete`. -/
def reduceScatterPhase : Phase where
  sends := sendsOf numGpus (peers numGpus) fun _ dest => chunkSizeOf numGpus dataSize dest
  expected gpu := (numGpus - 1) * chunkSizeOf numGpus dataSize gpu

/-- `TriggerAllGatherPhase` and `CheckAllGatherComplete`. -/
def allGatherPhase : Phase where
  sends := sendsOf numGpus (peers numGpus) fun gpu _ => chunkSizeOf numGpus dataSize gpu
  expected gpu := dataSize - chunkSizeOf numGpus dataSize gpu

/-- A full-mesh collective. -/
def fullMesh (guarded : Bool) (phases : List Phase) : Barrier where
  numGpus := numGpus
  phases := phases
  void := dataSize == 0 || numGpus ≤ 1
  early := false
  checksAll := true
  guarded := guarded

end FullMesh

/-- Only the all-reduce looks at its state when a packet arrives. -/
def fullMeshAllReduce (numGpus dataSize : Nat) : Barrier :=
  FullMesh.fullMesh numGpus dataSize true
    [FullMesh.reduceScatterPhase numGpus dataSize, FullMesh.allGatherPhase numGpus dataSize]

def fullMeshAllGather (numGpus dataSize : Nat) : Barrier :=
  FullMesh.fullMesh numGpus dataSize false [FullMesh.allGatherPhase numGpus dataSize]

def fullMeshReduceScatter (numGpus dataSize : Nat) : Barrier :=
  FullMesh.fullMesh numGpus dataSize false [FullMesh.reduceScatterPhase numGpus dataSize]

/-- The full-mesh collectives. -/
inductive FullMeshKind
  | allReduce
  | allGather
  | reduceScatter
  deriving DecidableEq

def FullMeshKind.barrier (numGpus dataSize : Nat) : FullMeshKind → Barrier
  | .allReduce => fullMeshAllReduce numGpus dataSize
  | .allGather => fullMeshAllGather numGpus dataSize
  | .reduceScatter => fullMeshReduceScatter numGpus dataSize

namespace FullMesh

variable {numGpus dataSize : Nat} {ph : Phase} {size : Nat → Nat → Nat}

theorem between_peers (hs : ph.sends = sendsOf numGpus (peers numGpus) size) {src dst : Nat}
    (hsrc : src < numGpus) (hdst : dst < numGpus) :
    ph.between src dst = if src ≠ dst then size src dst else 0 := by
  rw [between_sendsOf hs fun gpu _ => List.nodup_range.filter _]
  refine if_congr ?_ rfl rfl
  simp only [peers, List.mem_filter, List.mem_range, decide_eq_true_eq, hsrc, hdst, true_and]
  exact ne_comm

theorem sum_between_peers (hs : ph.sends = sendsOf numGpus (peers numGpus) size) {dst : Nat}
    (hdst : dst < numGpus) : ∑ src ∈ Finset.range numGpus, ph.between src dst =
      ∑ src ∈ (Finset.range numGpus).erase dst, size src dst := by
  rw [← Finset.filter_ne', Finset.sum_filter]
  refine Finset.sum_congr rfl fun src hsrc => ?_
  rw [between_peers hs (Finset.mem_range.mp hsrc) hdst]

theorem mem_peers_lt {gpu peer : Nat} (h : peer ∈ peers numGpus gpu) : peer < numGpus :=
  List.mem_range.mp (List.mem_filter.mp h).1

theorem reduceScatterPhase_sound :
    (reduceScatterPhase numGpus dataSize).Sound numGpus where
  placed t ht := placed_sendsOf (fun _ _ _ hpeer => mem_peers_lt hpeer) ht
  balanced r hr := by
    rw [sum_between_peers rfl hr, Finset.sum_const,
      Finset.card_erase_of_mem (Finset.mem_range.mpr hr), Finset.card_range, smul_eq_mul]
    rfl
  credited _ _ h := by cases h
  trivial h := by cases h

theorem sum_others (hn : 0 < numGpus) {r : Nat} (hr : r < numGpus) :
    ∑ src ∈ (Finset.range numGpus).erase r, chunkSizeOf numGpus dataSize src =
      dataSize - chunkSizeOf numGpus dataSize r := by
  have hwhole : ∑ src ∈ Finset.range numGpus, chunkSizeOf numGpus dataSize src = dataSize :=
    sum_portion hn dataSize
  rw [← Finset.add_sum_erase _ _ (Finset.mem_range.mpr hr)] at hwhole
  omega

theorem allGatherPhase_sound (hn : 0 < numGpus) :
    (allGatherPhase numGpus dataSize).Sound numGpus where
  placed t ht := placed_sendsOf (fun _ _ _ hpeer => mem_peers_lt hpeer) ht
  balanced r hr := by
    rw [sum_between_peers rfl hr]
    exact sum_others hn hr
  credited _ _ h := by cases h
  trivial h := by cases h

theorem fullMesh_balanced (hn : 2 ≤ numGpus) (hd : 0 < dataSize) (guarded : Bool)
    {phases : List Phase} (hne : phases ≠ []) (hcloses : ∀ ph ∈ phases, ph.closes = true)
    (hsound : ∀ ph ∈ phases, ph.Sound numGpus) :
    (fullMesh numGpus dataSize guarded phases).Balanced where
  void := by
    show (dataSize == 0 || decide (numGpus ≤ 1)) = false
    simp
    omega
  ranks := by
    show 0 < numGpus
    omega
  nonempty := List.length_pos_iff.mpr hne
  placed ph hph := (hsound ph hph).placed
  balanced ph hph := (hsound ph hph).balanced
  credited ph hph := (hsound ph hph).credited
  trivial ph hph := (hsound ph hph).trivial
  closes _ := hcloses
  staged h := by cases h

theorem kind_balanced (hn : 2 ≤ numGpus) (hd : 0 < dataSize) (kind : FullMeshKind) :
    (kind.barrier numGpus dataSize).Balanced := by
  have hgather : (allGatherPhase numGpus dataSize).Sound numGpus := allGatherPhase_sound (by omega)
  have hreduce : (reduceScatterPhase numGpus dataSize).Sound numGpus := reduceScatterPhase_sound
  cases kind with
  | allReduce =>
      refine fullMesh_balanced hn hd _ (List.cons_ne_nil _ _) ?_ ?_
      · simp only [List.forall_mem_cons]
        exact ⟨rfl, rfl, List.forall_mem_nil _⟩
      · simp only [List.forall_mem_cons]
        exact ⟨hreduce, hgather, List.forall_mem_nil _⟩
  | allGather =>
      refine fullMesh_balanced hn hd _ (List.cons_ne_nil _ _) ?_ ?_
      · exact List.forall_mem_singleton.mpr rfl
      · exact List.forall_mem_singleton.mpr hgather
  | reduceScatter =>
      refine fullMesh_balanced hn hd _ (List.cons_ne_nil _ _) ?_ ?_
      · exact List.forall_mem_singleton.mpr rfl
      · exact List.forall_mem_singleton.mpr hreduce

/-- The bytes of the collectives. -/
def kindVolume (numGpus dataSize : Nat) : FullMeshKind → Nat
  | .allReduce => 2 * ((numGpus - 1) * dataSize)
  | .allGather => (numGpus - 1) * dataSize
  | .reduceScatter => (numGpus - 1) * dataSize

theorem volume_reduceScatterPhase (hn : 0 < numGpus) :
    (reduceScatterPhase numGpus dataSize).volume numGpus = (numGpus - 1) * dataSize := by
  have hwhole : ∑ r ∈ Finset.range numGpus, chunkSizeOf numGpus dataSize r = dataSize :=
    sum_portion hn dataSize
  conv_rhs => rw [← hwhole, Finset.mul_sum]
  rfl

theorem volume_allGatherPhase (hn : 0 < numGpus) :
    (allGatherPhase numGpus dataSize).volume numGpus = (numGpus - 1) * dataSize := by
  have hwhole : ∑ r ∈ Finset.range numGpus, chunkSizeOf numGpus dataSize r = dataSize :=
    sum_portion hn dataSize
  have hle : ∀ r ∈ Finset.range numGpus, chunkSizeOf numGpus dataSize r ≤ dataSize :=
    fun r _ => portion_le _ _ r
  have hsum : (allGatherPhase numGpus dataSize).volume numGpus + dataSize =
      numGpus * dataSize := by
    calc (allGatherPhase numGpus dataSize).volume numGpus + dataSize
        = ∑ r ∈ Finset.range numGpus, (dataSize - chunkSizeOf numGpus dataSize r) +
            ∑ r ∈ Finset.range numGpus, chunkSizeOf numGpus dataSize r := by
          rw [hwhole]
          rfl
      _ = ∑ _r ∈ Finset.range numGpus, dataSize := by
          rw [← Finset.sum_add_distrib]
          exact Finset.sum_congr rfl fun r hr => Nat.sub_add_cancel (hle r hr)
      _ = numGpus * dataSize := by
          rw [Finset.sum_const, Finset.card_range, smul_eq_mul]
  rw [Nat.sub_mul, Nat.one_mul, ← hsum, Nat.add_sub_cancel]

theorem kind_volume (hn : 2 ≤ numGpus) (kind : FullMeshKind) :
    ((kind.barrier numGpus dataSize).phases.map (Phase.volume numGpus)).sum =
      kindVolume numGpus dataSize kind := by
  have hreduce : (reduceScatterPhase numGpus dataSize).volume numGpus = (numGpus - 1) * dataSize :=
    volume_reduceScatterPhase (by omega)
  have hgather : (allGatherPhase numGpus dataSize).volume numGpus = (numGpus - 1) * dataSize :=
    volume_allGatherPhase (by omega)
  cases kind with
  | allReduce =>
      show Phase.volume numGpus (reduceScatterPhase numGpus dataSize) +
        (Phase.volume numGpus (allGatherPhase numGpus dataSize) + 0) =
          2 * ((numGpus - 1) * dataSize)
      omega
  | allGather =>
      show Phase.volume numGpus (allGatherPhase numGpus dataSize) + 0 = (numGpus - 1) * dataSize
      omega
  | reduceScatter =>
      show Phase.volume numGpus (reduceScatterPhase numGpus dataSize) + 0 =
        (numGpus - 1) * dataSize
      omega

end FullMesh

end ProtoBridge.Collective
