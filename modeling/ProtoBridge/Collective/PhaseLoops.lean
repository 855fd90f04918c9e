import Mathlib.Algebra.BigOperators.Group.Finset.Piecewise
import ProtoBridge.Collective.BarrierRuns

/-!
# Loops that send

The start function of a phase goes through the ranks, and for each through its peers. What a rank
is sent in the phase is a sum over the ranks that have it as a peer.
-/

namespace ProtoBridge.Collective

open Lib

/-- The transfers of two nested loops. -/
def sendsOf (numGpus : Nat) (peers : Nat → List Nat) (size : Nat → Nat → Nat) : List Transfer :=
  (List.range numGpus).flatMap fun gpu => (peers gpu).map fun peer => ⟨gpu, peer, size gpu peer⟩

/-- What a collective relies on in a phase: the loops stay among the ranks, they send a rank what it
waits for, and a rank that is marked at the start waits for nothing. -/
structure Phase.Sound (numGpus : Nat) (ph : Phase) : Prop where
  placed : ∀ t ∈ ph.sends, t.src < numGpus ∧ t.dst < numGpus
  balanced : ∀ r < numGpus, ∑ src ∈ Finset.range numGpus, ph.between src r = ph.expected r
  credited : ∀ r < numGpus, ph.credited r = true → ph.expected r = 0
  trivial : ph.trivial = true → ∀ r < numGpus, ph.expected r = 0

variable {n src dst : Nat} {peers : Nat → List Nat} {size : Nat → Nat → Nat} {ph : Phase}

theorem placed_sendsOf (h : ∀ gpu < n, ∀ peer ∈ peers gpu, peer < n) {t : Transfer}
    (ht : t ∈ sendsOf n peers size) : t.src < n ∧ t.dst < n := by
  obtain ⟨gpu, hgpu, ht⟩ := List.mem_flatMap.mp ht
  obtain ⟨peer, hpeer, rfl⟩ := List.mem_map.mp ht
  have hlt := List.mem_range.mp hgpu
  exact ⟨hlt, h gpu hlt peer hpeer⟩

theorem sendsOf_eq_nil (h : ∀ gpu < n, peers gpu = []) : sendsOf n peers size = [] := by
  refine List.flatMap_eq_nil_iff.mpr fun gpu hgpu => ?_
  rw [h gpu (List.mem_range.mp hgpu)]
  rfl

theorem sum_peers {l : List Nat} (hnodup : l.Nodup) (f : Nat → Nat) (dst : Nat) :
    (l.map fun peer => if peer = dst then f peer else 0).sum = if dst ∈ l then f dst else 0 := by
  induction l with
  | nil => rfl
  | cons peer l ih =>
      obtain ⟨hnot, hnodup⟩ := List.nodup_cons.mp hnodup
      rw [List.map_cons, List.sum_cons, ih hnodup]
      by_cases hpeer : peer = dst
      · subst hpeer
        simp [hnot]
      · simp [hpeer, Ne.symm hpeer]

theorem between_sendsOf (hs : ph.sends = sendsOf n peers size)
    (hnodup : ∀ gpu < n, (peers gpu).Nodup) (src dst : Nat) :
    ph.between src dst = if src < n ∧ dst ∈ peers src then size src dst else 0 := by
  have hinner : ∀ gpu < n, ((peers gpu).map fun peer =>
      if gpu = src ∧ peer = dst then size gpu peer else 0).sum =
        if gpu = src then (if dst ∈ peers src then size src dst else 0) else 0 := by
    intro gpu hgpu
    by_cases hsrc : gpu = src
    · subst hsrc
      rw [if_pos rfl, ← sum_peers (hnodup gpu hgpu) (size gpu) dst]
      simp only [true_and]
    · rw [if_neg hsrc]
      refine List.sum_eq_zero fun b hb => ?_
      obtain ⟨peer, -, rfl⟩ := List.mem_map.mp hb
      exact if_neg fun heq => hsrc heq.1
  have houter : ph.between src dst = ∑ gpu ∈ Finset.range n,
      ((peers gpu).map fun peer => if gpu = src ∧ peer = dst then size gpu peer else 0).sum := by
    rw [Phase.between, hs, sendsOf, List.map_flatMap, List.flatMap, List.sum_flatten, List.map_map]
    simp only [List.map_map]
    rfl
  rw [houter, Finset.sum_congr rfl fun gpu hgpu => hinner gpu (Finset.mem_range.mp hgpu),
    Finset.sum_ite_eq']
  by_cases hsrc : src < n
  · simp [hsrc]
  · simp [hsrc]

end ProtoBridge.Collective
