import ProtoBridge.Collective.NcclLayout
import ProtoBridge.Lib.Grid

/-!
# Rails of the NCCL rings

The ring of a channel goes through the ranks of a node one after the other, from the rank of the channel
on, and then to the next node. So it leaves each node once, on another rail than the other channels do.
-/

namespace ProtoBridge.Collective

open Lib

namespace NcclRing

variable {n g nn channel channel' node k rank step : Nat} {r : NcclRing}

/-! ## The cycle -/

/-- The rank at a place of the ring, counted from the first rank of the channel on node 0. -/
def rankOfPlace (g channel place : Nat) : Nat := rankAt g channel (place / g) (place % g)

variable {place : Nat} {next : Nat → Nat}

theorem rankBehind_place (hg : 0 < g) (hplace : place < nn * g) :
    rankBehind g nn channel (place / g) (place % g) = rankOfPlace g channel ((place + 1) % (nn * g)) := by
  have hmul := Nat.div_add_mod place g
  have hmod := Nat.mod_lt place hg
  have hnode : place / g < nn := Nat.div_lt_of_lt_mul (by rwa [Nat.mul_comm])
  unfold rankBehind rankOfPlace rankAt
  split
  · rename_i hin
    -- the next place is on the same node
    have hlt : place + 1 < nn * g := by
      have hend := place_lt (n := nn) (g := g) hnode hin
      rw [Nat.mul_comm] at hend
      omega
    have hsplit : place + 1 = place / g * g + (place % g + 1) := by
      rw [Nat.mul_comm]
      omega
    rw [Nat.mod_eq_of_lt hlt, hsplit, place_div hin, place_mod hin, Nat.add_assoc]
  · rename_i hlast
    have hsplit : place + 1 = (place / g + 1) * g := by
      rw [Nat.succ_mul, Nat.mul_comm]
      omega
    rw [hsplit, Nat.mul_mod_mul_right, Nat.mul_div_cancel _ hg, Nat.mul_mod_left]
    rfl

theorem rankOfPlace_lt (hg : 0 < g) (hplace : place < nn * g) :
    rankOfPlace g channel place < nn * g :=
  mul_add_lt (Nat.div_lt_of_lt_mul (by rwa [Nat.mul_comm])) (Nat.mod_lt _ hg)

theorem exists_rankOfPlace (channel : Nat) (hrank : rank < nn * g) :
    ∃ place < nn * g, rankOfPlace g channel place = rank := by
  obtain ⟨node, hnode, k, hk, rfl⟩ := exists_rankAt channel hrank
  refine ⟨node * g + k, place_lt hnode hk, ?_⟩
  unfold rankOfPlace
  rw [place_div hk, place_mod hk]

theorem next_rankOfPlace (hg : 0 < g) (hplace : place < nn * g) :
    tableOf (fun _ => 0) (ringEdges nn g channel) (rankOfPlace g channel place) =
      rankOfPlace g channel ((place + 1) % (nn * g)) := by
  have hnode : place / g < nn := Nat.div_lt_of_lt_mul (by rwa [Nat.mul_comm])
  rw [← rankBehind_place hg hplace]
  exact tableOf_ringEdges hnode (Nat.mod_lt _ hg)

theorem oneCycle_ringEdges (hg : 0 < g) (hpos : 0 < nn * g) (channel : Nat) :
    OneCycle (nn * g) (tableOf (fun _ => 0) (ringEdges nn g channel)) :=
  (oneCycle_succ hpos).image (fun _ => rankOfPlace_lt hg) (fun _ => exists_rankOfPlace channel)
    fun _ => next_rankOfPlace hg

theorem walk_eq (h : OneCycle n next) (hpos : 0 < n) (fuel k : Nat) (table : Nat → Nat)
    (hfuel : fuel + k = n) (hk : k < n) (htable : ∀ i < k, table (next^[i] 0) = i) :
    ∀ i < n, walk next n fuel k (next^[k] 0) table (next^[i] 0) = i := by
  induction fuel generalizing k table with
  | zero => omega
  | succ fuel ih =>
      have hnoted := h.note hpos hk htable
      unfold walk
      dsimp only
      rw [← Function.iterate_succ_apply' next]
      by_cases hlast : k + 1 = n
      · rw [if_neg fun hgo => absurd hgo.2 (by omega)]
        exact fun i hi => hnoted i (by omega)
      · rw [if_pos ⟨h.iterate_ne hpos (by omega), by omega⟩]
        exact ih (k + 1) _ (by omega) (by omega) hnoted

theorem walk_iterate (h : OneCycle n next) (hpos : 0 < n) {i : Nat} (hi : i < n) :
    walk next n n 0 0 (fun _ => 0) (next^[i] 0) = i :=
  walk_eq h hpos n 0 _ rfl hpos (fun i hi => absurd hi (Nat.not_lt_zero i)) i hi

theorem walk_next (h : OneCycle n next) (hpos : 0 < n) (hrank : rank < n) :
    walk next n n 0 0 (fun _ => 0) rank < n ∧
      walk next n n 0 0 (fun _ => 0) (next rank) = (walk next n n 0 0 (fun _ => 0) rank + 1) % n := by
  obtain ⟨i, hi, rfl⟩ := h.exists_iterate hpos rank hrank
  rw [walk_iterate h hpos hi, ← Function.iterate_succ_apply' next]
  refine ⟨hi, ?_⟩
  rcases Nat.lt_or_eq_of_le (Nat.succ_le_of_lt hi) with hlt | heq
  · rw [walk_iterate h hpos hlt, Nat.mod_eq_of_lt hlt]
  · have hzero := walk_iterate h hpos hpos
    have hsum : i + 1 = n := heq
    rw [heq, h.iterate_self hpos, hsum, Nat.mod_self]
    exact hzero

theorem walk_injective (h : OneCycle n next) (hpos : 0 < n) {rank' : Nat} (hrank : rank < n)
    (hrank' : rank' < n)
    (heq : walk next n n 0 0 (fun _ => 0) rank = walk next n n 0 0 (fun _ => 0) rank') :
    rank = rank' := by
  obtain ⟨i, hi, rfl⟩ := h.exists_iterate hpos rank hrank
  obtain ⟨i', hi', rfl⟩ := h.exists_iterate hpos rank' hrank'
  rw [walk_iterate h hpos hi, walk_iterate h hpos hi'] at heq
  rw [heq]

/-! ## Rails -/

/-- The hop from a rank goes to another node. -/
def Leaves (g nn channel rank : Nat) : Prop :=
  rank / g ≠ tableOf (fun _ => 0) (ringEdges nn g channel) rank / g

instance (g nn channel rank : Nat) : Decidable (Leaves g nn channel rank) :=
  inferInstanceAs (Decidable (_ ≠ _))

theorem leaves_iff (hg : 0 < g) (hnodes : 1 < nn) (hnode : node < nn) (hk : k < g) :
    Leaves g nn channel (rankAt g channel node k) ↔ k + 1 = g := by
  have hlt : ∀ a, a % g < g := fun a => Nat.mod_lt a hg
  have hnext : (node + 1) % nn ≠ node := by
    by_cases heq : node + 1 = nn
    · rw [heq, Nat.mod_self]
      omega
    · rw [Nat.mod_eq_of_lt (by omega)]
      omega
  unfold Leaves
  rw [tableOf_ringEdges hnode hk, rankAt, place_div (hlt _), rankBehind]
  split
  · rename_i hin
    rw [place_div (hlt _)]
    exact iff_of_false (fun hne => hne rfl) (by omega)
  · rename_i hlast
    rw [place_div (hlt _)]
    exact iff_of_true hnext.symm (by omega)

theorem card_leaves (hg : 0 < g) (hnodes : 1 < nn) (channel : Nat) :
    ((Finset.range (nn * g)).filter (Leaves g nn channel)).card = nn := by
  have himage : (Finset.range (nn * g)).filter (Leaves g nn channel) =
      (Finset.range nn).image fun node => rankAt g channel node (g - 1) := by
    ext rank
    rw [Finset.mem_filter, Finset.mem_image, Finset.mem_range]
    constructor
    · rintro ⟨hrank, hleaves⟩
      obtain ⟨node, hnode, k, hk, rfl⟩ := exists_rankAt channel hrank
      have hlast := (leaves_iff hg hnodes hnode hk).mp hleaves
      refine ⟨node, Finset.mem_range.mpr hnode, ?_⟩
      rw [← hlast, Nat.add_sub_cancel]
    · rintro ⟨node, hnode, rfl⟩
      rw [Finset.mem_range] at hnode
      refine ⟨mul_add_lt hnode (Nat.mod_lt _ hg), ?_⟩
      exact (leaves_iff hg hnodes hnode (by omega)).mpr (by omega)
  rw [himage, Finset.card_image_of_injOn, Finset.card_range]
  intro node _ node' _ heq
  exact (rankAt_injective (by omega) (by omega) heq).1

theorem leaves_unique (hg : 0 < g) (hnodes : 1 < nn) (hchannel : channel < g) (hchannel' : channel' < g)
    (hrank : rank < nn * g) (h : Leaves g nn channel rank) (h' : Leaves g nn channel' rank) :
    channel = channel' := by
  obtain ⟨node, hnode, k, hk, rfl⟩ := exists_rankAt channel hrank
  obtain ⟨node', hnode', k', hk', heq⟩ := exists_rankAt channel' hrank
  have hlast := (leaves_iff hg hnodes hnode hk).mp h
  rw [← heq] at h'
  have hlast' := (leaves_iff hg hnodes hnode' hk').mp h'
  obtain rfl : k = k' := by omega
  obtain ⟨-, hslot⟩ := mul_add_injective (Nat.mod_lt _ hg) (Nat.mod_lt _ hg) heq
  rw [Nat.add_comm channel', Nat.add_comm channel] at hslot
  exact (slot_injective hchannel' hchannel hslot).symm

/-! ## Chunks -/

/-- The chunk of a channel that a rank sends at a step. -/
def chunkOf (r : NcclRing) (channel rank step : Nat) : Nat :=
  (r.ringPos channel rank + r.numGpus - step % r.numGpus) % r.numGpus

/-- The bytes of a chunk of the grid. -/
def chunkBytes (r : NcclRing) (index : Nat) : Nat :=
  r.chunkSize + if index < r.chunkRemainder then 1 else 0

theorem rotate_succ {pos : Nat} (hn : 0 < n) (step : Nat) :
    ((pos + 1) % n + n - (step + 1) % n) % n = (pos + n - step % n) % n := by
  have hmod := Nat.mod_lt step hn
  have hpos : (pos + 1) % n + n - (step + 1) % n ≡ pos + n - step % n [MOD n] := by
    have hleft : (pos + 1) % n + n - (step + 1) % n + (step + 1) ≡ pos + 1 [MOD n] := by
      have hlt := Nat.mod_lt (step + 1) hn
      calc (pos + 1) % n + n - (step + 1) % n + (step + 1)
          ≡ (pos + 1) % n + n - (step + 1) % n + (step + 1) % n [MOD n] :=
            Nat.ModEq.add_left _ (Nat.mod_modEq _ _).symm
        _ = (pos + 1) % n + n := Nat.sub_add_cancel (by omega)
        _ ≡ pos + 1 [MOD n] := (Nat.add_mod_right _ _).trans (Nat.mod_mod _ _)
    have hright : pos + n - step % n + (step + 1) ≡ pos + 1 [MOD n] := by
      calc pos + n - step % n + (step + 1)
          ≡ pos + n - step % n + (step % n + 1) [MOD n] :=
            Nat.ModEq.add_left _ (Nat.ModEq.add_right _ (Nat.mod_modEq _ _).symm)
        _ = pos + 1 + n := by omega
        _ ≡ pos + 1 [MOD n] := Nat.add_mod_right _ _
    exact Nat.ModEq.add_right_cancel' _ (hleft.trans hright.symm)
  exact hpos

theorem rotate_injective {pos pos' : Nat} (hpos : pos < n) (hpos' : pos' < n)
    (h : (pos + n - step % n) % n = (pos' + n - step % n) % n) : pos = pos' := by
  have hmod := Nat.mod_lt step (by omega : 0 < n)
  have hcancel : pos + n ≡ pos' + n [MOD n] := by
    calc pos + n = pos + n - step % n + step % n := (Nat.sub_add_cancel (by omega)).symm
      _ ≡ pos' + n - step % n + step % n [MOD n] := Nat.ModEq.add_right _ h
      _ = pos' + n := Nat.sub_add_cancel (by omega)
  have hsame : pos % n = pos' % n := Nat.ModEq.add_right_cancel' n hcancel
  rwa [Nat.mod_eq_of_lt hpos, Nat.mod_eq_of_lt hpos'] at hsame

/-! ## Layouts -/

/-- What `Initialize` makes of a number of channels. -/
def layout (numGpus : UInt16) (dataSize : UInt64) (gpusPerNode numNodes : UInt32) (numChannels : Nat) :
    NcclRing :=
  let n := numGpus.toNat
  let chunkGrid := numChannels * n
  let floored := dataSize.toNat / chunkGrid = 0
  buildRings
    { numGpus := n
      dataSize := dataSize.toNat
      gpusPerNode := gpusPerNode.toNat
      numNodes := numNodes.toNat
      numChannels
      totalSteps := 2 * (n - 1)
      chunkSize := if dataSize = 0 then 0 else if floored then 1 else dataSize.toNat / chunkGrid
      chunkRemainder := if floored then 0 else dataSize.toNat % chunkGrid
      trivialZeroData := dataSize = 0 }

variable {numGpus : UInt16} {dataSize : UInt64} {gpusPerNode numNodes : UInt32} {numChannels : Nat}

theorem initialized_eq (dataSize : UInt64) (htwo : 2 ≤ numGpus.toNat)
    (hranks : numNodes.toNat * gpusPerNode.toNat = numGpus.toNat) (numChannelsCfg : UInt32) :
    initialized numGpus dataSize gpusPerNode numNodes numChannelsCfg =
      .ok (layout numGpus dataSize gpusPerNode numNodes
        (resolvedChannels numChannelsCfg.toNat gpusPerNode.toNat (2 * (numGpus.toNat - 1)))) := by
  have hmany : ¬ numGpus ≤ 1 := by
    rw [UInt16.le_iff_toNat_le]
    exact Nat.not_le.mpr htwo
  have hlt := numGpus.toNat_lt
  have hproduct : (numNodes * gpusPerNode).toNat = numGpus.toNat := by
    rw [UInt32.toNat_mul, hranks]
    exact Nat.mod_eq_of_lt (by omega)
  unfold initialized
  dsimp only
  rw [if_neg hmany, if_neg (not_not.mpr hproduct), if_neg (not_not.mpr hranks)]
  rfl

theorem resolvedChannels_le (cfg g steps : Nat) (hg : 0 < g) : resolvedChannels cfg g steps ≤ g := by
  have hmin : min (if cfg > 0 then cfg else g) g ≤ g := min_le_right _ _
  unfold resolvedChannels
  dsimp only
  generalize min (if cfg > 0 then cfg else g) g = wanted at hmin
  split
  · rename_i hlarge
    exact max_le (hlarge.le.trans hmin) hg
  · exact hmin

theorem chunkBytes_layout (hchunks : numChannels * numGpus.toNat ≤ dataSize.toNat)
    (hpos : 0 < numChannels * numGpus.toNat) (index : Nat) :
    (layout numGpus dataSize gpusPerNode numNodes numChannels).chunkBytes index =
      portion dataSize.toNat (numChannels * numGpus.toNat) index := by
  have hdata : dataSize ≠ 0 := by
    rintro rfl
    rw [UInt64.toNat_zero] at hchunks
    omega
  have hquot : dataSize.toNat / (numChannels * numGpus.toNat) ≠ 0 :=
    (Nat.div_pos hchunks hpos).ne'
  have hsize : (layout numGpus dataSize gpusPerNode numNodes numChannels).chunkSize =
      dataSize.toNat / (numChannels * numGpus.toNat) := by
    show (if dataSize = 0 then 0 else if dataSize.toNat / (numChannels * numGpus.toNat) = 0 then 1
      else dataSize.toNat / (numChannels * numGpus.toNat)) = _
    rw [if_neg hdata, if_neg hquot]
  have hremainder : (layout numGpus dataSize gpusPerNode numNodes numChannels).chunkRemainder =
      dataSize.toNat % (numChannels * numGpus.toNat) := if_neg hquot
  rw [chunkBytes, hsize, hremainder]
  rfl

end NcclRing

open NcclRing in
/-- The rings of the channels are cycles with places that go up by one; they leave each node once, on
rails of their own; their chunks make up the data; a rank waits for what its predecessor sends, and sends
it on at the next step; and each chunk goes twice around all ranks but one. -/
structure RailSpread (r : NcclRing) : Prop where
  cycle : ∀ channel < r.numChannels, OneCycle r.numGpus (r.ringNext channel)
  places : ∀ channel < r.numChannels, ∀ rank < r.numGpus, r.ringPos channel rank < r.numGpus ∧
    r.ringPos channel (r.ringNext channel rank) = (r.ringPos channel rank + 1) % r.numGpus
  crossings : 1 < r.numNodes → ∀ channel < r.numChannels, ((Finset.range r.numGpus).filter fun rank =>
    rank / r.gpusPerNode ≠ r.ringNext channel rank / r.gpusPerNode).card = r.numNodes
  rails : 1 < r.numNodes → ∀ channel < r.numChannels, ∀ channel' < r.numChannels,
    ∀ rank < r.numGpus, rank / r.gpusPerNode ≠ r.ringNext channel rank / r.gpusPerNode →
      rank / r.gpusPerNode ≠ r.ringNext channel' rank / r.gpusPerNode → channel = channel'
  sizes : ∑ index ∈ Finset.range (r.numChannels * r.numGpus), r.chunkBytes index = r.dataSize
  expects : ∀ channel < r.numChannels, ∀ pred < r.numGpus, ∀ step,
    r.expectedRecvBytes (r.ringNext channel pred) channel step = r.chunkSizeOf channel pred step
  passes : ∀ channel < r.numChannels, ∀ rank < r.numGpus, ∀ step,
    r.chunkOf channel (r.ringNext channel rank) (step + 1) = r.chunkOf channel rank step
  sends : ∑ step ∈ Finset.range r.totalSteps, ∑ channel ∈ Finset.range r.numChannels,
    ∑ rank ∈ Finset.range r.numGpus, r.chunkSizeOf channel rank step =
      2 * (r.numGpus - 1) * r.dataSize

namespace NcclRing

variable {r : NcclRing} {channel step : Nat} {numGpus : UInt16} {dataSize : UInt64}
  {gpusPerNode numNodes : UInt32} {numChannels : Nat}

theorem sum_chunkSizeOf (hinj : ∀ rank < r.numGpus, ∀ rank' < r.numGpus,
      r.ringPos channel rank = r.ringPos channel rank' → rank = rank')
    (hlt : ∀ rank < r.numGpus, r.ringPos channel rank < r.numGpus) (step : Nat) :
    ∑ rank ∈ Finset.range r.numGpus, r.chunkSizeOf channel rank step =
      ∑ i ∈ Finset.range r.numGpus, r.chunkBytes (channel * r.numGpus + i) := by
  have hchunk : ∀ rank < r.numGpus, r.chunkOf channel rank step < r.numGpus :=
    fun rank hrank => Nat.mod_lt _ (by omega)
  have hchunkInj : ∀ rank < r.numGpus, ∀ rank' < r.numGpus,
      r.chunkOf channel rank step = r.chunkOf channel rank' step → rank = rank' := by
    intro rank hrank rank' hrank' heq
    exact hinj rank hrank rank' hrank' (rotate_injective (hlt rank hrank) (hlt rank' hrank') heq)
  exact sum_reordered hchunk hchunkInj fun i => r.chunkBytes (channel * r.numGpus + i)

theorem railSpread_layout (htwo : 2 ≤ numGpus.toNat)
    (hranks : numNodes.toNat * gpusPerNode.toNat = numGpus.toNat) (hpos : 0 < numChannels)
    (hchannels : numChannels ≤ gpusPerNode.toNat)
    (hchunks : numChannels * numGpus.toNat ≤ dataSize.toNat) :
    RailSpread (layout numGpus dataSize gpusPerNode numNodes numChannels) := by
  generalize hr : layout numGpus dataSize gpusPerNode numNodes numChannels = r
  have hn : r.numGpus = numGpus.toNat := by rw [← hr]; rfl
  have hg : 0 < gpusPerNode.toNat := by omega
  have hgrid : 0 < numChannels * numGpus.toNat := Nat.mul_pos hpos (by omega)
  have hnext : ∀ c, r.ringNext c = tableOf (fun _ => 0) (ringEdges numNodes.toNat gpusPerNode.toNat c) := by
    rw [← hr]
    exact fun c => rfl
  have hplaces : ∀ c, r.ringPos c = walk (r.ringNext c) r.numGpus r.numGpus 0 0 fun _ => 0 := by
    rw [← hr]
    exact fun c => rfl
  have hcycle : ∀ c, OneCycle r.numGpus (r.ringNext c) := by
    intro c
    rw [hnext, hn, ← hranks]
    exact oneCycle_ringEdges hg (by omega) c
  have hbytes : ∀ index, r.chunkBytes index = portion dataSize.toNat (numChannels * numGpus.toNat) index := by
    rw [← hr]
    exact chunkBytes_layout hchunks hgrid
  have hall : ∑ index ∈ Finset.range (numChannels * numGpus.toNat), r.chunkBytes index =
      dataSize.toNat := by
    rw [Finset.sum_congr rfl fun index _ => hbytes index]
    exact sum_portion hgrid _
  have hwalk : ∀ c, ∀ rank < r.numGpus, r.ringPos c rank < r.numGpus ∧
      r.ringPos c (r.ringNext c rank) = (r.ringPos c rank + 1) % r.numGpus := by
    intro c rank hrank
    rw [hplaces]
    exact walk_next (hcycle c) (by omega) hrank
  have hfields : r.numChannels = numChannels ∧ r.numNodes = numNodes.toNat ∧
      r.gpusPerNode = gpusPerNode.toNat ∧ r.dataSize = dataSize.toNat ∧
      r.totalSteps = 2 * (numGpus.toNat - 1) := by
    rw [← hr]
    exact ⟨rfl, rfl, rfl, rfl, rfl⟩
  obtain ⟨hC, hnn, hgpus, hd, hsteps⟩ := hfields
  refine
    { cycle := fun c _ => hcycle c
      places := fun c _ => hwalk c
      crossings := ?_
      rails := ?_
      sizes := by rw [hC, hn, hd, hall]
      expects := ?_
      passes := ?_
      sends := ?_ }
  · intro hnodes c _
    rw [hgpus, hn, ← hranks, hnn, hnext]
    rw [hnn] at hnodes
    exact card_leaves hg hnodes c
  · intro hnodes c hc c' hc' rank hrank hleaves hleaves'
    rw [hgpus, hnext] at hleaves hleaves'
    rw [hnn] at hnodes
    rw [hn, ← hranks] at hrank
    exact leaves_unique hg hnodes (by omega) (by omega) hrank hleaves hleaves'
  · intro c _ pred hpred step
    unfold expectedRecvBytes
    split
    · rename_i found hfound
      have hfits := List.find?_some hfound
      have hsame := of_decide_eq_true hfits
      have hlt := List.mem_range.mp (List.mem_of_find?_eq_some hfound)
      rw [(hcycle c).injective found hlt pred hpred hsame]
    · rename_i hnone
      have := List.find?_eq_none.mp hnone pred (List.mem_range.mpr hpred)
      exact absurd (decide_eq_true rfl) this
  · intro c _ rank hrank step
    unfold chunkOf
    rw [(hwalk c rank hrank).2]
    exact rotate_succ (by omega) step
  · have hstep : ∀ step ∈ Finset.range r.totalSteps, ∑ c ∈ Finset.range r.numChannels,
        ∑ rank ∈ Finset.range r.numGpus, r.chunkSizeOf c rank step = r.dataSize := by
      intro step _
      rw [hC, hd, ← hall, ← hn, sum_grid]
      refine Finset.sum_congr rfl ?_
      intro c _
      refine sum_chunkSizeOf ?_ (fun rank hrank => (hwalk c rank hrank).1) step
      intro rank hrank rank' hrank'
      rw [hplaces]
      exact walk_injective (hcycle c) (by omega) hrank hrank'
    rw [Finset.sum_congr rfl hstep, Finset.sum_const, Finset.card_range, hsteps, smul_eq_mul, hn]

end NcclRing

end ProtoBridge.Collective
