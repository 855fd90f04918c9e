import ProtoBridge.Endpoint.CollectiveSend

/-!
# The fragments of a collective upload

The guard and the loops work out the same cut. The fragments are all of the wire bytes and
all of the effective bytes, wherever the gate starts to refuse, and the guard aborts
exactly when the effective bytes of a chunk at some offset would not go into 32 bits.
-/

namespace ProtoBridge.Endpoint

open Lib Fabric

variable {γ : Type}

namespace CollectiveTransfer

variable {t : CollectiveTransfer} {devices : List UInt32} {nic : Nic} {i : Nat}

/-- An upload that the first two checks let through. -/
structure Valid (t : CollectiveTransfer) : Prop where
  effective : t.effectiveSize ≠ 0
  wire : t.wireSize ≠ 0
  service : t.wireSize.toNat ≤ 2 ^ 62
  spray : t.sprayChunkSize ≠ 0

theorem sendDevices_ne_nil : t.sendDevices nic ≠ [] := by
  rw [sendDevices]
  split
  · rename_i every
    simp [every.1]
  · exact nic.physicalDevicesForDest_ne_nil _

/-! ## The cut -/

theorem guardGeometry_eq : t.guardGeometry devices = t.geometry devices := rfl

/-- How many chunks there are before the cap of a body is looked at. -/
def spread (t : CollectiveTransfer) (devices : List UInt32) : Nat :=
  let wire := t.wireSize.toNat
  let sized := wire ⌈/⌉ t.sprayChunkSize.toNat
  let coalesced := wire ⌈/⌉ (8 * 1024 * 1024)
  if 512 * 1024 * 1024 < wire ∧ devices.length < coalesced then
    max devices.length (min sized (coalesced ⌈/⌉ devices.length * devices.length))
  else min (max devices.length sized) wire

/-- How many chunks there are at most. -/
def pieces (t : CollectiveTransfer) (devices : List UInt32) : Nat :=
  if t.wireSize.toNat ⌈/⌉ t.spread devices > 2 ^ 30 then
    max (t.spread devices) (t.wireSize.toNat ⌈/⌉ 2 ^ 30)
  else t.spread devices

/-- The wire bytes of a full chunk. -/
def chunkBytes (t : CollectiveTransfer) (devices : List UInt32) : Nat :=
  t.wireSize.toNat ⌈/⌉ t.pieces devices

theorem Valid.pos (h : t.Valid) : 0 < t.wireSize.toNat := UInt64.pos_iff_ne_zero.mpr h.wire

theorem Valid.spray_pos (h : t.Valid) : 0 < t.sprayChunkSize.toNat :=
  UInt32.pos_iff_ne_zero.mpr h.spray

theorem Valid.spread_pos (h : t.Valid) (some : devices ≠ []) : 0 < t.spread devices := by
  have links := List.length_pos_iff.mpr some
  have pos := h.pos
  rw [spread]
  split <;> omega

theorem Valid.spread_le (h : t.Valid) : t.spread devices ≤ t.wireSize.toNat := by
  have sized := @ceilDiv_le_self _ t.wireSize.toNat h.spray_pos
  have coalesced : t.wireSize.toNat ⌈/⌉ (8 * 1024 * 1024) ≤ t.wireSize.toNat :=
    ceilDiv_le_self (by decide)
  rw [spread]
  split <;> omega

theorem Valid.pieces_pos (h : t.Valid) (some : devices ≠ []) : 0 < t.pieces devices := by
  have spread := h.spread_pos some
  rw [pieces]
  split <;> omega

theorem Valid.pieces_le (h : t.Valid) : t.pieces devices ≤ t.wireSize.toNat := by
  have spread := @Valid.spread_le t devices h
  have body : t.wireSize.toNat ⌈/⌉ 2 ^ 30 ≤ t.wireSize.toNat := ceilDiv_le_self (by decide)
  rw [pieces]
  split <;> omega

theorem Valid.chunkBytes_pos (h : t.Valid) (some : devices ≠ []) : 0 < t.chunkBytes devices :=
  ceilDiv_pos (h.pieces_pos some) h.pos

theorem Valid.chunkBytes_le (h : t.Valid) (some : devices ≠ []) :
    t.chunkBytes devices ≤ 2 ^ 30 := by
  have pos := h.pieces_pos some
  rw [chunkBytes]
  rw [pieces] at pos ⊢
  split at pos
  · rename_i large
    rw [if_pos large, ceilDiv_le_iff_le_mul pos, Nat.mul_comm]
    have enough : t.wireSize.toNat ≤ 2 ^ 30 * (t.wireSize.toNat ⌈/⌉ 2 ^ 30) :=
      le_mul_ceilDiv (by decide)
    exact Nat.le_trans enough (Nat.mul_le_mul_left _ (Nat.le_max_right _ _))
  · rename_i fits
    rw [if_neg fits]
    exact Nat.not_lt.mp fits

theorem Valid.chunkBytes_le_wire (h : t.Valid) (some : devices ≠ []) :
    t.chunkBytes devices ≤ t.wireSize.toNat := ceilDiv_le_self (h.pieces_pos some)

/-! ## The cut of the code -/

theorem Valid.geometry_eq (h : t.Valid) (some : devices ≠ []) :
    t.geometry devices = (t.pieces devices, t.chunkBytes devices) := by
  have pos := h.pos
  have service := h.service
  have links := List.length_pos_iff.mpr some
  have spray := t.sprayChunkSize.toNat_lt
  have sized : ceilDiv64 t.wireSize.toNat t.sprayChunkSize.toNat =
      t.wireSize.toNat ⌈/⌉ t.sprayChunkSize.toNat := ceilDiv64_eq (by omega) (by omega)
  have coalesced : ceilDiv64 t.wireSize.toNat (8 * 1024 * 1024) =
      t.wireSize.toNat ⌈/⌉ (8 * 1024 * 1024) := ceilDiv64_eq (by omega) (by omega)
  have body : ceilDiv64 t.wireSize.toNat (2 ^ 30) = t.wireSize.toNat ⌈/⌉ 2 ^ 30 :=
    ceilDiv64_eq (by omega) (by omega)
  have few : t.wireSize.toNat ⌈/⌉ (8 * 1024 * 1024) ≤ t.wireSize.toNat := ceilDiv_le_self (by decide)
  have spread_le := @Valid.spread_le t devices h
  have pieces_le := @Valid.pieces_le t devices h
  have first : ceilDiv64 t.wireSize.toNat (t.spread devices) =
      t.wireSize.toNat ⌈/⌉ t.spread devices := ceilDiv64_eq (by omega) (by omega)
  have last : ceilDiv64 t.wireSize.toNat (t.pieces devices) = t.chunkBytes devices :=
    ceilDiv64_eq (by omega) (by omega)
  have count : (if t.wireSize.toNat > 512 * 1024 * 1024 ∧
        t.wireSize.toNat ⌈/⌉ (8 * 1024 * 1024) > devices.length then
      max devices.length (min (t.wireSize.toNat ⌈/⌉ t.sprayChunkSize.toNat)
        (mul64 (ceilDiv64 (t.wireSize.toNat ⌈/⌉ (8 * 1024 * 1024)) devices.length)
          devices.length))
      else min (max devices.length (t.wireSize.toNat ⌈/⌉ t.sprayChunkSize.toNat))
        (max t.wireSize.toNat 1)) = t.spread devices := by
    rw [spread]
    split
    · rename_i large
      have round := @mul_ceilDiv_lt devices.length (t.wireSize.toNat ⌈/⌉ (8 * 1024 * 1024)) links
      rw [Nat.mul_comm] at round
      rw [ceilDiv64_eq (by omega) (by omega), mul64, Nat.mod_eq_of_lt (by omega)]
    · rename_i small
      rw [Nat.max_eq_left pos]
  rw [geometry]
  dsimp only
  rw [sized, coalesced, body, count, first]
  rw [pieces] at last ⊢
  split
  · rename_i large
    rw [if_pos large] at last
    rw [last]
  · rename_i fits
    rw [if_neg fits] at last
    rw [← last, first]

/-! ## The guard -/

theorem Valid.effective_mul (h : t.Valid) {n : Nat} (hn : n ≤ t.wireSize.toNat) :
    t.effectiveSize.toNat * n < 2 ^ 126 := by
  have service := h.service
  calc t.effectiveSize.toNat * n ≤ t.effectiveSize.toNat * 2 ^ 62 :=
        Nat.mul_le_mul_left _ (Nat.le_trans hn service)
    _ < 2 ^ 64 * 2 ^ 62 := Nat.mul_lt_mul_of_pos_right t.effectiveSize.toNat_lt (by decide)
    _ = 2 ^ 126 := by decide

theorem Valid.part_le (h : t.Valid) {n : Nat} (hn : n ≤ t.wireSize.toNat) :
    t.effectiveSize.toNat * n / t.wireSize.toNat ≤ t.effectiveSize.toNat := by
  rw [Nat.div_le_iff_le_mul_add_pred h.pos]
  have := Nat.mul_le_mul_left t.effectiveSize.toNat hn
  rw [Nat.mul_comm t.wireSize.toNat]
  omega

/-- The bytes of a full chunk, where an upload that is not cut has one. -/
def span (t : CollectiveTransfer) (devices : List UInt32) : Nat :=
  if t.needFragment devices then t.chunkBytes devices else t.wireSize.toNat

theorem Valid.guardShare_iff (h : t.Valid) (some : devices ≠ []) :
    ((t.guardShare devices).1 > maxServicableEffectiveShare ∨
      ((t.guardShare devices).2 ≠ 0 ∧ (t.guardShare devices).1 = maxServicableEffectiveShare)) ↔
      maxServicableEffectiveShare * t.wireSize.toNat <
        t.effectiveSize.toNat * t.chunkBytes devices := by
  have inside := h.chunkBytes_le_wire some
  have small := h.effective_mul inside
  have part := h.part_le inside
  have bound := t.effectiveSize.toNat_lt
  have geometry : (t.guardGeometry devices).2 = t.chunkBytes devices := by
    rw [guardGeometry_eq, h.geometry_eq some]
  rw [guardShare, geometry, Nat.mod_eq_of_lt (Nat.lt_trans small (by decide)),
    Nat.max_eq_left h.pos, Nat.mod_eq_of_lt (by omega)]
  exact lt_div_or_mod_iff h.pos

theorem Valid.check_iff (h : t.Valid) (some : devices ≠ []) :
    t.check devices = .ok () ↔
      t.effectiveSize.toNat * t.span devices ≤ maxServicableEffectiveShare * t.wireSize.toNat := by
  have pos := h.pos
  have inside := Nat.mul_le_mul_left t.effectiveSize.toNat (h.chunkBytes_le_wire some)
  have nonzero : ¬(t.effectiveSize = 0 ∨ t.wireSize = 0) := by
    rintro (none | none)
    · exact h.effective none
    · exact h.wire none
  rw [check, if_neg nonzero, if_neg (Nat.not_lt.mpr h.service), span]
  simp only [h.guardShare_iff some]
  by_cases cut : t.needFragment devices
  · have unasked : ¬(!t.needFragment devices ∧
        t.effectiveSize.toNat > maxServicableEffectiveShare) := by
      simp [cut]
    rw [if_pos cut, if_neg unasked]
    split
    · rename_i large
      simp only [reduceCtorEq, false_iff]
      exact Nat.not_le.mpr large
    · rename_i fits
      simp only [true_iff]
      exact Nat.not_lt.mp fits
  -- the first guard is never the stricter one here
  · rw [if_neg cut, Nat.mul_le_mul_right_iff pos]
    split
    · rename_i large
      simp only [reduceCtorEq, false_iff]
      intro le
      have := Nat.mul_le_mul_right t.wireSize.toNat le
      omega
    · split
      · rename_i large
        simp only [reduceCtorEq, false_iff]
        exact Nat.not_le.mpr large.2
      · rename_i fits
        simp only [true_iff]
        by_contra more
        exact fits ⟨by simp [cut], Nat.not_le.mp more⟩

theorem Valid.check_error_iff (h : t.Valid) (some : devices ≠ []) :
    (∃ e, t.check devices = .error e) ↔
      ∃ a < t.wireSize.toNat, maxServicableEffectiveShare <
        share t.effectiveSize.toNat t.wireSize.toNat a (a + t.span devices) := by
  rw [exists_share_gt_iff h.pos, ← Nat.not_le, ← h.check_iff some]
  cases hcheck : t.check devices with
  | ok u => simp
  | error e => simp

/-! ## The fragments -/

/-- The wire bytes, the effective bytes and the link of the `i`-th fragment. -/
def fragment (t : CollectiveTransfer) (devices : List UInt32) (offset : UInt32) (i : Nat) :
    Nat × Nat × UInt32 :=
  let c := t.chunkBytes devices
  let wire := t.wireSize.toNat
  (chunk c wire i, share t.effectiveSize.toNat wire (min (i * c) wire) (min ((i + 1) * c) wire),
    sprayDevice devices offset i)

/-- How many fragments there are. -/
def count (t : CollectiveTransfer) (devices : List UInt32) : Nat :=
  t.wireSize.toNat ⌈/⌉ t.chunkBytes devices

/-- The fragments of an upload. -/
def fragments (t : CollectiveTransfer) (devices : List UInt32) (offset : UInt32) :
    List (Nat × Nat × UInt32) :=
  (List.range (t.count devices)).map (t.fragment devices offset)

variable {offset : UInt32}

theorem Valid.fragments_wire (h : t.Valid) (some : devices ≠ []) :
    ((t.fragments devices offset).map fun f => f.1).sum = t.wireSize.toNat := by
  have all : t.wireSize.toNat ≤ t.count devices * t.chunkBytes devices := by
    rw [Nat.mul_comm]
    exact le_mul_ceilDiv (h.chunkBytes_pos some)
  have sum := sum_chunks (t.chunkBytes devices) t.wireSize.toNat (t.count devices)
  rw [Nat.min_eq_right all] at sum
  rw [fragments, List.map_map]
  exact sum

theorem Valid.fragments_effective (h : t.Valid) (some : devices ≠ []) :
    ((t.fragments devices offset).map fun f => f.2.1).sum = t.effectiveSize.toNat := by
  have all : t.wireSize.toNat ≤ t.count devices * t.chunkBytes devices := by
    rw [Nat.mul_comm]
    exact le_mul_ceilDiv (h.chunkBytes_pos some)
  have sum := sum_shares t.effectiveSize.toNat t.wireSize.toNat (t.chunkBytes devices)
    (t.count devices)
  rw [Nat.min_eq_right all, share_zero, Nat.mul_div_cancel _ h.pos] at sum
  rw [fragments, List.map_map]
  exact sum

theorem Valid.wire_pos (h : t.Valid) (some : devices ≠ []) (hi : i < t.count devices) :
    0 < (t.fragment devices offset i).1 :=
  chunk_pos (h.chunkBytes_pos some) ((lt_ceilDiv (h.chunkBytes_pos some)).mp hi)

theorem Valid.wire_le (h : t.Valid) (some : devices ≠ []) :
    (t.fragment devices offset i).1 ≤ 2 ^ 30 :=
  Nat.le_trans chunk_le (h.chunkBytes_le some)

theorem Valid.effective_lt (h : t.Valid) (some : devices ≠ []) (cut : t.needFragment devices)
    (checked : t.check devices = .ok ()) (hi : i < t.count devices) :
    (t.fragment devices offset i).2.1 < 2 ^ 32 := by
  have inside : i * t.chunkBytes devices < t.wireSize.toNat :=
    (lt_ceilDiv (h.chunkBytes_pos some)).mp hi
  have fits := (h.check_iff some).mp checked
  rw [span, if_pos cut] at fits
  have share_le' : share t.effectiveSize.toNat t.wireSize.toNat (i * t.chunkBytes devices)
      (i * t.chunkBytes devices + t.chunkBytes devices) ≤ maxServicableEffectiveShare :=
    share_le h.pos fits
  show share t.effectiveSize.toNat t.wireSize.toNat (min (i * t.chunkBytes devices) _)
    (min ((i + 1) * t.chunkBytes devices) _) < 2 ^ 32
  rw [Nat.min_eq_left (Nat.le_of_lt inside)]
  apply Nat.lt_of_le_of_lt _ (Nat.lt_of_le_of_lt share_le' (by decide))
  apply share_mono
  rw [Nat.add_mul, Nat.one_mul]
  exact Nat.min_le_left _ _

/-! ## The fragments of the code -/

theorem Valid.mul64_eq (h : t.Valid) (some : devices ≠ []) (hi : i ≤ t.pieces devices) :
    mul64 i (t.chunkBytes devices) = i * t.chunkBytes devices := by
  have service := h.service
  have le := @Valid.pieces_le t devices h
  have last : t.pieces devices * t.chunkBytes devices < t.wireSize.toNat + t.pieces devices :=
    mul_ceilDiv_lt (h.pieces_pos some)
  have small : i * t.chunkBytes devices ≤ t.pieces devices * t.chunkBytes devices :=
    Nat.mul_le_mul_right _ hi
  rw [mul64, Nat.mod_eq_of_lt (by omega)]

theorem Valid.count_le (h : t.Valid) (some : devices ≠ []) :
    t.count devices ≤ t.pieces devices :=
  ceilDiv_ceilDiv_le (h.pieces_pos some) h.pos

theorem Valid.effectiveAt_eq (h : t.Valid) {n : Nat} (hn : n ≤ t.wireSize.toNat) :
    t.effectiveAt n = t.effectiveSize.toNat * n / t.wireSize.toNat := by
  have small := h.effective_mul hn
  have part := h.part_le hn
  have bound := t.effectiveSize.toNat_lt
  rw [effectiveAt, Nat.mod_eq_of_lt (Nat.lt_trans small (by decide)), Nat.max_eq_left h.pos,
    Nat.mod_eq_of_lt (by omega)]

theorem Valid.packetAt_eq (h : t.Valid) (some : devices ≠ []) (cut : t.needFragment devices)
    (checked : t.check devices = .ok ()) (hi : i < t.count devices) (seqNum : UInt32) :
    let p := t.packetAt nic (t.chunkBytes devices) (mul64 i (t.chunkBytes devices)) seqNum
    p.header.payloadSize.toNat = (t.fragment devices offset i).1 ∧
      p.header.effectiveDataSize.toNat = (t.fragment devices offset i).2.1 := by
  have service := h.service
  have inside : i * t.chunkBytes devices < t.wireSize.toNat :=
    (lt_ceilDiv (h.chunkBytes_pos some)).mp hi
  have few := h.count_le some
  have cap := h.chunkBytes_le some
  have span : wadd 64 (i * t.chunkBytes devices) (t.chunkBytes devices) =
      (i + 1) * t.chunkBytes devices := by
    rw [wadd_eq (by omega), Nat.add_mul, Nat.one_mul]
  have effective := @Valid.effective_lt t devices i offset h some cut checked hi
  have wire := @Valid.wire_le t devices i offset h some
  have bound := t.effectiveSize.toNat_lt
  have first := h.part_le (Nat.le_of_lt inside)
  have second := h.part_le (Nat.min_le_right ((i + 1) * t.chunkBytes devices) t.wireSize.toNat)
  have grow : i * t.chunkBytes devices ≤ min ((i + 1) * t.chunkBytes devices) t.wireSize.toNat := by
    rw [Nat.add_mul, Nat.one_mul]
    omega
  have grown := Nat.div_le_div_right (c := t.wireSize.toNat)
    (Nat.mul_le_mul_left t.effectiveSize.toNat grow)
  rw [h.mul64_eq some (by omega)]
  constructor
  · exact UInt32.toNat_ofNat_of_lt' (Nat.lt_of_le_of_lt wire (by decide))
  · show (UInt32.ofNat (wsub 64 (t.effectiveAt (min (wadd 64 _ _) _)) (t.effectiveAt _))).toNat = _
    rw [span, h.effectiveAt_eq (Nat.min_le_right _ _), h.effectiveAt_eq (Nat.le_of_lt inside),
      wsub_eq grown (by omega)]
    have same : (t.fragment devices offset i).2.1 =
        t.effectiveSize.toNat * min ((i + 1) * t.chunkBytes devices) t.wireSize.toNat /
          t.wireSize.toNat - t.effectiveSize.toNat * (i * t.chunkBytes devices) /
          t.wireSize.toNat := by
      rw [fragment, share, Nat.min_eq_left (Nat.le_of_lt inside)]
    rw [same] at effective ⊢
    exact UInt32.toNat_ofNat_of_lt' effective

/-- The indices a loop goes through. -/
def turns (t : CollectiveTransfer) (chunkSize left i : Nat) : List Nat :=
  walk (fun i => mul64 i chunkSize ≥ t.wireSize.toNat) (fun _ => False) left i

theorem Valid.turns_eq (h : t.Valid) (some : devices ≠ []) :
    t.turns (t.chunkBytes devices) (t.pieces devices) 0 = List.range (t.count devices) := by
  have few := h.count_le some
  rw [turns, walk_eq (s := t.count devices) (d := t.pieces devices)]
  · rw [show min (t.pieces devices) (min (t.count devices) (t.pieces devices) - 0) =
      t.count devices by omega, List.range_eq_range']
  · intro j hj
    rw [h.mul64_eq some (by omega), ge_iff_le, count, ← Nat.not_lt, ← Nat.not_lt,
      lt_ceilDiv (h.chunkBytes_pos some)]
  · intro j hj
    simp only [false_iff]
    omega

end CollectiveTransfer

namespace BulkEndpoint

variable {nic : Nic} {w : World γ} {σ τ : BulkEndpoint γ} {t : CollectiveTransfer}
  {devices : List UInt32} {chunkSize : Nat}

theorem remainingChunks_emits (left i : Nat) (σ : BulkEndpoint γ) :
    Emits t.key (fun i => t.packetAt nic chunkSize (mul64 i chunkSize)) devices
      (t.turns chunkSize left i) σ (remainingChunks nic w t devices chunkSize left i σ) := by
  induction left generalizing i σ with
  | zero => exact .done σ σ.world
  | succ left ih =>
      rw [remainingChunks, CollectiveTransfer.turns, walk]
      dsimp only
      split
      · exact ih (i + 1) σ
      · rw [if_neg not_false]
        exact .turn i _ σ _ _ _ (by simp [takeSeqNum]) (ih (i + 1) _)

theorem chunkLoop_emits (left i : Nat) (σ : BulkEndpoint γ) :
    Emits t.key (fun i => t.packetAt nic chunkSize (mul64 i chunkSize)) devices
      (t.turns chunkSize left i) σ (chunkLoop nic w t devices chunkSize left i σ) := by
  induction left generalizing i σ with
  | zero => exact .done σ σ.world
  | succ left ih =>
      rw [chunkLoop, CollectiveTransfer.turns, walk]
      dsimp only
      split
      · exact ih (i + 1) σ
      · rw [if_neg not_false]
        split
        · -- the gate has not admitted this one: the rest is queued behind it
          apply Emits.world
          exact .turn i _ σ _ _ _ (by simp [takeSeqNum]) (remainingChunks_emits left (i + 1) _)
        · exact .turn i _ σ _ _ _ (by simp [takeSeqNum]) (ih (i + 1) _)

end BulkEndpoint

/-! ## Uploads -/

/-- What a packet on a link carries: wire bytes, effective bytes, the link. -/
def FabricPacket.load (p : FabricPacket × UInt32) : Nat × Nat × UInt32 :=
  (p.1.header.payloadSize.toNat, p.1.header.effectiveDataSize.toNat, p.2)

/-- An upload has gone out, or onto the send queue, without a loss. -/
structure Uploaded (nic : Nic) (t : CollectiveTransfer) (σ τ : BulkEndpoint γ) : Prop where
  wire : ((packetsSince σ τ).map fun p => p.1.header.payloadSize.toNat).sum = t.wireSize.toNat
  effective : ((packetsSince σ τ).map fun p => p.1.header.effectiveDataSize.toNat).sum =
    t.effectiveSize.toNat
  body : ∀ p ∈ packetsSince σ τ, 1 ≤ p.1.header.payloadSize.toNat ∧
    p.1.header.payloadSize.toNat ≤ 2 ^ 30 ∧ p.1.zeros = p.1.header.payloadSize
  cut : t.needFragment (t.sendDevices nic) → (packetsSince σ τ).map FabricPacket.load =
    t.fragments (t.sendDevices nic) σ.globalSprayOffset
  uncut : ¬t.needFragment (t.sendDevices nic) → ∃ link, (packetsSince σ τ).map FabricPacket.load =
    [(t.wireSize.toNat, t.effectiveSize.toNat, link)]
  numbers : (packetsSince σ τ).map (fun p => p.1.header.sequenceNumber) =
    (List.range (packetsSince σ τ).length).map fun k => σ.nextSeqNum t.key + UInt32.ofNat k
  flow : ∀ p ∈ packetsSince σ τ, p.1.header.packetType = t.packetType ∧
    (⟨p.1.header.destRank, p.1.header.virtualChannel, p.1.header.flowId⟩ : FlowKey) = t.key

namespace BulkEndpoint

variable {nic : Nic} {w : World γ} {σ : BulkEndpoint γ} {t : CollectiveTransfer}

theorem chunkLoop_packets (h : t.Valid) :
    packetsSince σ ((chunkLoop nic w t (t.sendDevices nic) (t.chunkBytes (t.sendDevices nic))
        (t.pieces (t.sendDevices nic)) 0 σ).advanceSpray (t.pieces (t.sendDevices nic))
        (t.sendDevices nic)) =
      (numberedFrom (σ.nextSeqNum t.key) (List.range (t.count (t.sendDevices nic)))).map fun p =>
        (t.packetAt nic (t.chunkBytes (t.sendDevices nic))
          (mul64 p.1 (t.chunkBytes (t.sendDevices nic))) p.2,
          sprayDevice (t.sendDevices nic) σ.globalSprayOffset p.1) := by
  obtain ⟨more, log, -, packets, -⟩ := (@chunkLoop_emits _ nic w t (t.sendDevices nic)
    (t.chunkBytes (t.sendDevices nic)) (t.pieces (t.sendDevices nic)) 0 σ).packets
  rw [h.turns_eq CollectiveTransfer.sendDevices_ne_nil] at packets
  have all : since σ ((chunkLoop nic w t (t.sendDevices nic) (t.chunkBytes (t.sendDevices nic))
      (t.pieces (t.sendDevices nic)) 0 σ).advanceSpray (t.pieces (t.sendDevices nic))
      (t.sendDevices nic)) = more := since_eq log
  rw [packetsSince, all]
  exact packets

theorem uploaded_cut (h : t.Valid) (cut : t.needFragment (t.sendDevices nic))
    (checked : t.check (t.sendDevices nic) = .ok ()) :
    Uploaded nic t σ ((chunkLoop nic w t (t.sendDevices nic) (t.chunkBytes (t.sendDevices nic))
        (t.pieces (t.sendDevices nic)) 0 σ).advanceSpray (t.pieces (t.sendDevices nic))
        (t.sendDevices nic)) := by
  have some : t.sendDevices nic ≠ [] := CollectiveTransfer.sendDevices_ne_nil
  have packets := @chunkLoop_packets _ nic w σ t h
  have loads : (packetsSince σ ((chunkLoop nic w t (t.sendDevices nic)
        (t.chunkBytes (t.sendDevices nic)) (t.pieces (t.sendDevices nic)) 0 σ).advanceSpray
        (t.pieces (t.sendDevices nic)) (t.sendDevices nic))).map FabricPacket.load =
      t.fragments (t.sendDevices nic) σ.globalSprayOffset := by
    rw [packets, List.map_map, CollectiveTransfer.fragments]
    conv_rhs => rw [← numberedFrom_fst (σ.nextSeqNum t.key) (List.range _), List.map_map]
    apply List.map_congr_left
    intro p hp
    have inside := List.mem_map_of_mem (f := Prod.fst) hp
    rw [numberedFrom_fst, List.mem_range] at inside
    obtain ⟨wire, effective⟩ := @CollectiveTransfer.Valid.packetAt_eq t _ nic p.1
      σ.globalSprayOffset h some cut checked inside p.2
    exact Prod.ext wire (Prod.ext effective rfl)
  constructor
  · rw [← @CollectiveTransfer.Valid.fragments_wire t _ σ.globalSprayOffset h some, ← loads,
      List.map_map]
    rfl
  · rw [← @CollectiveTransfer.Valid.fragments_effective t _ σ.globalSprayOffset h some, ← loads,
      List.map_map]
    rfl
  · intro p hp
    have member := List.mem_map_of_mem (f := FabricPacket.load) hp
    rw [loads] at member
    obtain ⟨i, hi, same⟩ := List.mem_map.mp member
    rw [List.mem_range] at hi
    have wire : (t.fragment (t.sendDevices nic) σ.globalSprayOffset i).1 =
      p.1.header.payloadSize.toNat := congrArg Prod.fst same
    rw [← wire]
    refine ⟨h.wire_pos some hi, h.wire_le some, ?_⟩
    rw [packets] at hp
    obtain ⟨q, -, rfl⟩ := List.mem_map.mp hp
    rfl
  · exact fun _ => loads
  · exact fun uncut => absurd cut uncut
  · rw [packets, List.map_map, List.length_map]
    have seqs := numberedFrom_snd (σ.nextSeqNum t.key) (List.range (t.count (t.sendDevices nic)))
    have length := congrArg List.length
      (numberedFrom_fst (σ.nextSeqNum t.key) (List.range (t.count (t.sendDevices nic))))
    rw [List.length_map] at length
    rw [length, ← seqs]
    rfl
  · intro p hp
    rw [packets] at hp
    obtain ⟨q, -, rfl⟩ := List.mem_map.mp hp
    exact ⟨rfl, rfl⟩

theorem sendSingleCollective_packets :
    ∃ link, packetsSince σ (sendSingleCollective nic w t σ) =
      [(t.packet nic (UInt32.ofNat t.wireSize.toNat) (UInt32.ofNat t.effectiveSize.toNat)
        (σ.nextSeqNum t.key), link)] := by
  have two {υ : BulkEndpoint γ} {o : BulkObs} {q : FabricPacket × UInt32}
      (log : υ.log = (σ.takeSeqNum t.key).1.log ++ [o]) (hq : o.packet = some q) :
      packetsSince σ υ = [q] := by
    have all : υ.log = σ.log ++ [.numbered t.key (σ.nextSeqNum t.key), o] := by
      rw [log]
      simp [takeSeqNum]
    rw [packetsSince, since_eq all, List.filterMap_cons_none rfl, List.filterMap_cons_some hq]
    rfl
  rw [sendSingleCollective]
  dsimp only
  split
  · split
    · exact ⟨_, two rfl rfl⟩
    · generalize (if nic.deviceCount = 0 then 0 else UInt32.ofNat _) = deviceIdx
      split
      · exact ⟨_, two rfl rfl⟩
      · exact ⟨_, two rfl rfl⟩
  · exact ⟨_, two rfl rfl⟩

theorem uploaded_uncut (h : t.Valid) (uncut : ¬t.needFragment (t.sendDevices nic))
    (checked : t.check (t.sendDevices nic) = .ok ()) :
    Uploaded nic t σ (sendSingleCollective nic w t σ) := by
  obtain ⟨link, packets⟩ := @sendSingleCollective_packets _ nic w σ t
  have fits := (h.check_iff CollectiveTransfer.sendDevices_ne_nil).mp checked
  rw [CollectiveTransfer.span, if_neg uncut, Nat.mul_le_mul_right_iff h.pos,
    CollectiveTransfer.maxServicableEffectiveShare] at fits
  have limit : t.wireSize.toNat ≤ 500 * 1024 * 1024 := by
    simp only [CollectiveTransfer.needFragment, gt_iff_lt, decide_eq_true_eq, not_or,
      Nat.not_lt] at uncut
    exact uncut.2
  have pos := h.pos
  have wire : (UInt32.ofNat t.wireSize.toNat).toNat = t.wireSize.toNat :=
    UInt32.toNat_ofNat_of_lt' (show _ < 2 ^ 32 by omega)
  have effective : (UInt32.ofNat t.effectiveSize.toNat).toNat = t.effectiveSize.toNat :=
    UInt32.toNat_ofNat_of_lt' (show _ < 2 ^ 32 by omega)
  constructor
  · rw [packets]
    simpa [CollectiveTransfer.packet] using wire
  · rw [packets]
    simpa [CollectiveTransfer.packet] using effective
  · intro p hp
    rw [packets, List.mem_singleton] at hp
    subst hp
    refine ⟨?_, ?_, rfl⟩
    · show 1 ≤ (UInt32.ofNat t.wireSize.toNat).toNat
      omega
    · show (UInt32.ofNat t.wireSize.toNat).toNat ≤ 2 ^ 30
      omega
  · exact fun cut => absurd cut uncut
  · intro _
    refine ⟨link, ?_⟩
    rw [packets]
    show [((UInt32.ofNat t.wireSize.toNat).toNat, (UInt32.ofNat t.effectiveSize.toNat).toNat,
      link)] = _
    rw [wire, effective]
  · rw [packets]
    simp [CollectiveTransfer.packet]
  · intro p hp
    rw [packets, List.mem_singleton] at hp
    subst hp
    exact ⟨rfl, rfl⟩

end BulkEndpoint

theorem BulkEndpoint.sendCollectiveBulk_error_iff {nic : Nic} {w : World γ}
    {σ : BulkEndpoint γ} {t : CollectiveTransfer} :
    (∃ e, sendCollectiveBulk nic w t σ = .error e) ↔
      ∃ e, t.check (t.sendDevices nic) = .error e := by
  rw [sendCollectiveBulk]
  cases hcheck : t.check (t.sendDevices nic) with
  | error e =>
      constructor
      · intro _
        exact ⟨e, rfl⟩
      · intro _
        exact ⟨e, rfl⟩
  | ok u =>
      constructor
      · rintro ⟨e, failed⟩
        by_cases cut : t.needFragment (t.sendDevices nic)
        · rw [if_pos cut] at failed
          cases failed
        · rw [if_neg cut] at failed
          cases failed
      · rintro ⟨e, failed⟩
        cases failed

theorem BulkEndpoint.sendCollectiveBulk_uploaded {nic : Nic} {w : World γ}
    {σ τ : BulkEndpoint γ} {t : CollectiveTransfer} (h : t.Valid)
    (hτ : sendCollectiveBulk nic w t σ = .ok τ) : Uploaded nic t σ τ := by
  rw [sendCollectiveBulk] at hτ
  obtain ⟨u, checked, rest⟩ := bind_eq_ok.mp hτ
  by_cases cut : t.needFragment (t.sendDevices nic)
  · rw [if_pos cut, h.geometry_eq CollectiveTransfer.sendDevices_ne_nil] at rest
    obtain rfl := Except.ok.inj rest
    exact uploaded_cut h cut checked
  · rw [if_neg cut] at rest
    obtain rfl := Except.ok.inj rest
    exact uploaded_uncut h cut checked

/-- A collective upload is cut without a loss, whatever the gate does; and it aborts exactly if the
share of a chunk could be too large for its header field. -/
theorem collective_upload (nic : Nic) (w : World γ) {t : CollectiveTransfer} (h : t.Valid)
    (σ : BulkEndpoint γ) :
    t.guardGeometry (t.sendDevices nic) = t.geometry (t.sendDevices nic) ∧
      ((∃ e, BulkEndpoint.sendCollectiveBulk nic w t σ = .error e) ↔
        ∃ a < t.wireSize.toNat, CollectiveTransfer.maxServicableEffectiveShare <
          share t.effectiveSize.toNat t.wireSize.toNat a (a + t.span (t.sendDevices nic))) ∧
      ∀ τ, BulkEndpoint.sendCollectiveBulk nic w t σ = .ok τ → Uploaded nic t σ τ := by
  refine ⟨CollectiveTransfer.guardGeometry_eq, ?_, ?_⟩
  · rw [BulkEndpoint.sendCollectiveBulk_error_iff]
    exact h.check_error_iff CollectiveTransfer.sendDevices_ne_nil
  · intro τ hτ
    exact BulkEndpoint.sendCollectiveBulk_uploaded h hτ

/-- Ten effective bytes in four on the wire. -/
def tenInFour : CollectiveTransfer :=
  { packetType := .allReduce, destRank := 7, effectiveSize := 10, wireSize := 4, sprayChunkSize := 2 }

/-- An endpoint with two links to the switch. -/
def switchNic : Nic :=
  { rank := 0
    address := 1
    localRankBase := 0
    localRankCount := 8
    fabricType := .nvlink
    interNodeFabricType := .roce
    neighborMacTable := fun _ => none
    routingDevicesTable := fun _ => some [0, 1]
    laneGroups := fun _ => none
    routingTable := fun _ => none
    deviceCount := 2 }

theorem collective_upload_tenInFour :
    tenInFour.guardGeometry [0, 1] = tenInFour.geometry [0, 1] ∧
      ((∃ e, BulkEndpoint.sendCollectiveBulk switchNic openWorld tenInFour { world := () } = .error e) ↔
        ∃ a < 4, CollectiveTransfer.maxServicableEffectiveShare <
          share 10 4 a (a + tenInFour.span [0, 1])) ∧
      ∀ τ, BulkEndpoint.sendCollectiveBulk switchNic openWorld tenInFour { world := () } = .ok τ →
        Uploaded switchNic tenInFour { world := () } τ :=
  collective_upload switchNic openWorld ⟨by decide, by decide, by decide, by decide⟩ { world := () }

end ProtoBridge.Endpoint
