import ProtoBridge.Endpoint.BulkFragments
import ProtoBridge.Endpoint.BulkWindow

/-!
# Bulk transfers on every path

A transfer is cut into the same fragments whether its chunks wait for the window, go out
at once, or are queued behind one that was not admitted. On the direct path they are
numbered one after another when they are cut. Behind the window a chunk gets the next
number of its flow when it is dispatched, so packets of the flow that go out in between
stand between the numbers.
-/

namespace ProtoBridge.Endpoint

open Lib Fabric

variable {γ : Type}

/-! ## The turns are the fragments -/

/-- The fragment that a chunk becomes. -/
def BulkTxChunk.fragment (c : BulkTxChunk) : Fragment :=
  let framed := c.stamp && decide (c.wireChunk > soHeaderSize)
  { wire := c.wireChunk.toNat
    data := c.fragmentDataSize.toNat
    link := c.deviceIndex
    framed
    chunkIndex := if framed then some c.chunkIndex else none }

theorem setProtocolFramed_isProtocolFramed (h : Header) (framed : Bool) :
    (h.setProtocolFramed framed).isProtocolFramed = framed := by
  have set : ∀ b : UInt8, (b ||| 0x80) &&& 0x80 = 0x80 := by
    intro b
    apply UInt8.toBitVec_inj.mp
    ext i
    simp
    tauto
  have unset : ∀ b : UInt8, b &&& ~~~0x80 &&& 0x80 = 0 := by
    intro b
    rw [UInt8.and_assoc]
    exact UInt8.and_zero
  cases framed with
  | true =>
      show ((h.virtualLaneByte ||| 0x80) &&& 0x80 != 0) = true
      rw [set]
      decide
  | false =>
      show (h.virtualLaneByte &&& ~~~0x80 &&& 0x80 != 0) = false
      rw [unset]
      decide

theorem directPacket_fragment (nic : Nic) (t : BulkTransfer) (wire data : UInt32) (i : Nat)
    (seqNum deviceIndex : UInt32) :
    (BulkEndpoint.directPacket nic t wire data i seqNum).fragment deviceIndex =
      { wire := wire.toNat
        data := data.toNat
        link := deviceIndex
        framed := t.stampSoHeader && decide (wire > soHeaderSize)
        chunkIndex :=
          if t.stampSoHeader && decide (wire > soHeaderSize) then some (UInt32.ofNat i)
          else none } := by
  rw [FabricPacket.fragment, BulkEndpoint.directPacket]
  dsimp only
  rw [setProtocolFramed_isProtocolFramed]
  congr 1
  · dsimp only [Header.setProtocolFramed]
    split <;> rfl
  · dsimp only [Header.setProtocolFramed]
    split <;> rfl
  · split <;> rfl

namespace BulkTransfer

variable {t : BulkTransfer} {devices : List UInt32} {i : Nat}

theorem Valid.toNat_wire (h : t.Valid) (hi : i < t.count devices) :
    (UInt32.ofNat (min (t.wireChunkSize devices)
      (t.wireSize - mul64 i (t.wireChunkSize devices)))).toNat =
      chunk (t.fullWire devices) t.wireSize i := by
  have inside : i ≤ t.pieces devices :=
    Nat.le_trans (Nat.le_of_lt hi) (Nat.le_trans h.count_le h.wireCount_le)
  have small : chunk (t.fullWire devices) t.wireSize i ≤ t.fullWire devices := chunk_le
  have fits := @Valid.fullWire_le t devices h
  have limit := t.chunkLimit.le
  rw [h.wireChunkSize_eq, h.mul64_eq inside (Nat.le_refl _)]
  exact UInt32.toNat_ofNat_of_lt' (by rw [chunk] at small; show _ < 2 ^ 32; omega)

theorem Valid.toNat_data (h : t.Valid) (hi : i < t.count devices) :
    (UInt32.ofNat (min (t.dataChunkSize devices)
      (t.dataSize - mul64 i (t.dataChunkSize devices)))).toNat =
      chunk (t.fullData devices) t.dataSize i := by
  have inside : i ≤ t.pieces devices :=
    Nat.le_trans (Nat.le_of_lt hi) (Nat.le_trans h.count_le h.wireCount_le)
  have small : chunk (t.fullData devices) t.dataSize i ≤ t.fullData devices := chunk_le
  have room := @Valid.fullData_le t devices h
  have fits := @Valid.fullWire_le t devices h
  have limit := t.chunkLimit.le
  rw [h.dataChunkSize_eq, h.mul64_eq inside room]
  exact UInt32.toNat_ofNat_of_lt' (by rw [chunk] at small; show _ < 2 ^ 32; omega)

theorem Valid.turns_eq (h : t.Valid) :
    t.turns devices (t.numChunks devices) 0 = List.range (t.count devices) := by
  have few := @Valid.count_le t devices h
  have fewer := @Valid.wireCount_le t devices h
  have room := @Valid.fullData_le t devices h
  rw [turns, walk_eq (s := t.wireCount devices) (d := t.count devices), h.numChunks_eq]
  · rw [show min (t.pieces devices) (min (t.wireCount devices) (t.count devices) - 0) =
      t.count devices by omega, List.range_eq_range']
  · intro j hj
    rw [h.numChunks_eq] at hj
    rw [h.wireChunkSize_eq, h.mul64_eq (by omega) (Nat.le_refl _), ge_iff_le, wireCount,
      ← Nat.not_lt, ← Nat.not_lt, lt_ceilDiv h.fullWire_pos]
  · intro j hj
    rw [h.numChunks_eq] at hj
    rw [h.dataChunkSize_eq, h.mul64_eq (by omega) room, ge_iff_le, count, ← Nat.not_lt,
      ← Nat.not_lt, lt_ceilDiv h.fullData_pos]

theorem Valid.turnPacket_fragment (h : t.Valid) (hi : i < t.count devices) (nic : Nic)
    (seqNum offset : UInt32) :
    (t.turnPacket devices nic i seqNum).fragment (sprayDevice devices offset i) =
      t.fragment devices offset i := by
  have wire := h.toNat_wire hi
  rw [turnPacket, directPacket_fragment, h.toNat_data hi, wire, fragment]
  dsimp only [GT.gt]
  simp only [UInt32.lt_iff_toNat_lt, wire]

theorem Valid.turnChunk_fragment (h : t.Valid) (hi : i < t.count devices) (offset : UInt32) :
    (t.turnChunk devices offset i).fragment = t.fragment devices offset i := by
  have wire := h.toNat_wire hi
  rw [BulkTxChunk.fragment, turnChunk, BulkEndpoint.chunkOf, fragment]
  dsimp only [GT.gt]
  rw [h.toNat_data hi, wire]
  simp only [UInt32.lt_iff_toNat_lt, wire, Bool.and_assoc, Bool.and_self]

end BulkTransfer

/-! ## What a transfer produces -/

/-- The fragment that an event makes: a chunk for the window, or a packet. -/
def BulkObs.fragment : BulkObs → Option Fragment
  | .enqueued c => some c.fragment
  | .sent packet deviceIndex => some (packet.fragment deviceIndex)
  | .queued packet deviceIndex => some (packet.fragment deviceIndex)
  | _ => none

namespace BulkEndpoint

variable {nic : Nic} {w : World γ} {σ τ : BulkEndpoint γ} {t : BulkTransfer}
  {devices : List UInt32}

theorem fragments_of_packets {more : List BulkObs}
    (kinds : ∀ o ∈ more, (∃ k n, o = .numbered k n) ∨ o.packet.isSome) :
    more.filterMap BulkObs.fragment =
      (more.filterMap BulkObs.packet).map fun p => p.1.fragment p.2 := by
  induction more with
  | nil => rfl
  | cons o more ih =>
      have rest := ih fun p member => kinds p (List.mem_cons_of_mem o member)
      have kind := kinds o List.mem_cons_self
      cases o with
      | numbered k n => rw [List.filterMap_cons_none rfl, List.filterMap_cons_none rfl, rest]
      | sent packet deviceIndex =>
          simp only [List.filterMap_cons, BulkObs.fragment, BulkObs.packet, List.map_cons, rest]
      | queued packet deviceIndex =>
          simp only [List.filterMap_cons, BulkObs.fragment, BulkObs.packet, List.map_cons, rest]
      | _ => simp [BulkObs.packet] at kind

/-- Nothing that happens from `σ` to `τ` makes a fragment. -/
def Silent (σ τ : BulkEndpoint γ) : Prop :=
  ∃ more, τ.log = σ.log ++ more ∧ more.filterMap BulkObs.fragment = []

theorem Silent.refl (σ : BulkEndpoint γ) : Silent σ σ := ⟨[], (List.append_nil _).symm, rfl⟩

theorem Silent.trans {υ : BulkEndpoint γ} (first : Silent σ τ) (rest : Silent τ υ) :
    Silent σ υ := by
  obtain ⟨more, log, none⟩ := first
  obtain ⟨later, logs, nones⟩ := rest
  refine ⟨more ++ later, ?_, ?_⟩
  · rw [logs, log, List.append_assoc]
  · rw [List.filterMap_append, none, nones, List.append_nil]

theorem beginDispatch_silent (desc : BulkTxChunk) : Silent σ (beginDispatch nic σ desc) := by
  refine ⟨[.numbered desc.key (σ.nextSeqNum desc.key), .took desc.key (σ.nextSeqNum desc.key),
    .dispatched desc (dispatchedPacket nic desc (σ.nextSeqNum desc.key))], ?_, rfl⟩
  simp [beginDispatch, takeSlot, takeSeqNum]

theorem pumpLoop_silent (fuel : Nat) : Silent σ (pumpLoop nic w fuel σ) := by
  induction fuel generalizing σ with
  | zero => exact .refl σ
  | succ fuel ih =>
      rw [pumpLoop]
      split
      · exact .refl σ
      · rename_i desc rest queue
        split
        · obtain ⟨world, hdispatch⟩ := dispatch_fst nic w { σ with bulkTxQueue := rest } desc
          have first : Silent σ { beginDispatch nic { σ with bulkTxQueue := rest } desc with world } :=
            @beginDispatch_silent _ nic { σ with bulkTxQueue := rest } desc
          dsimp only
          rw [hdispatch]
          split
          · exact first.trans ih
          · exact first
        · exact .refl σ

theorem since_append {υ : BulkEndpoint γ} (more : List BulkObs) (log : τ.log = σ.log ++ more)
    (rest : Silent τ υ) :
    (since σ υ).filterMap BulkObs.fragment = more.filterMap BulkObs.fragment := by
  obtain ⟨later, logs, none⟩ := rest
  have all : υ.log = σ.log ++ (more ++ later) := by
    rw [logs, log, List.append_assoc]
  rw [since_eq all, List.filterMap_append, none, List.append_nil]

/-- The chunks that the windowed path queues. -/
def chunksOf (nic : Nic) (t : BulkTransfer) (σ : BulkEndpoint γ) : List BulkTxChunk :=
  let devices := nic.physicalDevicesForDest t.destRank
  (t.turns devices (t.numChunks devices) 0).map (t.turnChunk devices σ.globalSprayOffset)

theorem chunksOf_fragments (h : t.Valid) :
    (chunksOf nic t σ).map BulkTxChunk.fragment =
      t.fragments (nic.physicalDevicesForDest t.destRank) σ.globalSprayOffset := by
  rw [chunksOf, h.turns_eq, BulkTransfer.fragments, List.map_map]
  apply List.map_congr_left
  intro i hi
  exact h.turnChunk_fragment (List.mem_range.mp hi) _

theorem sendChecked_fragments (h : t.Valid)
    (cut : t.needFragment (nic.physicalDevicesForDest t.destRank)) :
    (since σ (sendChecked nic w t σ)).filterMap BulkObs.fragment =
      t.fragments (nic.physicalDevicesForDest t.destRank) σ.globalSprayOffset := by
  rw [sendChecked]
  dsimp only
  rw [if_pos cut]
  split
  · rw [windowedLoop_eq, ← @chunksOf_fragments _ nic σ t h]
    refine (since_append ((chunksOf nic t σ).map .enqueued) rfl (pumpLoop_silent _)).trans ?_
    rw [List.filterMap_map]
    exact congrFun List.filterMap_eq_map' _
  · obtain ⟨more, log, -, packets, kinds⟩ :=
      (@directLoop_emits _ nic w t (nic.physicalDevicesForDest t.destRank)
        (t.numChunks (nic.physicalDevicesForDest t.destRank)) 0 σ).packets
    refine (since_append more log (.refl _)).trans ?_
    rw [fragments_of_packets kinds, packets, h.turns_eq, List.map_map, BulkTransfer.fragments]
    conv_rhs => rw [← numberedFrom_fst (σ.nextSeqNum t.key) (List.range _), List.map_map]
    apply List.map_congr_left
    intro p hp
    have inside : p.1 ∈ (numberedFrom (σ.nextSeqNum t.key) (List.range _)).map Prod.fst :=
      List.mem_map_of_mem hp
    rw [numberedFrom_fst, List.mem_range] at inside
    exact h.turnPacket_fragment inside nic p.2 _

theorem sendChecked_uncut (uncut : ¬t.needFragment (nic.physicalDevicesForDest t.destRank)) :
    ∃ o deviceIndex, since σ (sendChecked nic w t σ) =
        [.numbered t.key (σ.nextSeqNum t.key), o] ∧
      o.packet = some (directPacket nic t (UInt32.ofNat t.wireSize) (UInt32.ofNat t.dataSize) 0
        (σ.nextSeqNum t.key), deviceIndex) ∧
      o.fragment = some ((directPacket nic t (UInt32.ofNat t.wireSize) (UInt32.ofNat t.dataSize) 0
        (σ.nextSeqNum t.key)).fragment deviceIndex) ∧
      (deviceIndex = sprayDevice (nic.physicalDevicesForDest t.destRank) σ.globalSprayOffset 0 ∨
        deviceIndex = Nic.anyDevice) := by
  have two {υ : BulkEndpoint γ} {o : BulkObs} (log : υ.log = (σ.takeSeqNum t.key).1.log ++ [o]) :
      since σ υ = [.numbered t.key (σ.nextSeqNum t.key), o] := by
    apply since_eq
    rw [log]
    simp [takeSeqNum]
  rw [sendChecked]
  dsimp only
  rw [if_neg uncut, sendSingle]
  dsimp only
  split
  · exact ⟨_, _, two rfl, rfl, rfl, .inr rfl⟩
  · split
    · exact ⟨_, _, two rfl, rfl, rfl, .inl rfl⟩
    · exact ⟨_, _, two rfl, rfl, rfl, .inl rfl⟩

/-- A transfer that is not cut is its only fragment. If it is not admitted, its device is left open. -/
theorem sendChecked_single (h : t.Valid)
    (uncut : ¬t.needFragment (nic.physicalDevicesForDest t.destRank)) :
    ∃ f, t.fragments (nic.physicalDevicesForDest t.destRank) σ.globalSprayOffset = [f] ∧
      ((since σ (sendChecked nic w t σ)).filterMap BulkObs.fragment = [f] ∨
        (since σ (sendChecked nic w t σ)).filterMap BulkObs.fragment =
          [{ f with link := Nic.anyDevice }]) := by
  have wireLimit : t.wireSize ≤ t.chunkLimit.bytes.toNat := by
    simp only [BulkTransfer.needFragment, gt_iff_lt, decide_eq_true_eq, not_or,
      Nat.not_lt] at uncut
    exact uncut.2
  have limit := t.chunkLimit.le
  have wire := h.wire
  have toWire : (UInt32.ofNat t.wireSize).toNat = t.wireSize :=
    UInt32.toNat_ofNat_of_lt' (show _ < 2 ^ 32 by omega)
  have toData : (UInt32.ofNat t.dataSize).toNat = t.dataSize :=
    UInt32.toNat_ofNat_of_lt' (show _ < 2 ^ 32 by omega)
  have packet (seqNum deviceIndex : UInt32) : (directPacket nic t (UInt32.ofNat t.wireSize)
      (UInt32.ofNat t.dataSize) 0 seqNum).fragment deviceIndex =
      { wire := t.wireSize
        data := t.dataSize
        link := deviceIndex
        framed := t.stampSoHeader && decide (soHeaderSize.toNat < t.wireSize)
        chunkIndex :=
          if t.stampSoHeader && decide (soHeaderSize.toNat < t.wireSize) then some 0
          else none } := by
    rw [directPacket_fragment]
    simp only [GT.gt, UInt32.lt_iff_toNat_lt, toWire, toData]
    rfl
  refine ⟨_, h.fragments_single uncut, ?_⟩
  obtain ⟨o, deviceIndex, events, -, hfragment, rfl | rfl⟩ := @sendChecked_uncut _ nic w σ t uncut
  · left
    rw [events, List.filterMap_cons_none rfl, List.filterMap_cons_some hfragment, packet]
    rfl
  · right
    rw [events, List.filterMap_cons_none rfl, List.filterMap_cons_some hfragment, packet]
    rfl

end BulkEndpoint

/-! ## Room for the data -/

/-- The fragments of a transfer, as the endpoint produces them. -/
def produced (σ τ : BulkEndpoint γ) : List Fragment := (since σ τ).filterMap BulkObs.fragment

/-- The room that the full fragments leave unused is no more than the transfer leaves unused. -/
def BulkTransfer.Spare (t : BulkTransfer) (devices : List UInt32) : Prop :=
  (t.count devices - 1) * (t.fullWire devices - t.fullData devices) ≤ t.wireSize - t.dataSize

/-- Every fragment has room for its data if and only if the full ones do not leave more room unused
than the transfer has. -/
theorem produced_fit_iff (nic : Nic) (w : World γ) (σ : BulkEndpoint γ) {t : BulkTransfer}
    (h : t.Valid) :
    ∃ τ, BulkEndpoint.sendBulkWireTransferSizeImpl nic w t σ = .ok τ ∧
      ((∀ f ∈ produced σ τ, f.data ≤ f.wire) ↔
        t.Spare (nic.physicalDevicesForDest t.destRank)) := by
  refine ⟨_, BulkEndpoint.sendBulk_eq nic w σ h, ?_⟩
  rw [BulkTransfer.Spare, ← @BulkTransfer.Valid.fragments_fit_iff _ _ σ.globalSprayOffset h]
  by_cases cut : t.needFragment (nic.physicalDevicesForDest t.destRank)
  · rw [produced, BulkEndpoint.sendChecked_fragments h cut]
  · obtain ⟨f, sole, admitted | parked⟩ := @BulkEndpoint.sendChecked_single _ nic w σ t h cut
    · rw [produced, admitted, sole]
    · rw [produced, parked, sole]
      simp

/-- Nine bytes of ten on the wire, for three links. -/
def nineOfTen : BulkTransfer :=
  { destRank := 1
    flowId := 5
    vcId := 2
    protocolId := 1
    dataSize := 9
    wireSize := 10
    chunkLimit := .ceiling
    stampSoHeader := false }

/-- An endpoint with three links to each destination. -/
def threeLinks : Nic := { loneNic with routingDevicesTable := fun _ => some [0, 1, 2] }

theorem produced_fit_iff_threeBytes :
    ∃ τ, BulkEndpoint.sendBulkWireTransferSizeImpl loneNic openWorld threeBytes { world := () } =
        .ok τ ∧
      ((∀ f ∈ produced { world := () } τ, f.data ≤ f.wire) ↔
        threeBytes.Spare (loneNic.physicalDevicesForDest 1)) :=
  produced_fit_iff loneNic openWorld { world := () } ⟨by decide, by decide, by decide⟩

/-- The bytes on the wire go out as 4, 4 and 2, and the data as 3, 3 and 3. -/
theorem not_produced_fit :
    nineOfTen.Valid ∧
      produced { world := () } (BulkEndpoint.sendChecked threeLinks openWorld nineOfTen
        { world := () }) =
        [⟨4, 3, 0, false, none⟩, ⟨4, 3, 1, false, none⟩, ⟨2, 3, 2, false, none⟩] ∧
      ¬∀ f ∈ produced { world := () } (BulkEndpoint.sendChecked threeLinks openWorld nineOfTen
        { world := () }), f.data ≤ f.wire :=
  ⟨⟨by decide, by decide, by decide⟩, by decide, by decide⟩

/-! ## Numbers -/

/-- The numbers that a flow has given out. -/
def numbersOf (key : FlowKey) (log : List BulkObs) : List UInt32 :=
  log.filterMap fun
    | .numbered k n => if k = key then some n else none
    | _ => none

/-- The numbers that the chunks of a flow got when they were dispatched. -/
def dispatchedNumbers (key : FlowKey) (log : List BulkObs) : List UInt32 :=
  log.filterMap fun
    | .dispatched c packet => if c.key = key then some packet.header.sequenceNumber else none
    | _ => none

/-- Each flow gives out its numbers one after another. Its chunks are dispatched each as its packet
under the number that comes next. -/
structure Counted (nic : Nic) (σ : BulkEndpoint γ) : Prop where
  numbers : ∀ key, ∃ n, numbersOf key σ.log = (List.range n).map UInt32.ofNat ∧
    σ.nextSeqNum key = UInt32.ofNat n
  chunks : ∀ key, (dispatchedNumbers key σ.log).Sublist (numbersOf key σ.log)
  packets : ∀ c packet, (c, packet) ∈ dispatched σ.log →
    packet = BulkEndpoint.dispatchedPacket nic c packet.header.sequenceNumber

namespace Counted

variable {nic : Nic} {σ τ : BulkEndpoint γ}

theorem note {o : BulkObs} (h : Counted nic σ) (numbered : ∀ k n, o ≠ .numbered k n)
    (chunk : ∀ c packet, o ≠ .dispatched c packet) :
    Counted nic { σ with log := σ.log ++ [o] } := by
  have same (key : FlowKey) : numbersOf key (σ.log ++ [o]) = numbersOf key σ.log := by
    cases o with
    | numbered k n => exact absurd rfl (numbered k n)
    | _ => simp [numbersOf]
  have alike (key : FlowKey) :
      dispatchedNumbers key (σ.log ++ [o]) = dispatchedNumbers key σ.log := by
    cases o with
    | dispatched c packet => exact absurd rfl (chunk c packet)
    | _ => simp [dispatchedNumbers]
  have still : dispatched (σ.log ++ [o]) = dispatched σ.log := by
    cases o with
    | dispatched c packet => exact absurd rfl (chunk c packet)
    | _ => simp [dispatched]
  constructor
  · intro key
    show ∃ n, numbersOf key (σ.log ++ [o]) = _ ∧ _
    rw [same]
    exact h.numbers key
  · intro key
    show (dispatchedNumbers key (σ.log ++ [o])).Sublist (numbersOf key (σ.log ++ [o]))
    rw [same, alike]
    exact h.chunks key
  · intro c packet member
    rw [show dispatched ({ σ with log := σ.log ++ [o] } : BulkEndpoint γ).log = _ from still] at member
    exact h.packets c packet member

theorem number (h : Counted nic σ) (key : FlowKey) : Counted nic (σ.takeSeqNum key).1 := by
  constructor
  · intro k
    obtain ⟨n, given, next⟩ := h.numbers k
    by_cases same : key = k
    · subst same
      refine ⟨n + 1, ?_, ?_⟩
      · show numbersOf key (σ.log ++ [.numbered key (σ.nextSeqNum key)]) = _
        rw [List.range_succ, List.map_append, ← given]
        simp [numbersOf, next]
      · show Function.update σ.nextSeqNum key (σ.nextSeqNum key + 1) key = _
        rw [Function.update_self, next, UInt32.ofNat_add]
        rfl
    · refine ⟨n, ?_, ?_⟩
      · show numbersOf k (σ.log ++ [.numbered key (σ.nextSeqNum key)]) = _
        rw [← given]
        simp [numbersOf, same]
      · show Function.update σ.nextSeqNum key (σ.nextSeqNum key + 1) k = _
        rw [Function.update_of_ne (Ne.symm same), next]
  · intro k
    show (dispatchedNumbers k (σ.log ++ [.numbered key (σ.nextSeqNum key)])).Sublist
      (numbersOf k (σ.log ++ [.numbered key (σ.nextSeqNum key)]))
    have alike : dispatchedNumbers k (σ.log ++ [.numbered key (σ.nextSeqNum key)]) =
        dispatchedNumbers k σ.log := by
      simp [dispatchedNumbers]
    rw [alike, numbersOf, List.filterMap_append]
    exact (h.chunks k).trans (List.sublist_append_left _ _)
  · intro c packet member
    have still : dispatched (σ.log ++ [.numbered key (σ.nextSeqNum key)]) = dispatched σ.log := by
      simp [dispatched]
    rw [show dispatched (σ.takeSeqNum key).1.log = _ from still] at member
    exact h.packets c packet member

theorem dispatch (h : Counted nic σ) (desc : BulkTxChunk) :
    Counted nic (BulkEndpoint.beginDispatch nic σ desc) := by
  have before := h.number desc.key
  have log : (BulkEndpoint.beginDispatch nic σ desc).log = σ.log ++
      [.numbered desc.key (σ.nextSeqNum desc.key), .took desc.key (σ.nextSeqNum desc.key),
        .dispatched desc (BulkEndpoint.dispatchedPacket nic desc (σ.nextSeqNum desc.key))] := by
    simp [BulkEndpoint.beginDispatch, BulkEndpoint.takeSlot, BulkEndpoint.takeSeqNum]
  constructor
  · intro key
    obtain ⟨n, given, next⟩ := before.numbers key
    refine ⟨n, ?_, next⟩
    rw [← given, log]
    by_cases same : desc.key = key <;> simp [numbersOf, BulkEndpoint.takeSeqNum, same]
  · intro key
    rw [log, dispatchedNumbers, numbersOf, List.filterMap_append, List.filterMap_append]
    apply (h.chunks key).append
    by_cases same : desc.key = key
    · simp [same, BulkEndpoint.dispatchedPacket_seq]
    · simp [same]
  · intro c packet member
    rw [log, dispatched_append] at member
    rcases List.mem_append.mp member with old | new
    · exact h.packets c packet old
    · simp only [dispatched, List.filterMap_cons, List.filterMap_nil, List.mem_singleton,
        Prod.mk.injEq] at new
      obtain ⟨rfl, rfl⟩ := new
      rw [BulkEndpoint.dispatchedPacket_seq]

theorem step (h : Counted nic σ) (one : BulkStep nic σ τ) : Counted nic τ := by
  cases one with
  | world | spray | rdma => exact ⟨h.numbers, h.chunks, h.packets⟩
  | number key => exact h.number key
  | emit o emission =>
      apply h.note
      · rintro k n rfl
        cases emission
      · rintro c packet rfl
        cases emission
  | enqueue desc =>
      have noted := h.note (o := .enqueued desc) (by simp) (by simp)
      exact ⟨noted.numbers, noted.chunks, noted.packets⟩
  | dispatch desc rest queue free =>
      have popped : Counted nic { σ with bulkTxQueue := rest } := ⟨h.numbers, h.chunks, h.packets⟩
      exact popped.dispatch desc
  | pending p free =>
      have taken := (h.number p.key).note (o := .took p.key (σ.nextSeqNum p.key)) (by simp) (by simp)
      have noted := taken.note (o := .operated p.key (σ.nextSeqNum p.key)) (by simp) (by simp)
      exact ⟨noted.numbers, noted.chunks, noted.packets⟩
  | release key seqNum member =>
      have noted := h.note (o := .released key seqNum) (by simp) (by simp)
      exact ⟨noted.numbers, noted.chunks, noted.packets⟩

end Counted

theorem counted_invariant {nic : Nic} {w : World γ} :
    (bulkMachine nic w).Invariant (Counted nic) := by
  apply bulk_invariant
  · intro window world _
    exact ⟨fun key => ⟨0, rfl, rfl⟩, fun key => .refl _, fun c packet member => by cases member⟩
  · intro σ τ _ h one
    exact h.step one

/-! ## The paths agree -/

/-- The flow of a packet. -/
def FabricPacket.key (p : FabricPacket) : FlowKey :=
  ⟨p.header.destRank, p.header.virtualChannel, p.header.flowId⟩

theorem directPacket_header (nic : Nic) (t : BulkTransfer) (wire data : UInt32) (i : Nat)
    (seqNum : UInt32) :
    (BulkEndpoint.directPacket nic t wire data i seqNum).key = t.key ∧
      (BulkEndpoint.directPacket nic t wire data i seqNum).header.sequenceNumber = seqNum := by
  rw [FabricPacket.key, BulkEndpoint.directPacket]
  dsimp only [Header.setProtocolFramed]
  split <;> exact ⟨rfl, rfl⟩

/-- Whether the chunks of a transfer wait for the window. -/
def BulkEndpoint.Windowed (nic : Nic) (t : BulkTransfer) (σ : BulkEndpoint γ) : Prop :=
  t.needFragment (nic.physicalDevicesForDest t.destRank) ∧ σ.soTxWindow > 0 ∧
    !nic.isLocalRank t.destRank

/-- A transfer is cut into the same fragments on every path, which are all of its data and not more
than its wire bytes. -/
structure CutAlike (nic : Nic) (t : BulkTransfer) (σ τ : BulkEndpoint γ) (fs : List Fragment) :
    Prop where
  sum : (fs.map Fragment.data).sum = t.dataSize
  each : ∀ f ∈ fs, 1 ≤ f.data ∧ 1 ≤ f.wire ∧ f.wire ≤ min t.chunkLimit.bytes.toNat (2 ^ 30)
  wire : ∃ c, ∃ e ≤ t.wireSize,
    Tiles 0 (fs.zipIdx.map fun f => (f.2 * c, f.1.wire)) e
  cut : t.needFragment (nic.physicalDevicesForDest t.destRank) → produced σ τ = fs
  uncut : ¬t.needFragment (nic.physicalDevicesForDest t.destRank) → ∃ f, fs = [f] ∧
    (produced σ τ = [f] ∨ produced σ τ = [{ f with link := Nic.anyDevice }])
  windowed : BulkEndpoint.Windowed nic t σ → ∃ descs : List BulkTxChunk,
    enqueued τ.log = enqueued σ.log ++ descs ∧ descs.map BulkTxChunk.fragment = fs ∧
      ∀ c ∈ descs, c.key = t.key
  direct : ¬BulkEndpoint.Windowed nic t σ →
    (∀ p ∈ (since σ τ).filterMap BulkObs.packet, p.1.key = t.key) ∧
      ((since σ τ).filterMap BulkObs.packet).map (fun p => p.1.header.sequenceNumber) =
        (List.range fs.length).map fun k => σ.nextSeqNum t.key + UInt32.ofNat k

namespace BulkEndpoint

variable {nic : Nic} {w : World γ} {σ : BulkEndpoint γ} {t : BulkTransfer}

theorem chunksOf_key : ∀ c ∈ chunksOf nic t σ, c.key = t.key := by
  intro c member
  obtain ⟨i, -, rfl⟩ := List.mem_map.mp member
  rfl

theorem Silent.enqueued {τ : BulkEndpoint γ} (h : Silent σ τ) :
    enqueued τ.log = enqueued σ.log := by
  obtain ⟨more, log, none⟩ := h
  have empty : Endpoint.enqueued more = [] := by
    rw [Endpoint.enqueued, List.filterMap_eq_nil_iff]
    intro o member
    have silent := List.filterMap_eq_nil_iff.mp none o member
    cases o <;> first | rfl | cases silent
  rw [Endpoint.enqueued, log, List.filterMap_append]
  show Endpoint.enqueued σ.log ++ Endpoint.enqueued more = _
  rw [empty, List.append_nil]

theorem sendChecked_windowed (h : Windowed nic t σ) :
    enqueued (sendChecked nic w t σ).log = enqueued σ.log ++ chunksOf nic t σ := by
  rw [sendChecked]
  dsimp only
  rw [if_pos h.1, if_pos h.2, pumpBulkTxWindow, (pumpLoop_silent _).enqueued, windowedLoop_eq]
  show Endpoint.enqueued (σ.log ++ (chunksOf nic t σ).map BulkObs.enqueued) = _
  rw [Endpoint.enqueued, List.filterMap_append, List.filterMap_map]
  congr 1
  exact congrFun List.filterMap_eq_map' _ |>.trans (List.map_id _)

theorem sendChecked_direct (h : t.Valid) (direct : ¬Windowed nic t σ) :
    (∀ p ∈ (since σ (sendChecked nic w t σ)).filterMap BulkObs.packet, p.1.key = t.key) ∧
      ((since σ (sendChecked nic w t σ)).filterMap BulkObs.packet).map
          (fun p => p.1.header.sequenceNumber) =
        (List.range (t.fragments (nic.physicalDevicesForDest t.destRank)
          σ.globalSprayOffset).length).map fun k => σ.nextSeqNum t.key + UInt32.ofNat k := by
  by_cases cut : t.needFragment (nic.physicalDevicesForDest t.destRank)
  · have path : ¬(σ.soTxWindow > 0 ∧ !nic.isLocalRank t.destRank) := fun now => direct ⟨cut, now⟩
    obtain ⟨more, log, -, packets, -⟩ :=
      (@directLoop_emits _ nic w t (nic.physicalDevicesForDest t.destRank)
        (t.numChunks (nic.physicalDevicesForDest t.destRank)) 0 σ).packets
    have all : since σ (sendChecked nic w t σ) = more := by
      rw [sendChecked]
      dsimp only
      rw [if_pos cut, if_neg path]
      exact since_eq log
    rw [all, packets, h.turns_eq]
    constructor
    · intro p member
      obtain ⟨q, -, rfl⟩ := List.mem_map.mp member
      exact (directPacket_header nic t _ _ _ _).1
    · rw [List.map_map, BulkTransfer.fragments, List.length_map, List.length_range]
      have seqs := numberedFrom_snd (σ.nextSeqNum t.key)
        (List.range (t.count (nic.physicalDevicesForDest t.destRank)))
      rw [List.length_range] at seqs
      rw [← seqs]
      apply List.map_congr_left
      intro q _
      exact (directPacket_header nic t _ _ _ _).2
  · have header := directPacket_header nic t (UInt32.ofNat t.wireSize) (UInt32.ofNat t.dataSize) 0
      (σ.nextSeqNum t.key)
    rw [h.fragments_single cut]
    obtain ⟨o, deviceIndex, events, hpacket, -, -⟩ := @sendChecked_uncut _ nic w σ t cut
    rw [events, List.filterMap_cons_none rfl, List.filterMap_cons_some hpacket]
    simp [header]

end BulkEndpoint

/-- Bulk transfers are cut alike on every path. -/
theorem bulk_paths (nic : Nic) (w : World γ) {t : BulkTransfer} (h : t.Valid) :
    (∀ σ : BulkEndpoint γ, ∃ τ,
      BulkEndpoint.sendBulkWireTransferSizeImpl nic w t σ = .ok τ ∧
        CutAlike nic t σ τ
          (t.fragments (nic.physicalDevicesForDest t.destRank) σ.globalSprayOffset)) ∧
      ∀ σ, (bulkMachine nic w).Reachable σ → InDispatchOrder σ ∧ Counted nic σ := by
  refine ⟨fun σ => ⟨_, BulkEndpoint.sendBulk_eq nic w σ h, ?_⟩, fun σ reach =>
    ⟨inOrder_invariant σ reach, counted_invariant σ reach⟩⟩
  constructor
  · exact h.fragments_data
  · intro f member
    obtain ⟨i, hi, rfl⟩ := List.mem_map.mp member
    rw [List.mem_range] at hi
    have limit := t.chunkLimit.le
    have fits : (t.fragment (nic.physicalDevicesForDest t.destRank) σ.globalSprayOffset i).wire ≤
      t.chunkLimit.bytes.toNat := h.wire_le
    exact ⟨h.data_pos hi, h.wire_pos hi, by omega⟩
  · obtain ⟨e, inside, tiles⟩ := @BulkTransfer.Valid.fragments_wire t
      (nic.physicalDevicesForDest t.destRank) σ.globalSprayOffset h
    refine ⟨t.fullWire (nic.physicalDevicesForDest t.destRank), e, inside, ?_⟩
    convert tiles using 1
    apply List.ext_getElem
    · simp [BulkTransfer.fragments]
    · intro i _ _
      simp [BulkTransfer.fragments]
  · exact BulkEndpoint.sendChecked_fragments h
  · exact BulkEndpoint.sendChecked_single h
  · intro windowed
    exact ⟨_, BulkEndpoint.sendChecked_windowed windowed, BulkEndpoint.chunksOf_fragments h,
      BulkEndpoint.chunksOf_key⟩
  · exact BulkEndpoint.sendChecked_direct h

theorem bulk_paths_threeBytes :
    (∀ σ : BulkEndpoint Unit, ∃ τ,
      BulkEndpoint.sendBulkWireTransferSizeImpl loneNic openWorld threeBytes σ = .ok τ ∧
        CutAlike loneNic threeBytes σ τ
          (threeBytes.fragments (loneNic.physicalDevicesForDest 1) σ.globalSprayOffset)) ∧
      ∀ σ, (bulkMachine loneNic openWorld).Reachable σ → InDispatchOrder σ ∧ Counted loneNic σ :=
  bulk_paths loneNic openWorld ⟨by decide, by decide, by decide⟩

/-- Another packet of the flow goes out while the second fragment waits for the window: the fragments
have the numbers 0 and 2. -/
theorem dispatched_apart :
    ∃ σ, (bulkMachine loneNic openWorld).Reachable σ ∧
      (enqueued σ.log).map BulkTxChunk.fragment =
        threeBytes.fragments (loneNic.physicalDevicesForDest 1) 0 ∧
      dispatchedNumbers threeBytes.key σ.log = [0, 2] := by
  have run : ((bulkMachine loneNic openWorld).runs { soTxWindow := 1, world := () }
      [.sendBulk threeBytes, .send threeBytes.key, .settle threeBytes.key 0]).map
        (fun σ => ((enqueued σ.log).map BulkTxChunk.fragment,
          dispatchedNumbers threeBytes.key σ.log)) =
      some (threeBytes.fragments (loneNic.physicalDevicesForDest 1) 0, [0, 2]) := by
    decide
  have start : (bulkMachine loneNic openWorld).init { soTxWindow := 1, world := () } :=
    ⟨1, (), by decide, rfl⟩
  obtain ⟨σ, reach, same⟩ := Machine.Reachable.exists_of_runs start run
  exact ⟨σ, reach, congrArg Prod.fst same, congrArg Prod.snd same⟩

end ProtoBridge.Endpoint
