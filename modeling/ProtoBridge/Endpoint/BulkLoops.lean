import ProtoBridge.Endpoint.BulkSend
import ProtoBridge.Lib.Split

/-!
# The loops over the fragments

The three loops of `SendBulkWireTransferSizeImpl` go through the same indices: `turns`
skips those past the end of the wire bytes and stops at the first past the end of the
data. The windowed loop queues a chunk for each. The other two build a packet for each,
under the next number of the flow, and send it or put it on the send queue: `Emits`.
-/

namespace ProtoBridge.Endpoint

open Lib Fabric

variable {γ : Type}

theorem ceilDiv64_eq {a b : Nat} (h : a + b < 2 ^ 64) (pos : 0 < a + b) :
    ceilDiv64 a b = a ⌈/⌉ b := by
  rw [ceilDiv64, wadd_eq h, wsub_eq pos h, Nat.ceilDiv_eq_add_pred_div]

namespace BulkTransfer

/-- The transfer passes the checks. -/
structure Valid (t : BulkTransfer) : Prop where
  data : 0 < t.dataSize
  wire : t.dataSize ≤ t.wireSize
  service : t.wireSize ≤ 2 ^ 62

variable (t : BulkTransfer) (devices : List UInt32)

/-- The indices a loop goes through, from `i` on. -/
def turns (left i : Nat) : List Nat :=
  walk (fun i => mul64 i (t.wireChunkSize devices) ≥ t.wireSize)
    (fun i => mul64 i (t.dataChunkSize devices) ≥ t.dataSize) left i

/-- The chunk of the `i`-th turn. -/
def turnChunk (offset : UInt32) (i : Nat) : BulkTxChunk :=
  BulkEndpoint.chunkOf t devices offset i (mul64 i (t.wireChunkSize devices))
    (mul64 i (t.dataChunkSize devices))

/-- The packet of the `i`-th turn, under a number. -/
def turnPacket (nic : Nic) (i : Nat) (seqNum : UInt32) : FabricPacket :=
  BulkEndpoint.directPacket nic t
    (UInt32.ofNat
      (min (t.wireChunkSize devices) (t.wireSize - mul64 i (t.wireChunkSize devices))))
    (UInt32.ofNat
      (min (t.dataChunkSize devices) (t.dataSize - mul64 i (t.dataChunkSize devices))))
    i seqNum

end BulkTransfer

/-- The packet of an event, with its device. -/
def BulkObs.packet : BulkObs → Option (FabricPacket × UInt32)
  | .sent packet deviceIndex => some (packet, deviceIndex)
  | .queued packet deviceIndex => some (packet, deviceIndex)
  | _ => none

/-- The events since `σ`. -/
def since (σ τ : BulkEndpoint γ) : List BulkObs := τ.log.drop σ.log.length

theorem since_eq {σ τ : BulkEndpoint γ} {more : List BulkObs} (h : τ.log = σ.log ++ more) :
    since σ τ = more := by
  rw [since, h, List.drop_left]

/-- The packets since `σ`. -/
def packetsSince (σ τ : BulkEndpoint γ) : List (FabricPacket × UInt32) :=
  (since σ τ).filterMap BulkObs.packet

/-- Items with consecutive numbers. -/
def numberedFrom (seqNum : UInt32) : List Nat → List (Nat × UInt32)
  | [] => []
  | i :: is => (i, seqNum) :: numberedFrom (seqNum + 1) is

theorem numberedFrom_fst (seqNum : UInt32) (is : List Nat) :
    (numberedFrom seqNum is).map Prod.fst = is := by
  induction is generalizing seqNum with
  | nil => rfl
  | cons i is ih => rw [numberedFrom, List.map_cons, ih]

theorem numberedFrom_snd (seqNum : UInt32) (is : List Nat) :
    (numberedFrom seqNum is).map Prod.snd =
      (List.range is.length).map fun k => seqNum + UInt32.ofNat k := by
  induction is generalizing seqNum with
  | nil => rfl
  | cons i is ih =>
      rw [numberedFrom, List.map_cons, ih, List.length_cons, List.range_succ_eq_map, List.map_cons,
        List.map_map]
      congr 1
      · exact (UInt32.add_zero seqNum).symm
      · apply List.map_congr_left
        intro k _
        show seqNum + 1 + UInt32.ofNat k = seqNum + UInt32.ofNat (k + 1)
        rw [UInt32.ofNat_add, UInt32.add_assoc, UInt32.add_comm 1]
        rfl

namespace BulkEndpoint

variable {nic : Nic} {w : World γ} {σ τ υ : BulkEndpoint γ} {t : BulkTransfer}
  {devices : List UInt32} {is js : List Nat} {key : FlowKey}
  {packet : Nat → UInt32 → FabricPacket}

theorem sendBulk_eq (nic : Nic) (w : World γ) (σ : BulkEndpoint γ) (h : t.Valid) :
    sendBulkWireTransferSizeImpl nic w t σ = .ok (sendChecked nic w t σ) := by
  have some := h.data
  have wire := h.wire
  rw [sendBulkWireTransferSizeImpl, if_neg (Nat.ne_of_gt some), if_neg (Nat.not_lt.mpr h.service),
    if_neg (by omega), if_neg (Nat.not_lt.mpr wire)]

theorem sendBulk_ok (h : sendBulkWireTransferSizeImpl nic w t σ = .ok τ) :
    τ = σ ∨ t.Valid ∧ τ = sendChecked nic w t σ := by
  rw [sendBulkWireTransferSizeImpl] at h
  split at h
  · exact .inl (Except.ok.inj h).symm
  · rename_i some
    split at h
    · cases h
    · rename_i service
      split at h
      · cases h
      · split at h
        · cases h
        · rename_i wire
          exact .inr ⟨⟨Nat.pos_of_ne_zero some, Nat.not_lt.mp wire, Nat.not_lt.mp service⟩,
            (Except.ok.inj h).symm⟩

theorem windowedLoop_eq (left i : Nat) (σ : BulkEndpoint γ) :
    windowedLoop t devices left i σ =
      { σ with
        bulkTxQueue := σ.bulkTxQueue ++
          (t.turns devices left i).map (t.turnChunk devices σ.globalSprayOffset)
        log := σ.log ++
          ((t.turns devices left i).map (t.turnChunk devices σ.globalSprayOffset)).map
            .enqueued } := by
  induction left generalizing i σ with
  | zero => simp [windowedLoop, BulkTransfer.turns, walk]
  | succ left ih =>
      rw [windowedLoop, BulkTransfer.turns, walk]
      dsimp only
      split
      · rw [ih, BulkTransfer.turns]
      · split
        · simp
        · rw [ih, BulkTransfer.turns]
          simp only [List.map_cons, List.append_assoc, List.singleton_append,
            BulkTransfer.turnChunk]

/-- The turns `is` are made from `σ` on: each builds the packet of its index under the next number
of the flow, and sends or queues it for its device. -/
inductive Emits (key : FlowKey) (packet : Nat → UInt32 → FabricPacket) (devices : List UInt32) :
    List Nat → BulkEndpoint γ → BulkEndpoint γ → Prop
  | done (σ : BulkEndpoint γ) (world : γ) : Emits key packet devices [] σ { σ with world }
  | turn (i : Nat) (is : List Nat) (σ τ : BulkEndpoint γ) (o : BulkObs) (world : γ)
      (hit : o ∈ [BulkObs.sent, BulkObs.queued].map fun f =>
        f (packet i (σ.takeSeqNum key).2) (sprayDevice devices σ.globalSprayOffset i))
      (rest : Emits key packet devices is
        { (σ.takeSeqNum key).1 with world, log := (σ.takeSeqNum key).1.log ++ [o] } τ) :
      Emits key packet devices (i :: is) σ τ

theorem Emits.append (first : Emits key packet devices is σ τ) (rest : Emits key packet devices js τ υ) :
    Emits key packet devices (is ++ js) σ υ := by
  induction first with
  | done σ world =>
      generalize hσ : ({ σ with world } : BulkEndpoint γ) = σ' at rest
      cases rest with
      | done _ world' =>
          subst hσ
          exact .done σ world'
      | turn i js _ _ o world' hit rest =>
          subst hσ
          exact .turn i js σ _ o world' hit rest
  | turn i is σ _ o world hit _ ih => exact .turn i _ σ _ o world hit (ih rest)

theorem Emits.world (h : Emits key packet devices is σ τ) (world : γ) :
    Emits key packet devices is σ { τ with world } := by
  have last := h.append (.done τ world)
  rwa [List.append_nil] at last

theorem Emits.packets (h : Emits key packet devices is σ τ) :
    ∃ more, τ.log = σ.log ++ more ∧ τ.globalSprayOffset = σ.globalSprayOffset ∧
      more.filterMap BulkObs.packet = (numberedFrom (σ.nextSeqNum key) is).map (fun p =>
        (packet p.1 p.2, sprayDevice devices σ.globalSprayOffset p.1)) ∧
      ∀ o ∈ more, (∃ k n, o = .numbered k n) ∨ o.packet.isSome := by
  induction h with
  | done σ world => exact ⟨[], (List.append_nil _).symm, rfl, rfl, fun o none => by cases none⟩
  | turn i is σ τ o world hit _ ih =>
      obtain ⟨more, log, spray, packets, kinds⟩ := ih
      have next : (σ.takeSeqNum key).1.nextSeqNum key = σ.nextSeqNum key + 1 :=
        Function.update_self _ _ _
      have one : o.packet = some (packet i (σ.nextSeqNum key),
          sprayDevice devices σ.globalSprayOffset i) := by
        simp only [List.map_cons, List.map_nil, List.mem_cons, List.not_mem_nil, or_false] at hit
        rcases hit with rfl | rfl <;> rfl
      refine ⟨.numbered key (σ.nextSeqNum key) :: o :: more, ?_, spray, ?_, ?_⟩
      · rw [log]
        simp [takeSeqNum]
      · rw [List.filterMap_cons_none rfl, List.filterMap_cons_some one, packets, numberedFrom,
          List.map_cons]
        show _ = _ :: (numberedFrom (σ.nextSeqNum key + 1) is).map _
        rw [← next]
        rfl
      · intro p member
        rcases List.mem_cons.mp member with rfl | member
        · exact .inl ⟨_, _, rfl⟩
        · rcases List.mem_cons.mp member with rfl | member
          · exact .inr (Option.isSome_of_eq_some one)
          · exact kinds p member

theorem remainingLoop_emits (left i : Nat) (σ : BulkEndpoint γ) :
    Emits t.key (t.turnPacket devices nic) devices (t.turns devices left i) σ
      (remainingLoop nic w t devices left i σ) := by
  induction left generalizing i σ with
  | zero => exact .done σ σ.world
  | succ left ih =>
      rw [remainingLoop, BulkTransfer.turns, walk]
      dsimp only
      split
      · exact ih (i + 1) σ
      · split
        · exact .done σ σ.world
        · exact .turn i _ σ _ _ _ (by simp [BulkTransfer.turnPacket, takeSeqNum]) (ih (i + 1) _)

theorem directLoop_emits (left i : Nat) (σ : BulkEndpoint γ) :
    Emits t.key (t.turnPacket devices nic) devices (t.turns devices left i) σ
      (directLoop nic w t devices left i σ) := by
  induction left generalizing i σ with
  | zero => exact .done σ σ.world
  | succ left ih =>
      rw [directLoop, BulkTransfer.turns, walk]
      dsimp only
      split
      · exact ih (i + 1) σ
      · split
        · exact .done σ σ.world
        · split
          · -- the gate has not admitted this one: the rest is queued behind it
            apply Emits.world
            exact .turn i _ σ _ _ _ (by simp [BulkTransfer.turnPacket, takeSeqNum])
              (remainingLoop_emits left (i + 1) _)
          · exact .turn i _ σ _ _ _ (by simp [BulkTransfer.turnPacket, takeSeqNum])
              (ih (i + 1) _)

end BulkEndpoint

end ProtoBridge.Endpoint
