import ProtoBridge.Lib.Bag
import ProtoBridge.Rdma.Engine

/-!
# The closures an engine still owes

A closure is in the calendar or in the queue of a staging pool. `owed` is the bag
of all of them; a grant only moves closures inside it. Each service of the engine
has one lemma here that says what it changes: a few fields, and the bag.
-/

namespace ProtoBridge.Rdma

open Lib

namespace Engine

variable {σ σ' : Engine} {k : Cont}

/-- Every closure that may still run. -/
def owed (σ : Engine) : Multiset Cont :=
  (σ.pending : Multiset Cont) + (σ.sourceStaging.owed : Multiset Cont) + σ.receiveStaging.owed

@[simp] theorem owed_pend (σ : Engine) (k : Cont) : (σ.pend k).owed = σ.owed + {k} := by
  simp only [owed, pend, ← Multiset.coe_add, Multiset.coe_singleton]
  ac_rfl

@[simp] theorem owed_record (σ : Engine) (e : Obs) : (σ.record e).owed = σ.owed := rfl

@[simp] theorem owed_acknowledge (σ : Engine) (h : Header) (t : Option Tag) :
    (σ.acknowledge h t).owed = σ.owed := by
  cases t <;> rfl

theorem owed_pop {i : Nat} (h : σ.pending[i]? = some k) :
    ({ σ with pending := σ.pending.eraseIdx i } : Engine).owed + {k} = σ.owed := by
  simp only [owed]
  rw [← coe_eraseIdx_add h]
  ac_rfl

theorem owed_append (σ : Engine) (ks : List Cont) :
    ({ σ with pending := σ.pending ++ ks } : Engine).owed = σ.owed + ks := by
  simp only [owed, ← Multiset.coe_add]
  ac_rfl

@[simp] theorem owed_pumpReceiveStaging (σ : Engine) : σ.pumpReceiveStaging.owed = σ.owed := by
  simp only [owed, pumpReceiveStaging, ← σ.receiveStaging.pump_owes, ← Multiset.coe_add]
  ac_rfl

@[simp] theorem owed_pumpSourceStaging (σ : Engine) : σ.pumpSourceStaging.owed = σ.owed := by
  simp only [owed, pumpSourceStaging, ← σ.sourceStaging.pump_owes, ← Multiset.coe_add]
  ac_rfl

/-- Only the calendar and the pools differ. -/
def Rescheduled (σ σ' : Engine) : Prop :=
  ∃ pending source receive,
    σ' = { σ with pending := pending, sourceStaging := source, receiveStaging := receive }

variable {address bytes flow peer qp vc : Nat} {tag : Tag}

theorem acquireReceiveStaging_ok (h : σ.acquireReceiveStaging bytes k = .ok σ') :
    Rescheduled σ σ' ∧ σ'.owed = σ.owed + {k} := by
  unfold acquireReceiveStaging at h
  split at h
  · cases h
  · cases h
    refine ⟨⟨_, _, _, rfl⟩, ?_⟩
    rw [owed_pumpReceiveStaging]
    simp only [owed, Pool.owed_request, ← Multiset.coe_add, Multiset.coe_singleton]
    ac_rfl

theorem releaseReceiveStaging_ok (h : σ.releaseReceiveStaging bytes = .ok σ') :
    Rescheduled σ σ' ∧ σ'.owed = σ.owed := by
  unfold releaseReceiveStaging at h
  split at h
  · cases h
  · cases h
    refine ⟨⟨_, _, _, rfl⟩, ?_⟩
    rw [owed_pumpReceiveStaging]
    rfl

theorem stageSourcePayload_ok (h : σ.stageSourcePayload bytes k = .ok σ') :
    Rescheduled σ σ' ∧ σ'.owed = σ.owed + {k} := by
  unfold stageSourcePayload at h
  split at h
  · cases h
  · cases h
    refine ⟨⟨_, _, _, rfl⟩, ?_⟩
    rw [owed_pumpSourceStaging]
    simp only [owed, Pool.owed_request, ← Multiset.coe_add, Multiset.coe_singleton]
    ac_rfl

theorem releaseSourceStaging_ok (h : σ.releaseSourceStaging bytes = .ok σ') :
    Rescheduled σ σ' ∧ σ'.owed = σ.owed := by
  unfold releaseSourceStaging at h
  split at h
  · cases h
  · cases h
    refine ⟨⟨_, _, _, rfl⟩, ?_⟩
    rw [owed_pumpSourceStaging]
    rfl

/-- The closures that report satisfied waits. -/
def Cont.reportsWait : Cont → Prop
  | .signalled _ _ => True
  | _ => False

theorem checkWaits_ok (h : σ.checkWaits = .ok σ') :
    ∃ waits ks, σ' = { σ with waits := waits, pending := σ.pending ++ ks } ∧
      ∀ k ∈ ks, Cont.reportsWait k := by
  obtain ⟨values, -, hσ⟩ := bind_eq_ok.mp h
  cases hσ
  refine ⟨_, _, rfl, ?_⟩
  intro k hk
  obtain ⟨p, -, rfl⟩ := List.mem_map.mp hk
  trivial

theorem writeMemory_ok {data : List UInt8} (h : σ.writeMemory address data = .ok σ') :
    ∃ waits ks, σ' = { σ with
        waits := waits
        pending := σ.pending ++ ks
        memory := poke σ.memory address data
        log := σ.log ++ [.stored address data.length] } ∧
      ∀ k ∈ ks, Cont.reportsWait k := by
  unfold writeMemory at h
  split at h
  · obtain ⟨waits, ks, rfl, hks⟩ := checkWaits_ok h
    exact ⟨waits, ks, rfl, hks⟩
  · cases h

theorem length_copyData (packet : List UInt8) (bytes : Nat) : (copyData packet bytes).length = bytes := by
  simp [copyData]

theorem store_ok {packet : List UInt8} {zero : Bool}
    (h : σ.store address packet bytes zero = .ok σ') :
    ∃ waits ks memory, σ' = { σ with
        waits := waits
        pending := σ.pending ++ ks
        memory := memory
        log := σ.log ++ [.stored address bytes] } ∧
      (∀ k ∈ ks, Cont.reportsWait k) ∧
      ∀ x, ¬ (address ≤ x ∧ x < address + bytes) → memory x = σ.memory x := by
  unfold store at h
  split at h
  · obtain ⟨waits, ks, rfl, hks⟩ := checkWaits_ok h
    exact ⟨waits, ks, _, rfl, hks, fun x hx => if_neg hx⟩
  · obtain ⟨waits, ks, rfl, hks⟩ := writeMemory_ok h
    rw [length_copyData]
    refine ⟨waits, ks, _, rfl, hks, fun x hx => ?_⟩
    unfold poke
    rw [length_copyData]
    exact if_neg hx

theorem commitWord_ok {r : Responder} {old next : UInt64} (h : σ.commitWord r old next = .ok σ') :
    ∃ waits ks, σ' = { σ with
        waits := waits
        pending := σ.pending ++ ks
        memory := poke σ.memory r.tag.word (wordBytes next)
        log := σ.log ++ [.executed r old next] } ∧
      (∀ k ∈ ks, Cont.reportsWait k) ∧ r.tag.word % 8 = 0 := by
  unfold commitWord at h
  split at h
  · cases h
  · rename_i halign
    split at h
    · obtain ⟨waits, ks, rfl, hks⟩ := checkWaits_ok h
      exact ⟨waits, ks, rfl, hks, by omega⟩
    · cases h

theorem readWord_ok {value : UInt64} (h : σ.readWord address = .ok value) :
    value = σ.word address ∧ address % 8 = 0 := by
  unfold readWord at h
  split at h
  · cases h
  · rename_i halign
    split at h
    · cases h
      exact ⟨rfl, by omega⟩
    · cases h

/-! ## Sending -/

/-- `t` carries the given range of a payload. -/
def IsFragment (peer : Nat) (tag : Tag) (qp flow vc : Nat) (piece : Nat × Nat) (t : Transmission) :
    Prop :=
  ∃ packet zero, packet.length = piece.2 ∧ t =
    { peer, packet, qp, flow, vc
      tag := { tag with fragmentOffset := piece.1, zeroPayload := zero }
      overhead := immediateBytes tag piece.1 }

theorem payload_ok {data : List UInt8} {zero : Bool}
    (h : σ.payload address bytes = .ok (data, zero)) : data.length = bytes := by
  unfold payload at h
  split at h
  · cases h
    exact List.length_replicate
  · obtain ⟨read, hread, hdata⟩ := bind_eq_ok.mp h
    cases hdata
    unfold readMemory at hread
    split at hread
    · cases hread
      simp
    · cases hread

theorem sendFragment_ok {piece : Nat × Nat}
    (h : σ.sendFragment peer tag qp flow vc address piece = .ok σ') :
    ∃ t, IsFragment peer tag qp flow vc piece t ∧ σ' = σ.pend (.transmit t) := by
  obtain ⟨⟨packet, zero⟩, hread, hσ⟩ := bind_eq_ok.mp h
  cases hσ
  exact ⟨_, ⟨packet, zero, payload_ok hread, rfl⟩, rfl⟩

theorem sendFragments_ok {pieces : List (Nat × Nat)}
    (h : pieces.foldlM (fun σ piece => σ.sendFragment peer tag qp flow vc address piece) σ = .ok σ')
    :
    ∃ ts, List.Forall₂ (IsFragment peer tag qp flow vc) pieces ts ∧
      σ' = { σ with pending := σ.pending ++ ts.map .transmit } := by
  induction pieces generalizing σ with
  | nil =>
      cases h
      exact ⟨[], .nil, by simp⟩
  | cons piece rest ih =>
      rw [List.foldlM_cons] at h
      obtain ⟨σ₁, hfirst, hrest⟩ := bind_eq_ok.mp h
      obtain ⟨t, ht, rfl⟩ := sendFragment_ok hfirst
      obtain ⟨ts, hts, rfl⟩ := ih hrest
      exact ⟨t :: ts, .cons ht hts, by simp [pend]⟩

theorem sendPayload_ok (h : σ.sendPayload peer tag qp flow vc address bytes = .ok σ') :
    ∃ ts, List.Forall₂ (IsFragment peer tag qp flow vc)
        (fragments (σ.payloadCap peer) bytes bytes 0) ts ∧
      σ' = { σ with pending := σ.pending ++ ts.map .transmit } := by
  unfold sendPayload at h
  split at h
  · cases h
  · exact sendFragments_ok h

/-- The packet of a request without payload. -/
def requestPacket (s : Source) : Transmission :=
  { peer := s.peer, packet := List.replicate (requestBytes s.tag.opcode) 0
    tag := { s.tag with phase := .request }, qp := s.qp, flow := s.flow, vc := s.vc, overhead := 0 }

theorem sendSource_ok {s : Source} (h : σ.sendSource s = .ok σ') :
    (s.tag.opcode.hasSourcePayload = true ∧
      ∃ ts, List.Forall₂ (IsFragment s.peer s.tag s.qp s.flow s.vc)
          (fragments (σ.payloadCap s.peer) s.tag.bytes s.tag.bytes 0) ts ∧
        σ' = { σ with pending := σ.pending ++ ts.map .transmit }) ∨
    (s.tag.opcode.hasSourcePayload = false ∧ σ' = σ.transmit (requestPacket s)) := by
  unfold sendSource at h
  split at h
  · rename_i hp
    exact .inl ⟨hp, sendPayload_ok h⟩
  · rename_i hp
    cases h
    exact .inr ⟨by simpa using hp, rfl⟩

theorem acknowledge_eq (σ : Engine) (h : Header) (t : Option Tag) :
    ∃ attached found, σ.acknowledge h t =
      { σ with ackMetadata := attached, log := σ.log ++ [.acknowledged h found] } := by
  cases t <;> exact ⟨_, _, rfl⟩

/-! ## Words of memory -/

theorem word_congr (h : ∀ x, address ≤ x → x < address + 8 → σ'.memory x = σ.memory x) :
    σ'.word address = σ.word address := by
  apply joinWord_congr
  intro i hi
  unfold byteAt
  rw [h _ (Nat.le_add_right _ _) (by omega)]

theorem word_poke (σ : Engine) (address : Nat) (value : UInt64) :
    ({ σ with memory := poke σ.memory address (wordBytes value) } : Engine).word address = value := by
  refine Eq.trans (joinWord_congr fun i hi => ?_) (joinWord_wordByte value)
  have hlen : (wordBytes value).length = 8 := by simp [wordBytes]
  have hget : (wordBytes value).getD i 0 = wordByte value i := by
    simp [wordBytes, List.getD_eq_getElem?_getD, List.getElem?_map, List.getElem?_range hi]
  show (poke σ.memory address (wordBytes value) (address + i)).getD 0 = _
  unfold poke
  rw [if_pos (by omega), Nat.add_sub_cancel_left, hget]
  dsimp only
  split
  · rename_i hz
    rw [hz]
    rfl
  · rfl

theorem word_poke_ne {address' : Nat} (value : UInt64) (hne : address ≠ address')
    (ha : address % 8 = 0) (ha' : address' % 8 = 0) :
    ({ σ with memory := poke σ.memory address' (wordBytes value) } : Engine).word address =
      σ.word address := by
  apply word_congr
  intro x hlo hhi
  have hlen : (wordBytes value).length = 8 := by simp [wordBytes]
  exact if_neg (by omega)

end Engine

end ProtoBridge.Rdma
