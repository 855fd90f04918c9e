import ProtoBridge.Endpoint.MemoryRequests

/-!
# Memory requests are executed once

Every packet between two endpoints has its own sequence number, so the set of packets that have arrived tells any
two of them apart, and a second arrival of a packet from the first of another.
-/

namespace ProtoBridge.Endpoint

open Lib
open Function (update update_of_ne update_self)

/-! ## Keys -/

variable {rank rank' sourceRank destRank : UInt16}

theorem makeMemorySeqKey_inj (h : makeMemorySeqKey rank = makeMemorySeqKey rank') : rank = rank' := by
  have hkey : ∀ r : UInt16, (makeMemorySeqKey r).toNat = 2 ^ 63 * 1 + r.toNat * 2 ^ 24 := by
    intro r
    have hr := r.toNat_lt
    rw [Nat.two_pow_add_eq_or_of_lt (by omega)]
    unfold makeMemorySeqKey makeSeqKey
    have hshift : (r.toUInt64 <<< 24).toNat = r.toNat * 2 ^ 24 := by
      rw [UInt64.toNat_shiftLeft, UInt16.toNat_toUInt64, Nat.shiftLeft_eq]
      exact Nat.mod_eq_of_lt (by simp; omega)
    rw [UInt64.toNat_or, UInt64.toNat_or, UInt64.toNat_or, hshift, Nat.or_comm]
    have hvc : ((0 : UInt8).toUInt64 <<< 16).toNat = 0 := rfl
    have hflow : ((0 : UInt16).toUInt64).toNat = 0 := rfl
    have htop : ((1 : UInt64) <<< 63).toNat = 2 ^ 63 * 1 := rfl
    rw [hvc, hflow, htop, Nat.or_zero, Nat.or_zero]
  have hnat := congrArg UInt64.toNat h
  rw [hkey, hkey] at hnat
  exact UInt16.toNat_inj.mp (by omega)

theorem memoryFlowKey_inj {a b : MemoryHeader} (ha : a.flowId = memoryFlowId ∧ a.virtualChannel = 0)
    (hb : b.flowId = memoryFlowId ∧ b.virtualChannel = 0) (h : memoryFlowKey a = memoryFlowKey b) :
    a.sourceRank = b.sourceRank := by
  have hkey : ∀ c : MemoryHeader, c.flowId = memoryFlowId → c.virtualChannel = 0 →
      (memoryFlowKey c).toNat = 2 ^ 32 * 0xFFFF + c.sourceRank.toNat := by
    intro c hflow hvc
    have hc := c.sourceRank.toNat_lt
    rw [Nat.two_pow_add_eq_or_of_lt (by omega)]
    unfold memoryFlowKey
    rw [hflow, hvc, UInt64.toNat_or, UInt16.toNat_toUInt64]
    rfl
  have hnat := congrArg UInt64.toNat h
  rw [hkey a ha.1 ha.2, hkey b hb.1 hb.2] at hnat
  exact UInt16.toNat_inj.mp (by omega)

/-! ## Payloads -/

theorem length_packNumber (width n : Nat) : (packNumber width n).length = width := by
  rw [packNumber, List.length_reverse, length_bytesOf]

theorem unpackNumber_packNumber (width n : Nat) (rest : List UInt8) :
    unpackNumber width (packNumber width n ++ rest) = n % 256 ^ width := by
  rw [unpackNumber, List.take_left' (length_packNumber width n), packNumber, List.reverse_reverse,
    ofBytes_bytesOf]

theorem unpack_address (address : UInt64) (rest : List UInt8) :
    UInt64.ofNat (unpackNumber 8 (packNumber 8 address.toNat ++ rest)) = address := by
  have hlt := address.toNat_lt
  rw [unpackNumber_packNumber, Nat.mod_eq_of_lt (by omega)]
  exact UInt64.ofNat_toNat

/-- What a packet for a request looks like. -/
inductive RemoteAccess.Packs : RemoteAccess → MemoryPacketType → List UInt8 → Prop
  | read (address : UInt64) (size : UInt32) :
      Packs (.read address size) .memoryRead (MemoryEndpoint.readPayload address size)
  | write (address : UInt64) (data : List UInt8) (hroom : data.length + 8 < 2 ^ 32) :
      Packs (.write address data) .memoryWrite (MemoryEndpoint.writePayload address data)
  | response (data : List UInt8) : Packs (.response data) .memoryResp data

/-- The packets of an endpoint carry the flow of memory on the first channel. -/
structure Made (entry : RemoteAccess × MemoryPacket) : Prop where
  flow : entry.2.header.flowId = memoryFlowId ∧ entry.2.header.virtualChannel = 0
  packs : entry.1.Packs entry.2.header.packetType entry.2.payload

/-! ## What was sent -/

variable {c : UInt16 → MemoryConfig} {σ σ' : MemoryFabric} {request : RemoteAccess} {type : MemoryPacketType}
  {payload : List UInt8}

/-- The packets on the wire between two endpoints are numbered one after the other. -/
structure Numbered (σ : MemoryFabric) : Prop where
  made : ∀ entry ∈ σ.wire, Made entry
  next : ∀ s d, (σ.endpoints s).nextSeqNum (makeMemorySeqKey d) = UInt32.ofNat (σ.countBetween s d)
  below : ∀ entry ∈ σ.wire, entry.2.header.sequenceNumber.toNat <
    σ.countBetween entry.2.header.sourceRank entry.2.header.destRank
  distinct : σ.wire.Pairwise fun a b =>
    a.2.header.sourceRank = b.2.header.sourceRank → a.2.header.destRank = b.2.header.destRank →
    a.2.header.sequenceNumber ≠ b.2.header.sequenceNumber

/-- The next packet has the next number. -/
theorem Numbered.emit (h : Numbered σ) (hpacks : request.Packs type payload)
    (hcount : σ.countBetween sourceRank destRank < 2 ^ 32) :
    Numbered (σ.emit request type sourceRank destRank payload) := by
  have hcounts : ∀ s d, (σ.emit request type sourceRank destRank payload).countBetween s d =
      σ.countBetween s d + if sourceRank = s ∧ destRank = d then 1 else 0 := by
    intro s d
    unfold MemoryFabric.countBetween MemoryFabric.emit MemoryEndpoint.makePacket
    rw [List.countP_append, List.countP_singleton]
    simp only [decide_eq_true_eq]
  have hseq : (UInt32.ofNat (σ.countBetween sourceRank destRank)).toNat =
      σ.countBetween sourceRank destRank := UInt32.toNat_ofNat_of_lt' hcount
  have hnumber : ((σ.endpoints sourceRank).makePacket type sourceRank destRank payload).header.sequenceNumber =
      UInt32.ofNat (σ.countBetween sourceRank destRank) := h.next sourceRank destRank
  refine ⟨?_, ?_, ?_, ?_⟩
  · intro entry hentry
    rcases List.mem_append.mp hentry with hold | hnew
    · exact h.made entry hold
    · rw [List.mem_singleton.mp hnew]
      exact ⟨⟨rfl, rfl⟩, hpacks⟩
  -- next
  · intro s d
    rw [hcounts]
    unfold MemoryFabric.emit
    dsimp only
    by_cases hs : s = sourceRank
    · rw [hs, update_self]
      unfold MemoryEndpoint.takeSeqNum
      dsimp only
      by_cases hd : d = destRank
      · rw [hd, update_self, h.next, if_pos ⟨rfl, rfl⟩]
        exact (UInt32.ofNat_add _ _).symm
      · have hkey : makeMemorySeqKey d ≠ makeMemorySeqKey destRank := fun heq => hd (makeMemorySeqKey_inj heq)
        rw [update_of_ne hkey, h.next, if_neg fun hboth => hd hboth.2.symm, Nat.add_zero]
    · rw [update_of_ne hs, h.next, if_neg fun hboth => hs hboth.1.symm, Nat.add_zero]
  -- below
  · intro entry hentry
    rw [hcounts]
    rcases List.mem_append.mp hentry with hold | hnew
    · exact Nat.lt_add_right _ (h.below entry hold)
    · rw [List.mem_singleton.mp hnew]
      dsimp only
      rw [hnumber, hseq]
      show _ < σ.countBetween sourceRank destRank + if sourceRank = sourceRank ∧ destRank = destRank then 1 else 0
      rw [if_pos ⟨rfl, rfl⟩]
      exact Nat.lt_succ_self _
  · refine List.pairwise_append.mpr ⟨h.distinct, List.pairwise_singleton _ _, ?_⟩
    intro old hold new hnew hsource hdest heq
    rw [List.mem_singleton.mp hnew] at hsource hdest heq
    replace hsource : old.2.header.sourceRank = sourceRank := hsource
    replace hdest : old.2.header.destRank = destRank := hdest
    have hbelow := h.below old hold
    rw [hsource, hdest, heq, hnumber, hseq] at hbelow
    exact Nat.lt_irrefl _ hbelow

variable {i : Nat} {outcome : MemoryOutcome} {log : List MemoryEvent}

theorem Numbered.keys_ne (h : Numbered σ) {j : Nat} {a b : RemoteAccess × MemoryPacket}
    (hi : σ.wire[i]? = some a) (hj : σ.wire[j]? = some b)
    (hdest : a.2.header.destRank = b.2.header.destRank)
    (hkey : (memoryFlowKey a.2.header, a.2.header.sequenceNumber) =
      (memoryFlowKey b.2.header, b.2.header.sequenceNumber)) : i = j := by
  obtain ⟨hflow, hseq⟩ := Prod.mk.inj hkey
  have hsource := memoryFlowKey_inj (h.made a (List.mem_of_getElem? hi)).flow
    (h.made b (List.mem_of_getElem? hj)).flow hflow
  obtain ⟨hilt, hia⟩ := List.getElem?_eq_some_iff.mp hi
  obtain ⟨hjlt, hjb⟩ := List.getElem?_eq_some_iff.mp hj
  by_contra hne
  have hpair := List.pairwise_iff_getElem.mp h.distinct
  rcases Nat.lt_or_gt_of_ne hne with hlt | hgt
  · have happart := hpair i j hilt hjlt hlt
    rw [hia, hjb] at happart
    exact happart hsource hdest hseq
  · have happart := hpair j i hjlt hilt hgt
    rw [hia, hjb] at happart
    exact happart hsource.symm hdest.symm hseq.symm

/-! ## What a packet does -/

/-- The memory after a write: the bytes of its range if all of them are there, and nothing otherwise. -/
def applyWrite (memory : List UInt8) (address : Nat) (data : List UInt8) : List UInt8 :=
  if address + data.length ≤ memory.length then
    memory.mapIdx fun x byte => if address ≤ x ∧ x < address + data.length then data.getD (x - address) 0 else byte
  else memory

/-- The memory after a request was executed. -/
def RemoteAccess.applied (request : RemoteAccess) (memory : List UInt8) : List UInt8 :=
  match request with
  | .write address data => applyWrite memory address.toNat data
  | .read .. | .response _ => memory

/-- What the execution of a request looks like. -/
inductive RemoteAccess.Executes : RemoteAccess → MemoryOutcome → Prop
  | read (address : UInt64) (size : UInt32) (notified scheduled : Bool) :
      Executes (.read address size) (.read notified scheduled)
  | write (address : UInt64) (data : List UInt8) (stored : Bool) : Executes (.write address data) (.write stored)
  | response (data : List UInt8) (delivered : Bool) : Executes (.response data) (.response delivered)

theorem length_applyWrite (memory : List UInt8) (address : Nat) (data : List UInt8) :
    (applyWrite memory address data).length = memory.length := by
  unfold applyWrite
  split
  · exact List.length_mapIdx
  · rfl

theorem applied_length (request : RemoteAccess) (memory : List UInt8) :
    (request.applied memory).length = memory.length := by
  cases request with
  | write address data => exact length_applyWrite _ _ _
  | read | response => rfl

theorem copyInto_eq {memory data : List UInt8} {address : Nat} (hfits : address + data.length ≤ memory.length) :
    MemoryEndpoint.copyInto memory address data = applyWrite memory address data := by
  unfold MemoryEndpoint.copyInto applyWrite
  rw [if_pos hfits]
  have htake : (memory.take address).length = address := by
    rw [List.length_take]
    omega
  apply List.ext_getElem?
  intro x
  rw [List.getElem?_mapIdx]
  rcases Nat.lt_or_ge x address with hbefore | hfrom
  · rw [List.append_assoc, List.getElem?_append_left (by omega), List.getElem?_take_of_lt hbefore,
      List.getElem?_eq_getElem (by omega), Option.map_some, if_neg (by omega)]
  · rcases Nat.lt_or_ge x (address + data.length) with hin | hbehind
    · rw [List.getElem?_append_left (by rw [List.length_append]; omega),
        List.getElem?_append_right (by omega), htake, List.getElem?_eq_getElem (by omega),
        List.getElem?_eq_getElem (by omega), Option.map_some, if_pos ⟨hfrom, hin⟩, List.getElem_eq_getD 0]
    · rw [List.getElem?_append_right (by rw [List.length_append]; omega), List.length_append, htake,
        List.getElem?_drop, show address + data.length + (x - (address + data.length)) = x by omega]
      cases hx : memory[x]? with
      | none => rfl
      | some byte => rw [Option.map_some, if_neg (by omega)]

theorem applyWrite_nil (address : Nat) (data : List UInt8) : applyWrite [] address data = [] := by
  unfold applyWrite
  split <;> rfl

/-- A packet that arrives for the first time is executed; at every arrival it is acknowledged. -/
theorem processMemoryPacket_spec (config : MemoryConfig) (now : Nat) (e : MemoryEndpoint)
    {entry : RemoteAccess × MemoryPacket} (hmade : Made entry) (hlen : e.memoryData.length < 2 ^ 64)
    (hdevice : config.memoryDevice = false → e.memoryData = []) :
    ∃ e' response outcome, e.processMemoryPacket config now entry.2 =
        (e', response, outcome, config.acknowledges entry.2.header.sourceRank) ∧
      response.toList.length = outcome.schedules.toNat ∧
      e'.nextSeqNum = e.nextSeqNum ∧
      e'.memoryDelivered =
        insert (memoryFlowKey entry.2.header, entry.2.header.sequenceNumber) e.memoryDelivered ∧
      ((memoryFlowKey entry.2.header, entry.2.header.sequenceNumber) ∈ e.memoryDelivered →
        outcome = .duplicate ∧ e'.memoryData = e.memoryData) ∧
      ((memoryFlowKey entry.2.header, entry.2.header.sequenceNumber) ∉ e.memoryDelivered →
        entry.1.Executes outcome ∧ e'.memoryData = entry.1.applied e.memoryData) := by
  obtain ⟨request, packet⟩ := entry
  have hpacks := hmade.packs
  dsimp only at hpacks ⊢
  unfold MemoryEndpoint.processMemoryPacket
  dsimp only
  by_cases hold : (memoryFlowKey packet.header, packet.header.sequenceNumber) ∈ e.memoryDelivered
  · rw [if_pos hold]
    exact ⟨e, none, .duplicate, rfl, rfl, rfl, (Finset.insert_eq_of_mem hold).symm, fun _ => ⟨rfl, rfl⟩,
      fun hnew => absurd hold hnew⟩
  · rw [if_neg hold]
    generalize packet.header.packetType = type at hpacks
    generalize packet.payload = payload at hpacks
    cases hpacks with
    | read address size =>
        have hsize : (MemoryEndpoint.readPayload address size).length = 12 := by
          unfold MemoryEndpoint.readPayload
          rw [List.length_append, length_packNumber, length_packNumber]
        dsimp only
        rw [if_neg (by omega)]
        split
        · exact ⟨_, _, _, rfl, rfl, rfl, rfl, fun h => absurd h hold, fun _ => ⟨.read .., rfl⟩⟩
        · exact ⟨_, _, _, rfl, rfl, rfl, rfl, fun h => absurd h hold, fun _ => ⟨.read .., rfl⟩⟩
    | write address data hroom =>
        have hsize : (MemoryEndpoint.writePayload address data).length = 8 + data.length := by
          unfold MemoryEndpoint.writePayload
          rw [List.length_append, length_packNumber]
        have haddress : UInt64.ofNat (unpackNumber 8 (MemoryEndpoint.writePayload address data)) = address :=
          unpack_address address data
        have hdata : (MemoryEndpoint.writePayload address data).drop 8 = data :=
          List.drop_left' (length_packNumber 8 _)
        have hwrite : (UInt32.ofNat (MemoryEndpoint.writePayload address data).length - 8).toNat = data.length := by
          have hofNat : (UInt32.ofNat (8 + data.length)).toNat = 8 + data.length :=
            UInt32.toNat_ofNat_of_lt' (show 8 + data.length < 2 ^ 32 by omega)
          have hle : (8 : UInt32) ≤ UInt32.ofNat (8 + data.length) := by
            rw [UInt32.le_iff_toNat_le, hofNat]
            exact Nat.le_add_right _ _
          rw [hsize, UInt32.toNat_sub_of_le _ _ hle, hofNat]
          exact Nat.add_sub_cancel_left _ _
        have hmemory : (UInt64.ofNat e.memoryData.length).toNat = e.memoryData.length :=
          UInt64.toNat_ofNat_of_lt' hlen
        dsimp only
        rw [if_neg (by omega), haddress, hdata, hwrite, List.take_length]
        by_cases hfits : config.memoryDevice ∧ e.memoryData ≠ [] ∧
            address ≤ UInt64.ofNat e.memoryData.length ∧
            (UInt32.ofNat (MemoryEndpoint.writePayload address data).length - 8).toUInt64 ≤
              UInt64.ofNat e.memoryData.length - address
        · rw [if_pos hfits]
          refine ⟨_, _, _, rfl, rfl, rfl, rfl, fun h => absurd h hold, fun _ => ⟨.write .., ?_⟩⟩
          obtain ⟨-, -, hstart, hend⟩ := hfits
          rw [UInt64.le_iff_toNat_le, UInt64.toNat_sub_of_le _ _ hstart, UInt32.toNat_toUInt64, hwrite,
            hmemory] at hend
          rw [UInt64.le_iff_toNat_le, hmemory] at hstart
          exact copyInto_eq (by omega)
        · rw [if_neg hfits]
          refine ⟨_, _, _, rfl, rfl, rfl, rfl, fun h => absurd h hold, fun _ => ⟨.write .., ?_⟩⟩
          show e.memoryData = applyWrite e.memoryData address.toNat data
          by_cases hempty : e.memoryData = []
          · rw [hempty, applyWrite_nil]
          · unfold applyWrite
            rw [if_neg]
            intro hin
            have hstart : address ≤ UInt64.ofNat e.memoryData.length := by
              rw [UInt64.le_iff_toNat_le, hmemory]
              omega
            refine hfits ⟨?_, hempty, hstart, ?_⟩
            · by_contra hnone
              exact hempty (hdevice (Bool.not_eq_true _ ▸ hnone))
            · rw [UInt64.le_iff_toNat_le, UInt64.toNat_sub_of_le _ _ hstart, UInt32.toNat_toUInt64, hwrite,
                hmemory]
              omega
    | response data =>
        exact ⟨_, _, _, rfl, rfl, rfl, rfl, fun h => absurd h hold, fun _ => ⟨.response .., rfl⟩⟩

/-! ## Histories -/

/-- What the arrivals of a packet have done, in turn. -/
def outcomesOf (i : Nat) (log : List MemoryEvent) : List MemoryOutcome :=
  log.filterMap fun
    | .arrived j outcome _ => if j = i then some outcome else none
    | .sent _ | .responded _ => none

/-- A packet to this endpoint that arrived for the first time. -/
def firstArrival (wire : List (RemoteAccess × MemoryPacket)) (rank : UInt16) :
    MemoryEvent → Option RemoteAccess
  | .arrived i outcome _ =>
      match wire[i]? with
      | some entry => if entry.2.header.destRank = rank ∧ outcome ≠ .duplicate then some entry.1 else none
      | none => none
  | .sent _ | .responded _ => none

/-- The memory of an endpoint after what a history has brought it. -/
def memoryAfter (wire : List (RemoteAccess × MemoryPacket)) (rank : UInt16) (memory : List UInt8)
    (log : List MemoryEvent) : List UInt8 :=
  (log.filterMap (firstArrival wire rank)).foldl (fun memory request => request.applied memory) memory

theorem outcomesOf_append (i : Nat) (log tail : List MemoryEvent) :
    outcomesOf i (log ++ tail) = outcomesOf i log ++ outcomesOf i tail :=
  List.filterMap_append

theorem RemoteAccess.Executes.ne_duplicate (h : request.Executes outcome) :
    outcome ≠ .duplicate := by
  rintro rfl
  cases h

theorem mem_outcomesOf :
    outcome ∈ outcomesOf i log ↔ ∃ acknowledged, .arrived i outcome acknowledged ∈ log := by
  unfold outcomesOf
  rw [List.mem_filterMap]
  constructor
  · rintro ⟨e, he, heq⟩
    cases e with
    | sent | responded => cases heq
    | arrived j o acknowledged =>
        dsimp only at heq
        split at heq
        · rename_i hj
          cases heq
          exact ⟨acknowledged, hj ▸ he⟩
        · cases heq
  · rintro ⟨acknowledged, he⟩
    exact ⟨_, he, if_pos rfl⟩

/-- The responses to a read: those that are scheduled and those that were sent. -/
def MemoryFabric.responsesTo (σ : MemoryFabric) (i : Nat) : Nat :=
  σ.deferred.countP (fun entry => entry.1 = i) + σ.log.count (.responded i)

/-- What every run keeps. -/
structure ExecutedOnce (c : UInt16 → MemoryConfig) (σ : MemoryFabric) : Prop where
  config : σ.config = c
  numbered : Numbered σ
  inWire : ∀ i outcome acknowledged, .arrived i outcome acknowledged ∈ σ.log → i < σ.wire.length
  delivered : ∀ rank key, key ∈ (σ.endpoints rank).memoryDelivered ↔ ∃ i entry, σ.wire[i]? = some entry ∧
    outcomesOf i σ.log ≠ [] ∧ entry.2.header.destRank = rank ∧
    key = (memoryFlowKey entry.2.header, entry.2.header.sequenceNumber)
  once : ∀ i entry, σ.wire[i]? = some entry → outcomesOf i σ.log = [] ∨
    ∃ outcome n, outcomesOf i σ.log = outcome :: List.replicate n .duplicate ∧ entry.1.Executes outcome
  responses : ∀ i, σ.responsesTo i = (outcomesOf i σ.log).countP MemoryOutcome.schedules
  memory : ∀ rank, (σ.endpoints rank).memoryData =
    memoryAfter σ.wire rank (MemoryEndpoint.start (c rank)).memoryData σ.log
  acknowledged : ∀ i outcome acknowledged entry, .arrived i outcome acknowledged ∈ σ.log →
    σ.wire[i]? = some entry →
    acknowledged = (c entry.2.header.destRank).acknowledges entry.2.header.sourceRank

theorem memoryAfter_length (wire : List (RemoteAccess × MemoryPacket)) (rank : UInt16) (memory : List UInt8)
    (log : List MemoryEvent) : (memoryAfter wire rank memory log).length = memory.length := by
  unfold memoryAfter
  generalize log.filterMap (firstArrival wire rank) = requests
  induction requests generalizing memory with
  | nil => rfl
  | cons request rest ih => rw [List.foldl_cons, ih, applied_length]

theorem firstArrival_append {wire : List (RemoteAccess × MemoryPacket)}
    (hin : ∀ i outcome acknowledged, .arrived i outcome acknowledged ∈ log → i < wire.length)
    (entry : RemoteAccess × MemoryPacket) (rank : UInt16) :
    log.filterMap (firstArrival (wire ++ [entry]) rank) = log.filterMap (firstArrival wire rank) := by
  refine List.filterMap_congr fun e he => ?_
  cases e with
  | sent | responded => rfl
  | arrived i outcome acknowledged =>
      unfold firstArrival
      dsimp only
      rw [List.getElem?_append_left (hin i outcome acknowledged he)]

theorem ExecutedOnce.emit (h : ExecutedOnce c σ) (hpacks : request.Packs type payload)
    (hcount : σ.countBetween sourceRank destRank < 2 ^ 32) :
    ExecutedOnce c (σ.emit request type sourceRank destRank payload) := by
  have hlog : ∀ i, outcomesOf i (σ.emit request type sourceRank destRank payload).log = outcomesOf i σ.log := by
    intro i
    refine (outcomesOf_append i σ.log [.sent σ.wire.length]).trans ?_
    exact List.append_nil _
  have harrived : ∀ i outcome acknowledged,
      .arrived i outcome acknowledged ∈ (σ.emit request type sourceRank destRank payload).log →
      .arrived i outcome acknowledged ∈ σ.log := by
    intro i outcome acknowledged he
    rcases List.mem_append.mp he with hold | hnew
    · exact hold
    · cases List.mem_singleton.mp hnew
  have hsame : ∀ rank, ((σ.emit request type sourceRank destRank payload).endpoints rank).memoryDelivered =
        (σ.endpoints rank).memoryDelivered ∧
      ((σ.emit request type sourceRank destRank payload).endpoints rank).memoryData =
        (σ.endpoints rank).memoryData := by
    intro rank
    unfold MemoryFabric.emit
    dsimp only
    by_cases hrank : rank = sourceRank
    · rw [hrank, update_self]
      exact ⟨rfl, rfl⟩
    · rw [update_of_ne hrank]
      exact ⟨rfl, rfl⟩
  -- a packet that has arrived was on the wire before
  have hbefore : ∀ i entry, (σ.emit request type sourceRank destRank payload).wire[i]? = some entry →
      outcomesOf i σ.log ≠ [] → σ.wire[i]? = some entry := by
    intro i entry hget hne
    obtain ⟨outcome, hmem⟩ := List.exists_mem_of_ne_nil _ hne
    obtain ⟨acknowledged, he⟩ := mem_outcomesOf.mp hmem
    have hlt := h.inWire i outcome acknowledged he
    rw [← hget]
    exact (List.getElem?_append_left hlt).symm
  refine ⟨h.config, h.numbered.emit hpacks hcount, ?_, ?_, ?_, ?_, ?_, ?_⟩
  · intro i outcome acknowledged he
    refine (h.inWire i outcome acknowledged (harrived i outcome acknowledged he)).trans ?_
    show _ < (σ.wire ++ [_]).length
    rw [List.length_append]
    exact Nat.lt_succ_self _
  -- delivered
  · intro rank key
    rw [(hsame rank).1, h.delivered]
    constructor
    · rintro ⟨i, entry, hget, hne, hrest⟩
      refine ⟨i, entry, ?_, by rw [hlog]; exact hne, hrest⟩
      exact (List.getElem?_append_left (List.getElem?_eq_some_iff.mp hget).1).trans hget
    · rintro ⟨i, entry, hget, hne, hrest⟩
      rw [hlog] at hne
      exact ⟨i, entry, hbefore i entry hget hne, hne, hrest⟩
  · intro i entry hget
    rw [hlog]
    by_cases hne : outcomesOf i σ.log = []
    · exact .inl hne
    · exact h.once i entry (hbefore i entry hget hne)
  · intro i
    rw [hlog, ← h.responses i]
    show _ + (σ.log ++ [_]).count _ = _
    rw [List.count_append, List.count_singleton]
    rfl
  · intro rank
    rw [(hsame rank).2, h.memory]
    unfold memoryAfter MemoryFabric.emit
    rw [List.filterMap_append, firstArrival_append h.inWire]
    exact congrArg (List.foldl _ _) (List.append_nil _).symm
  · intro i outcome acknowledged entry he hget
    have hold := harrived i outcome acknowledged he
    refine h.acknowledged i outcome acknowledged entry hold ?_
    rw [← hget]
    exact (List.getElem?_append_left (h.inWire i outcome acknowledged hold)).symm

theorem start_memory (config : MemoryConfig) :
    (MemoryEndpoint.start config).memoryData.length < 2 ^ 64 ∧
      (config.memoryDevice = false → (MemoryEndpoint.start config).memoryData = []) := by
  unfold MemoryEndpoint.start
  dsimp only
  constructor
  · split
    · rw [List.length_replicate]
      exact config.memorySize.toNat_lt
    · exact Nat.two_pow_pos 64
  · intro hnone
    rw [if_neg]
    rintro ⟨hdevice, -⟩
    rw [hnone] at hdevice
    cases hdevice

theorem ExecutedOnce.arrive (h : ExecutedOnce c σ) {i : Nat} {entry : RemoteAccess × MemoryPacket}
    (hget : σ.wire[i]? = some entry) : ExecutedOnce c (σ.arrive i entry.2) := by
  have hlen := memoryAfter_length σ.wire entry.2.header.destRank
    (MemoryEndpoint.start (c entry.2.header.destRank)).memoryData σ.log
  have hstart := start_memory (c entry.2.header.destRank)
  obtain ⟨e', response, outcome, hprocess, hresponse, hnext, hdelivered, hdup, hnew⟩ :=
    processMemoryPacket_spec (c entry.2.header.destRank) σ.now (σ.endpoints entry.2.header.destRank)
      (h.numbered.made entry (List.mem_of_getElem? hget))
      (by rw [h.memory, hlen]; exact hstart.1)
      (by
        intro hnone
        rw [h.memory, ← List.length_eq_zero_iff, hlen, List.length_eq_zero_iff]
        exact hstart.2 hnone)
  -- the key is known if and only if this packet has arrived before
  have hknown : (memoryFlowKey entry.2.header, entry.2.header.sequenceNumber) ∈
      (σ.endpoints entry.2.header.destRank).memoryDelivered ↔ outcomesOf i σ.log ≠ [] := by
    rw [h.delivered]
    constructor
    · rintro ⟨j, other, hother, hne, hdest, hkey⟩
      rw [h.numbered.keys_ne hget hother hdest.symm hkey]
      exact hne
    · exact fun hne => ⟨i, entry, hget, hne, rfl, rfl⟩
  have heq : σ.arrive i entry.2 =
      { σ with
        endpoints := update σ.endpoints entry.2.header.destRank e'
        deferred := σ.deferred ++ response.toList.map fun d => (i, d)
        log := σ.log ++ [.arrived i outcome
          ((c entry.2.header.destRank).acknowledges entry.2.header.sourceRank)] } := by
    unfold MemoryFabric.arrive
    dsimp only
    rw [h.config, hprocess]
  have hlogs : ∀ j, outcomesOf j (σ.log ++ [.arrived i outcome
      ((c entry.2.header.destRank).acknowledges entry.2.header.sourceRank)]) =
      outcomesOf j σ.log ++ if i = j then [outcome] else [] := by
    intro j
    rw [outcomesOf_append]
    congr 1
    unfold outcomesOf
    rw [List.filterMap_cons]
    dsimp only
    by_cases hj : i = j
    · rw [if_pos hj, if_pos hj, List.filterMap_nil]
    · rw [if_neg hj, if_neg hj, List.filterMap_nil]
  rw [heq]
  refine ⟨h.config, ⟨h.numbered.made, ?_, h.numbered.below, h.numbered.distinct⟩, ?_, ?_, ?_, ?_, ?_, ?_⟩
  · intro s d
    dsimp only
    by_cases hs : s = entry.2.header.destRank
    · rw [hs, update_self, hnext]
      exact h.numbered.next _ d
    · rw [update_of_ne hs]
      exact h.numbered.next s d
  · intro j o acknowledged he
    rcases List.mem_append.mp he with hold | hlast
    · exact h.inWire j o acknowledged hold
    · cases List.mem_singleton.mp hlast
      exact (List.getElem?_eq_some_iff.mp hget).1
  · intro rank key
    dsimp only
    by_cases hrank : rank = entry.2.header.destRank
    · rw [hrank, update_self, hdelivered, Finset.mem_insert, h.delivered]
      constructor
      · rintro (hkey | ⟨j, other, hother, hne, hdest, hkey⟩)
        · refine ⟨i, entry, hget, ?_, rfl, hkey⟩
          rw [hlogs, if_pos rfl]
          exact List.append_ne_nil_of_right_ne_nil _ (List.cons_ne_nil _ _)
        · refine ⟨j, other, hother, ?_, hdest, hkey⟩
          rw [hlogs]
          exact List.append_ne_nil_of_left_ne_nil hne _
      · rintro ⟨j, other, hother, hne, hdest, hkey⟩
        by_cases hj : i = j
        · rw [← hj, hget] at hother
          cases hother
          exact .inl hkey
        · rw [hlogs, if_neg hj, List.append_nil] at hne
          exact .inr ⟨j, other, hother, hne, hdest, hkey⟩
    · rw [update_of_ne hrank, h.delivered]
      constructor
      · rintro ⟨j, other, hother, hne, hdest, hkey⟩
        refine ⟨j, other, hother, ?_, hdest, hkey⟩
        rw [hlogs]
        exact List.append_ne_nil_of_left_ne_nil hne _
      · rintro ⟨j, other, hother, hne, hdest, hkey⟩
        by_cases hj : i = j
        · rw [← hj, hget] at hother
          cases hother
          exact absurd hdest.symm hrank
        · rw [hlogs, if_neg hj, List.append_nil] at hne
          exact ⟨j, other, hother, hne, hdest, hkey⟩
  · intro j other hother
    rw [hlogs]
    by_cases hj : i = j
    · rw [← hj, hget] at hother
      cases hother
      rw [← hj, if_pos rfl]
      right
      rcases h.once i entry hget with hnone | ⟨first, n, hbefore, hexec⟩
      · have hfresh := hnew (fun hin => hknown.mp hin hnone)
        exact ⟨outcome, 0, by rw [hnone]; rfl, hfresh.1⟩
      · have hagain := hdup (hknown.mpr (by rw [hbefore]; exact List.cons_ne_nil _ _))
        refine ⟨first, n + 1, ?_, hexec⟩
        rw [hbefore, hagain.1, List.cons_append, ← List.replicate_succ']
    · rw [if_neg hj, List.append_nil]
      exact h.once j other hother
  · intro j
    rw [hlogs, List.countP_append, ← h.responses j]
    unfold MemoryFabric.responsesTo
    dsimp only
    rw [List.countP_append, List.countP_map, List.count_append, List.count_singleton]
    have hother : ((MemoryEvent.arrived i outcome
        ((c entry.2.header.destRank).acknowledges entry.2.header.sourceRank)) == .responded j) = false := rfl
    rw [hother]
    by_cases hj : i = j
    · have hall : response.toList.countP ((fun entry : Nat × DeferredResponse => decide (entry.1 = j)) ∘
          fun d => (i, d)) = response.toList.length :=
        List.countP_eq_length.mpr fun d _ => decide_eq_true hj
      rw [hall, hresponse, if_pos hj, List.countP_singleton, Bool.toNat]
      cases outcome.schedules <;> simp <;> omega
    · have hnone : response.toList.countP ((fun entry : Nat × DeferredResponse => decide (entry.1 = j)) ∘
          fun d => (i, d)) = 0 :=
        List.countP_eq_zero.mpr fun d _ => by simpa using hj
      rw [hnone, if_neg hj]
      rfl
  · intro rank
    dsimp only
    unfold memoryAfter
    rw [List.filterMap_append, List.foldl_append]
    have hlast : (List.filterMap (firstArrival σ.wire rank) [.arrived i outcome
        ((c entry.2.header.destRank).acknowledges entry.2.header.sourceRank)]) =
        if entry.2.header.destRank = rank ∧ outcome ≠ .duplicate then [entry.1] else [] := by
      have hfirst : ∀ acknowledged, firstArrival σ.wire rank (.arrived i outcome acknowledged) =
          if entry.2.header.destRank = rank ∧ outcome ≠ .duplicate then some entry.1 else none := by
        intro acknowledged
        unfold firstArrival
        dsimp only
        rw [hget]
      rw [List.filterMap_cons, hfirst, List.filterMap_nil]
      by_cases hboth : entry.2.header.destRank = rank ∧ outcome ≠ .duplicate
      · rw [if_pos hboth, if_pos hboth]
      · rw [if_neg hboth, if_neg hboth]
    rw [hlast]
    have hmemory := h.memory rank
    unfold memoryAfter at hmemory
    rw [← hmemory]
    by_cases hrank : rank = entry.2.header.destRank
    · rw [hrank, update_self]
      by_cases hin : (memoryFlowKey entry.2.header, entry.2.header.sequenceNumber) ∈
          (σ.endpoints entry.2.header.destRank).memoryDelivered
      · rw [(hdup hin).2, if_neg fun hboth => hboth.2 (hdup hin).1]
        rfl
      · rw [(hnew hin).2, if_pos ⟨rfl, (hnew hin).1.ne_duplicate⟩]
        rfl
    · rw [update_of_ne hrank, if_neg fun hboth => hrank hboth.1.symm]
      rfl
  · intro j o acknowledged other he hother
    rcases List.mem_append.mp he with hold | hlast
    · exact h.acknowledged j o acknowledged other hold hother
    · cases List.mem_singleton.mp hlast
      rw [hget] at hother
      cases hother
      rfl

theorem ExecutedOnce.send (h : ExecutedOnce c σ) {address : UInt64} {data : List UInt8}
    (hlen : data.length < 2 ^ 32) (hcount : σ.countBetween sourceRank destRank < 2 ^ 32)
    (hsize : ¬ UInt32.ofNat data.length > 0xFFFFFFFF - 8) :
    ExecutedOnce c (σ.emit (.write address data) .memoryWrite sourceRank destRank
      (MemoryEndpoint.writePayload address data)) := by
  refine h.emit (.write address data ?_) hcount
  have hle := UInt32.le_iff_toNat_le.mp (UInt32.not_lt.mp hsize)
  rw [UInt32.toNat_ofNat_of_lt' hlen] at hle
  have htop : (0xFFFFFFFF - 8 : UInt32).toNat = 2 ^ 32 - 9 := rfl
  omega

/-- A response that is sent was scheduled. -/
theorem ExecutedOnce.responded (h : ExecutedOnce c σ) {k : Nat} {d : DeferredResponse}
    (hget : σ.deferred[k]? = some (i, d)) :
    ExecutedOnce c { σ with deferred := σ.deferred.eraseIdx k, log := σ.log ++ [.responded i] } := by
  have hlogs : ∀ j, outcomesOf j (σ.log ++ [.responded i]) = outcomesOf j σ.log := by
    intro j
    rw [outcomesOf_append]
    exact List.append_nil _
  have harrived : ∀ j outcome acknowledged, .arrived j outcome acknowledged ∈ σ.log ++ [.responded i] →
      .arrived j outcome acknowledged ∈ σ.log := by
    intro j outcome acknowledged he
    rcases List.mem_append.mp he with hold | hnew
    · exact hold
    · cases List.mem_singleton.mp hnew
  refine ⟨h.config, ⟨h.numbered.made, h.numbered.next, h.numbered.below, h.numbered.distinct⟩, ?_, ?_, ?_, ?_, ?_,
    ?_⟩
  · exact fun j outcome acknowledged he => h.inWire j outcome acknowledged (harrived j outcome acknowledged he)
  · intro rank key
    rw [h.delivered]
    exact exists_congr fun j => exists_congr fun entry => by rw [hlogs]
  · intro j entry hentry
    rw [hlogs]
    exact h.once j entry hentry
  -- responses
  · intro j
    rw [hlogs, ← h.responses j]
    unfold MemoryFabric.responsesTo
    dsimp only
    obtain ⟨hk, heq⟩ := List.getElem?_eq_some_iff.mp hget
    have hperm := (List.getElem_cons_eraseIdx_perm hk).countP_eq fun entry => decide (entry.1 = j)
    rw [heq, List.countP_cons] at hperm
    rw [List.count_append, List.count_singleton, ← hperm]
    by_cases hj : i = j
    · rw [if_pos (by simpa using hj), if_pos (decide_eq_true hj)]
      omega
    · rw [if_neg (by simpa using hj), if_neg (by simpa using hj)]
      omega
  · intro rank
    rw [h.memory]
    unfold memoryAfter
    dsimp only
    rw [List.filterMap_append]
    exact congrArg (List.foldl _ _) (List.append_nil _).symm
  · exact fun j outcome acknowledged entry he hentry =>
      h.acknowledged j outcome acknowledged entry (harrived j outcome acknowledged he) hentry

theorem executedOnce_invariant (c : UInt16 → MemoryConfig) :
    (memoryFabricMachine c).Invariant (ExecutedOnce c) := by
  refine Machine.Inductive.invariant ⟨?_, ?_⟩
  · rintro σ rfl
    refine ⟨rfl, ⟨(fun entry he => nomatch he), (fun s d => rfl), (fun entry he => nomatch he), .nil⟩,
      (fun i o a he => nomatch he), ?_, (fun i entry he => nomatch he), (fun i => rfl), (fun rank => rfl),
      fun i o a entry he => nomatch he⟩
    intro rank key
    refine ⟨fun hmem => ?_, ?_⟩
    · exact absurd hmem (Finset.notMem_empty key)
    · rintro ⟨i, entry, hget, -⟩
      cases hget
  · intro σ act σ' h hen hex
    cases act with
    | sendMemoryRead sourceRank destRank address size =>
        cases hex
        exact h.emit (.read address size) hen
    | sendMemoryWrite sourceRank destRank address data =>
        obtain ⟨hlen, hcount⟩ := hen
        replace hex : σ.sendMemoryWrite sourceRank destRank address data = .ok σ' := hex
        unfold MemoryFabric.sendMemoryWrite at hex
        dsimp only at hex
        split at hex
        · cases hex
        · rename_i hsize
          cases hex
          exact h.send hlen hcount hsize
    | sendMemoryResponse sourceRank destRank data =>
        cases hex
        exact h.emit (.response data) hen.2
    | sendMemorySemantic sourceRank destRank address data size accessType =>
        obtain ⟨hdata, hcount⟩ := hen
        replace hex : σ.sendMemorySemantic sourceRank destRank address data size accessType = .ok σ' := hex
        have hread : ExecutedOnce c (σ.emit (.read address size) .memoryRead sourceRank destRank
            (MemoryEndpoint.readPayload address size)) := h.emit (.read address size) hcount
        unfold MemoryFabric.sendMemorySemantic at hex
        cases data with
        | none =>
            cases accessType with
            | dmaBulk | syncLoadStore | asyncUrma =>
                cases hex
                exact hread
        | some data =>
            have hlen := hdata data rfl
            have hlt : data.length < 2 ^ 32 := hlen ▸ size.toNat_lt
            have hofNat : UInt32.ofNat data.length = size := by rw [hlen, UInt32.ofNat_toNat]
            have hwrite : ¬ UInt32.ofNat data.length > 0xFFFFFFFF - 8 →
                ExecutedOnce c (σ.emit (.write address data) .memoryWrite sourceRank destRank
                  (MemoryEndpoint.writePayload address data)) := h.send hlt hcount
            rw [hofNat] at hwrite
            cases accessType with
            | dmaBulk =>
                replace hex : σ.sendMemoryWrite sourceRank destRank address data = .ok σ' := hex
                unfold MemoryFabric.sendMemoryWrite at hex
                dsimp only at hex
                rw [hofNat] at hex
                split at hex
                · cases hex
                · rename_i hsize
                  cases hex
                  exact hwrite hsize
            | syncLoadStore | asyncUrma =>
                dsimp only at hex
                split at hex
                · cases hex
                · rename_i hsize
                  cases hex
                  exact hwrite hsize
    | arrive i =>
        replace hen : i < σ.wire.length := hen
        have hget := List.getElem?_eq_getElem hen
        unfold memoryFabricMachine MemoryFabric.exec at hex
        dsimp only at hex
        rw [hget] at hex
        cases hex
        exact h.arrive hget
    | respond k =>
        obtain ⟨⟨i, d⟩, hget, hcount⟩ := hen
        unfold memoryFabricMachine MemoryFabric.exec at hex
        dsimp only at hex
        rw [hget] at hex
        cases hex
        exact (h.responded hget).emit (.response _) hcount
    | advance time =>
        cases hex
        exact ⟨h.config, ⟨h.numbered.made, h.numbered.next, h.numbered.below, h.numbered.distinct⟩, h.inWire,
          h.delivered, h.once, h.responses, h.memory, h.acknowledged⟩

theorem ExecutedOnce.responsesTo_le (h : ExecutedOnce c σ) (hi : i < σ.wire.length) :
    σ.responsesTo i ≤ 1 := by
  rw [h.responses]
  rcases h.once i _ (List.getElem?_eq_getElem hi) with hnone | ⟨outcome, n, heq, -⟩
  · rw [hnone]
    exact Nat.zero_le 1
  · have hdup : (List.replicate n MemoryOutcome.duplicate).countP MemoryOutcome.schedules = 0 :=
      List.countP_eq_zero.mpr fun o ho => by
        rw [(List.mem_replicate.mp ho).2]
        exact Bool.false_ne_true
    rw [heq, List.countP_cons, hdup]
    split <;> omega

/-- In any order of arrivals: a packet is executed at its first arrival and at no other, the memory of an endpoint
is what its first arrivals have written, each exactly its range, and every arrival is acknowledged by an endpoint
that acknowledges its source. -/
theorem memoryRequests_once (c : UInt16 → MemoryConfig) :
    (memoryFabricMachine c).Invariant fun σ =>
      (∀ i entry, σ.wire[i]? = some entry → outcomesOf i σ.log = [] ∨
        ∃ outcome n, outcomesOf i σ.log = outcome :: List.replicate n .duplicate ∧ entry.1.Executes outcome) ∧
      (∀ i < σ.wire.length, σ.responsesTo i ≤ 1) ∧
      (∀ rank, (σ.endpoints rank).memoryData =
        memoryAfter σ.wire rank (MemoryEndpoint.start (c rank)).memoryData σ.log) ∧
      ∀ i outcome acknowledged entry, .arrived i outcome acknowledged ∈ σ.log → σ.wire[i]? = some entry →
        acknowledged = (c entry.2.header.destRank).acknowledges entry.2.header.sourceRank := by
  intro σ hreach
  have h := executedOnce_invariant c σ hreach
  exact ⟨h.once, fun i hi => h.responsesTo_le hi, h.memory, h.acknowledged⟩

/-- A read that arrives at an endpoint that does not acknowledge. -/
theorem not_always_acknowledged :
    ¬ ∀ c, (memoryFabricMachine c).Invariant fun σ =>
      ∀ i outcome acknowledged, .arrived i outcome acknowledged ∈ σ.log → acknowledged = true := by
  intro h
  let c : UInt16 → MemoryConfig := fun _ => { isLocalRank := fun _ => true }
  have hstart : (memoryFabricMachine c).Reachable { config := c, endpoints := fun rank => .start (c rank) } :=
    .init rfl
  have hsent := hstart.step
    (show (memoryFabricMachine c).enabled _ (.sendMemoryRead 0 1 0 4) from Nat.two_pow_pos 32) rfl
  have harrived := hsent.step (show (memoryFabricMachine c).enabled _ (.arrive 0) from Nat.zero_lt_one) rfl
  have hacknowledged := h c _ harrived 0 (.read false false) false (List.mem_cons_of_mem _ List.mem_cons_self)
  cases hacknowledged

end ProtoBridge.Endpoint
