import ProtoBridge.Endpoint.BulkLoops

/-!
# The fragments of a bulk transfer

`BulkTransfer.fragments` is the list of fragments that a transfer is cut into, in natural
numbers: the wire bytes into `pieces`, and the data into as many as are sent. All three
loops of `SendBulkWireTransferSizeImpl` produce it. Data and wire are cut apart from each
other, and `fragments_fit_iff` says when every fragment has room for its data.
-/

namespace ProtoBridge.Endpoint

open Lib Fabric

namespace BulkTransfer

variable {t : BulkTransfer} {devices : List UInt32} {i : Nat}

/-! ## The cut -/

/-- How many fragments the wire bytes are cut into at most: one for each device, and enough to keep
to the limit, but not more than there are bytes. -/
def pieces (t : BulkTransfer) (devices : List UInt32) : Nat :=
  min (max devices.length (t.wireSize ⌈/⌉ t.chunkLimit.bytes.toNat)) t.wireSize

/-- The wire bytes of a full fragment. -/
def fullWire (t : BulkTransfer) (devices : List UInt32) : Nat := t.wireSize ⌈/⌉ t.pieces devices

/-- How many fragments that size makes. -/
def wireCount (t : BulkTransfer) (devices : List UInt32) : Nat :=
  t.wireSize ⌈/⌉ t.fullWire devices

/-- The data bytes of a full fragment. -/
def fullData (t : BulkTransfer) (devices : List UInt32) : Nat :=
  t.dataSize ⌈/⌉ t.wireCount devices

/-- How many fragments carry data. -/
def count (t : BulkTransfer) (devices : List UInt32) : Nat := t.dataSize ⌈/⌉ t.fullData devices

theorem Valid.pos (h : t.Valid) : 0 < t.wireSize := Nat.lt_of_lt_of_le h.data h.wire

theorem Valid.pieces_pos (h : t.Valid) : 0 < t.pieces devices := by
  have capped := ceilDiv_pos t.chunkLimit.pos h.pos
  have := h.pos
  rw [pieces]
  omega

theorem pieces_le : t.pieces devices ≤ t.wireSize := Nat.min_le_right _ _

theorem Valid.fullWire_pos (h : t.Valid) : 0 < t.fullWire devices := ceilDiv_pos h.pieces_pos h.pos

theorem Valid.fullWire_le (h : t.Valid) : t.fullWire devices ≤ t.chunkLimit.bytes.toNat := by
  have pos := h.pos
  have limit := t.chunkLimit.pos
  have enough := @le_mul_ceilDiv _ t.wireSize limit
  rw [fullWire, ceilDiv_le_iff_le_mul h.pieces_pos, pieces, Nat.mul_comm]
  rcases Nat.le_total (max devices.length (t.wireSize ⌈/⌉ t.chunkLimit.bytes.toNat)) t.wireSize
    with few | many
  · rw [Nat.min_eq_left few]
    exact Nat.le_trans enough (Nat.mul_le_mul_left _ (Nat.le_max_right _ _))
  · rw [Nat.min_eq_right many]
    exact Nat.le_mul_of_pos_left _ limit

theorem Valid.wireCount_pos (h : t.Valid) : 0 < t.wireCount devices :=
  ceilDiv_pos h.fullWire_pos h.pos

theorem Valid.wireCount_le (h : t.Valid) : t.wireCount devices ≤ t.pieces devices :=
  ceilDiv_ceilDiv_le h.pieces_pos h.pos

theorem Valid.fullData_pos (h : t.Valid) : 0 < t.fullData devices :=
  ceilDiv_pos h.wireCount_pos h.data

theorem Valid.fullData_le (h : t.Valid) : t.fullData devices ≤ t.fullWire devices := by
  have enough := @le_mul_ceilDiv _ t.wireSize (@Valid.fullWire_pos t devices h)
  rw [fullData, ceilDiv_le_iff_le_mul h.wireCount_pos, Nat.mul_comm]
  exact Nat.le_trans h.wire enough

theorem Valid.count_le (h : t.Valid) : t.count devices ≤ t.wireCount devices :=
  ceilDiv_ceilDiv_le h.wireCount_pos h.data

theorem Valid.count_pos (h : t.Valid) : 0 < t.count devices := ceilDiv_pos h.fullData_pos h.data

/-! ## The cut of the code -/

theorem Valid.numChunks_eq (h : t.Valid) : t.numChunks devices = t.pieces devices := by
  have pos := h.pos
  have service := h.service
  have le := t.chunkLimit.le
  rw [numChunks, pieces, ceilDiv64_eq (by omega) (by omega), if_neg (Nat.not_lt.mpr le),
    Nat.max_eq_left pos]

theorem Valid.wireChunkSize_eq (h : t.Valid) : t.wireChunkSize devices = t.fullWire devices := by
  have pos := h.pos
  have service := h.service
  have le := @pieces_le t devices
  rw [wireChunkSize, h.numChunks_eq, ceilDiv64_eq (by omega) (by omega), fullWire]

theorem Valid.dataChunkSize_eq (h : t.Valid) : t.dataChunkSize devices = t.fullData devices := by
  have pos := h.pos
  have service := h.service
  have data := h.data
  have wire := h.wire
  have fits := @Valid.fullWire_le t devices h
  have limit := t.chunkLimit.le
  have pieces := @pieces_le t devices
  have count := @Valid.wireCount_le t devices h
  have inner : ceilDiv64 t.wireSize (t.fullWire devices) = t.wireCount devices := by
    apply ceilDiv64_eq <;> omega
  rw [dataChunkSize, h.wireChunkSize_eq, inner, ceilDiv64_eq (by omega) (by omega), fullData]

theorem Valid.mul64_eq (h : t.Valid) (hi : i ≤ t.pieces devices) {c : Nat}
    (hc : c ≤ t.fullWire devices) : mul64 i c = i * c := by
  have service := h.service
  have le := @pieces_le t devices
  have last : t.pieces devices * t.fullWire devices < t.wireSize + t.pieces devices :=
    mul_ceilDiv_lt h.pieces_pos
  have small : i * c ≤ t.pieces devices * t.fullWire devices := Nat.mul_le_mul hi hc
  rw [mul64, Nat.mod_eq_of_lt (by omega)]

end BulkTransfer

/-! ## The fragments -/

/-- What a fragment is to its receiver, and the link it goes out on. -/
structure Fragment where
  wire : Nat
  data : Nat
  link : UInt32
  framed : Bool
  chunkIndex : Option UInt32
  deriving DecidableEq

/-- The fragment that a packet is, on a device. -/
def FabricPacket.fragment (p : FabricPacket) (deviceIndex : UInt32) : Fragment :=
  { wire := p.header.payloadSize.toNat
    data := p.header.effectiveDataSize.toNat
    link := deviceIndex
    framed := p.header.isProtocolFramed
    chunkIndex := p.soHeader.map (·.chunkIndex) }

namespace BulkTransfer

variable {t : BulkTransfer} {devices : List UInt32} {offset : UInt32} {i : Nat}

/-- The `i`-th fragment, when the spray is at `offset`. -/
def fragment (t : BulkTransfer) (devices : List UInt32) (offset : UInt32) (i : Nat) : Fragment :=
  let wire := chunk (t.fullWire devices) t.wireSize i
  let framed := t.stampSoHeader && decide (soHeaderSize.toNat < wire)
  { wire
    data := chunk (t.fullData devices) t.dataSize i
    link := sprayDevice devices offset i
    framed
    chunkIndex := if framed then some (UInt32.ofNat i) else none }

/-- The fragments of a transfer. -/
def fragments (t : BulkTransfer) (devices : List UInt32) (offset : UInt32) : List Fragment :=
  (List.range (t.count devices)).map (t.fragment devices offset)

theorem Valid.fragments_data (h : t.Valid) :
    ((t.fragments devices offset).map Fragment.data).sum = t.dataSize := by
  have all : t.dataSize ≤ t.fullData devices * t.count devices := le_mul_ceilDiv h.fullData_pos
  have sum := sum_chunks (t.fullData devices) t.dataSize (t.count devices)
  rw [Nat.mul_comm, Nat.min_eq_right all] at sum
  rw [← sum, fragments, List.map_map]
  rfl

theorem Valid.data_pos (h : t.Valid) (hi : i < t.count devices) :
    0 < (t.fragment devices offset i).data :=
  chunk_pos h.fullData_pos ((lt_ceilDiv h.fullData_pos).mp hi)

theorem Valid.wire_pos (h : t.Valid) (hi : i < t.count devices) :
    0 < (t.fragment devices offset i).wire :=
  chunk_pos h.fullWire_pos
    ((lt_ceilDiv h.fullWire_pos).mp (Nat.lt_of_lt_of_le hi h.count_le))

theorem Valid.wire_le (h : t.Valid) :
    (t.fragment devices offset i).wire ≤ t.chunkLimit.bytes.toNat :=
  Nat.le_trans chunk_le h.fullWire_le

theorem Valid.fragments_wire (h : t.Valid) :
    ∃ e ≤ t.wireSize, Tiles 0 ((List.range (t.count devices)).map fun i =>
      (i * t.fullWire devices, (t.fragment devices offset i).wire)) e :=
  ⟨_, Nat.min_le_right _ _, tiles_chunks h.fullWire_pos h.count_le⟩

theorem Valid.fragments_single (h : t.Valid) (uncut : ¬t.needFragment devices) :
    t.fragments devices offset =
      [{ wire := t.wireSize
         data := t.dataSize
         link := sprayDevice devices offset 0
         framed := t.stampSoHeader && decide (soHeaderSize.toNat < t.wireSize)
         chunkIndex :=
           if t.stampSoHeader && decide (soHeaderSize.toNat < t.wireSize) then some 0
           else none }] := by
  have pos := h.pos
  simp only [needFragment, gt_iff_lt, decide_eq_true_eq, not_or, Nat.not_lt] at uncut
  have capped : t.wireSize ⌈/⌉ t.chunkLimit.bytes.toNat ≤ 1 := by
    rw [ceilDiv_le_iff_le_mul t.chunkLimit.pos, Nat.mul_one]
    exact uncut.2
  have some := ceilDiv_pos t.chunkLimit.pos pos
  have one : t.pieces devices = 1 := by
    rw [pieces]
    omega
  have wire : t.fullWire devices = t.wireSize := by
    rw [fullWire, one, ceilDiv_one]
  have sole : t.wireCount devices = 1 := by
    have := @Valid.wireCount_le t devices h
    have := @Valid.wireCount_pos t devices h
    omega
  have data : t.fullData devices = t.dataSize := by
    rw [fullData, sole, ceilDiv_one]
  have all : t.count devices = 1 := by
    have := @Valid.count_le t devices h
    have := @Valid.count_pos t devices h
    omega
  rw [fragments, all]
  simp [fragment, chunk, wire, data]

/-! ## Whether the data fits -/

theorem Valid.fits_of_not_last (h : t.Valid) (hi : i + 1 < t.count devices) :
    (t.fragment devices offset i).data ≤ (t.fragment devices offset i).wire := by
  have inside : (i + 1) * t.fullWire devices < t.wireSize :=
    (lt_ceilDiv h.fullWire_pos).mp (Nat.lt_of_lt_of_le hi h.count_le)
  have full : (t.fragment devices offset i).wire = t.fullWire devices :=
    chunk_full (Nat.le_of_lt inside)
  rw [full]
  exact Nat.le_trans chunk_le h.fullData_le

/-- The last fragment has room for what is left of the data if the room that the others leave unused
is no more than the transfer leaves unused. -/
theorem Valid.last_fits_iff (h : t.Valid) (hi : i + 1 = t.count devices) :
    (t.fragment devices offset i).data ≤ (t.fragment devices offset i).wire ↔
      i * (t.fullWire devices - t.fullData devices) ≤ t.wireSize - t.dataSize := by
  have room := @Valid.fullData_le t devices h
  have wire := h.wire
  have inWire : i * t.fullWire devices < t.wireSize :=
    (lt_ceilDiv h.fullWire_pos).mp (Nat.lt_of_lt_of_le (by omega) (@Valid.count_le t devices h))
  have inData : i * t.fullData devices < t.dataSize :=
    (lt_ceilDiv h.fullData_pos).mp (show i < t.count devices by omega)
  have last : t.dataSize ≤ (i + 1) * t.fullData devices := by
    have all : t.dataSize ≤ t.fullData devices * t.count devices := le_mul_ceilDiv h.fullData_pos
    rwa [← hi, Nat.mul_comm] at all
  have spare := Nat.mul_le_mul_left i room
  rw [Nat.add_mul, Nat.one_mul] at last
  rw [Nat.mul_sub]
  show chunk (t.fullData devices) t.dataSize i ≤ chunk (t.fullWire devices) t.wireSize i ↔ _
  rw [chunk, chunk]
  omega

/-- Every fragment has room for its data exactly if the full fragments do not leave more room unused
than the transfer has. -/
theorem Valid.fragments_fit_iff (h : t.Valid) :
    (∀ f ∈ t.fragments devices offset, f.data ≤ f.wire) ↔
      (t.count devices - 1) * (t.fullWire devices - t.fullData devices) ≤
        t.wireSize - t.dataSize := by
  have pos := @Valid.count_pos t devices h
  have hlast : t.count devices - 1 + 1 = t.count devices := by omega
  rw [← @Valid.last_fits_iff t devices offset _ h hlast]
  constructor
  · intro fit
    exact fit _ (List.mem_map.mpr ⟨_, List.mem_range.mpr (by omega), rfl⟩)
  · intro last f hf
    obtain ⟨i, hi, rfl⟩ := List.mem_map.mp hf
    rw [List.mem_range] at hi
    rcases Nat.lt_or_ge (i + 1) (t.count devices) with before | isLast
    · exact h.fits_of_not_last before
    · have same : i = t.count devices - 1 := by omega
      rw [same]
      exact last

end BulkTransfer

end ProtoBridge.Endpoint
