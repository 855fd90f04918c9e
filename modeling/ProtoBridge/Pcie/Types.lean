import Mathlib.Data.Fin.VecNotation
import ProtoBridge.Lib.Word

/-!
# PCIe fabric data model

The types of `pcie-fabric.h` and of `PcieFabric::Impl`. Times are nonnegative
tick counts below `timeMax` (`Time::Max()`); a negative `Time` aborts at every
entry point of the source and has no counterpart here. `NO_PORT` is `none`.

Left out because nothing modelled reads it: names, packet contents, the
statistics and observer records, and the `*Blocked` flags, which only throttle
those records.
-/

namespace ProtoBridge.Pcie

/-- `Time::Max()`, the saturation marker of bounded schedulers. -/
def timeMax : Nat := 2 ^ 63 - 1

/-- `AddTime`: saturating sum of two latencies. -/
def addTime (a b : Nat) : Nat := if b > timeMax - a then timeMax else a + b

/-- `WINDOW`: bytes of address space owned by each node. -/
def window : Nat := 2 ^ 40

/-- `TLP_LINK_BYTES`: sequence, LCRC and framing of one TLP. -/
def tlpLinkBytes : Nat := 8

/-- `DLLP_WIRE_BYTES`: one ACK or UpdateFC on the wire. -/
def dllpWireBytes : Nat := 8

/-! ## Configuration -/

/-- There are six pools of credits. -/
instance neZero_pools : NeZero 6 := ⟨by decide⟩

/-- `PcieConfig`. Credits are PH, PD, NPH, NPD, CplH, CplD. -/
structure Config where
  generation : Nat := 4
  lanes : Nat := 16
  topology : String := "switch"
  mps : Nat := 256
  mrrs : Nat := 512
  rcb : Nat := 128
  tags : Nat := 32
  maxReadBytes : Nat := 16384
  completionBufferBytes : Nat := 32768
  queuePackets : Nat := 64
  credits : Fin 6 → Nat := ![32, 512, 32, 32, 32, 512]
  replayBufferBytes : Nat := 65536
  ackEvery : Nat := 8
  linkLatency : Nat := 10
  switchLatency : Nat := 20
  rootLatency : Nat := 50
  creditUpdate : Nat := 50
  ackDelay : Nat := 50
  relaxedOrdering : Bool := false

/-- `powerOfTwo` of `Validate`. -/
def powerOfTwo (n : Nat) : Bool := n != 0 && n &&& (n - 1) == 0

/-- `PcieConfig::Validate`: the first violated limit, by its message. -/
def Config.validate (c : Config) : Except String Unit :=
  if c.generation < 3 || c.generation > 5 then
    .error "pcieGeneration supports Gen3--5 non-FLIT"
  else if !powerOfTwo c.lanes || c.lanes > 32 then
    .error "pcieLanes must be 1,2,4,8,16,32"
  else if c.topology != "switch" && c.topology != "root" then
    .error "pcieTopology must be switch or root"
  else if !powerOfTwo c.mps || c.mps < 128 || c.mps > 4096 then
    .error "pcieMps must be a power of two in [128,4096]"
  else if !powerOfTwo c.mrrs || c.mrrs < 128 || c.mrrs > 4096 then
    .error "pcieMrrs must be a power of two in [128,4096]"
  else if c.rcb != 64 && c.rcb != 128 then
    .error "pcieRcb must be 64 or 128"
  else if c.tags == 0 || c.tags > 256 then
    .error "pcieTags must be in [1,256] (8-bit tags)"
  else if c.maxReadBytes < 4 || c.completionBufferBytes < 4 then
    .error "PCIe read-byte and completion-buffer limits must be at least 4 B"
  else if c.queuePackets == 0 || c.queuePackets > 65536 then
    .error "pcieQueuePackets must be in [1,65536]"
  else if c.credits 0 == 0 || c.credits 2 == 0 || c.credits 4 == 0 ||
      c.credits 1 < c.mps / 16 || c.credits 5 < c.mps / 16 then
    .error "PCIe credits must hold a maximum-sized Posted/Completion TLP and an MRd"
  else if (List.finRange 6).any (fun i => c.credits i > 2 ^ 24) then
    .error "PCIe credit capacity exceeds supported bounds"
  else if c.replayBufferBytes < c.mps + 16 + tlpLinkBytes then
    .error "pcieReplayBufferBytes must hold a maximum-sized TLP"
  else if c.ackEvery == 0 || c.ackEvery > 65536 then
    .error "pcieAckEvery must be in [1,65536]"
  else .ok ()

/-- The unchecked fields hold values of their types: `uint32_t` sizes and times
up to `Time::Max()`. -/
structure Config.InRange (c : Config) : Prop where
  maxReadBytes_lt : c.maxReadBytes < 2 ^ 32
  completionBuffer_lt : c.completionBufferBytes < 2 ^ 32
  replay_lt : c.replayBufferBytes < 2 ^ 32
  link_le : c.linkLatency ≤ timeMax
  switch_le : c.switchLatency ≤ timeMax
  root_le : c.rootLatency ≤ timeMax
  creditUpdate_le : c.creditUpdate ≤ timeMax
  ackDelay_le : c.ackDelay ≤ timeMax

/-- What an accepted configuration guarantees to the fabric. -/
structure Config.Valid (c : Config) : Prop where
  inRange : c.InRange
  mps_pow : powerOfTwo c.mps = true
  mps_ge : 128 ≤ c.mps
  mps_le : c.mps ≤ 4096
  mrrs_pow : powerOfTwo c.mrrs = true
  mrrs_ge : 128 ≤ c.mrrs
  mrrs_le : c.mrrs ≤ 4096
  rcb_eq : c.rcb = 64 ∨ c.rcb = 128
  tags_pos : 0 < c.tags
  tags_le : c.tags ≤ 256
  maxReadBytes_ge : 4 ≤ c.maxReadBytes
  completionBuffer_ge : 4 ≤ c.completionBufferBytes
  queue_pos : 0 < c.queuePackets
  ph_pos : 0 < c.credits 0
  nph_pos : 0 < c.credits 2
  cplh_pos : 0 < c.credits 4
  pd_ge : c.mps / 16 ≤ c.credits 1
  cpld_ge : c.mps / 16 ≤ c.credits 5
  credits_le : ∀ i, c.credits i ≤ 2 ^ 24
  replay_ge : c.mps + 16 + tlpLinkBytes ≤ c.replayBufferBytes
  ackEvery_pos : 0 < c.ackEvery

theorem guard_eq_ok {p : Prop} [Decidable p] {e : String} {x : Except String Unit} :
    (if p then .error e else x) = .ok () ↔ ¬ p ∧ x = .ok () := by
  by_cases hp : p <;> simp [hp]

theorem Config.valid_of_validate {c : Config} (hr : c.InRange) (h : c.validate = .ok ()) :
    c.Valid := by
  simp only [Config.validate, guard_eq_ok, Bool.not_eq_true, Bool.or_eq_false_iff, Bool.and_eq_false_iff,
    Bool.not_eq_false', bne_eq_false_iff_eq, beq_eq_false_iff_ne, decide_eq_false_iff_not,
    not_lt, List.any_eq_false, List.mem_finRange, true_implies, decide_eq_true_eq] at h
  obtain ⟨-, -, -, ⟨⟨hmp, hml⟩, hmu⟩, ⟨⟨hrp, hrl⟩, hru⟩, hrcb, ⟨ht, htu⟩, ⟨hmax, hcb⟩,
    ⟨hq, -⟩, ⟨⟨⟨⟨hph, hnph⟩, hcplh⟩, hpd⟩, hcpld⟩, hcr, hrep, ⟨hack, -⟩, -⟩ := h
  exact ⟨hr, hmp, hml, hmu, hrp, hrl, hru, hrcb, Nat.pos_of_ne_zero ht, htu, hmax, hcb,
    Nat.pos_of_ne_zero hq, Nat.pos_of_ne_zero hph, Nat.pos_of_ne_zero hnph,
    Nat.pos_of_ne_zero hcplh, hpd, hcpld, hcr, hrep, Nat.pos_of_ne_zero hack⟩

/-! ## TLP headers -/

/-- `PcieTlpType`. -/
inductive TlpType
  | read
  | write
  | completion
  deriving DecidableEq

/-- `PcieTraffic`. -/
inductive Traffic
  | payload
  | wqe
  | doorbell
  | cq
  | d2h
  | h2d
  deriving DecidableEq

/-- `CreditClass`: the header pool of a TLP type. -/
def creditClass : TlpType → Fin 6
  | .write => 0
  | .read => 2
  | .completion => 4

/-- The data pool next to the header pool, `CreditClass(type) + 1`. -/
def dataClass : TlpType → Fin 6
  | .write => 1
  | .read => 3
  | .completion => 5

/-- `PcieTlpHeader`. -/
structure Header where
  type : TlpType := .read
  address : Nat := 0
  bytes : Nat := 0
  requester : Nat := 0
  completer : Nat := 0
  byteCount : Nat := 0
  tag : Nat := 0
  relaxed : Bool := false
  deriving DecidableEq

/-- `GetSerializedSize`. -/
def Header.serializedSize (h : Header) : Nat := if h.type = .completion then 12 else 16

/-- `PayloadBytesOnWire`: padded to whole dwords. -/
def Header.payloadBytesOnWire (h : Header) : Nat :=
  if h.type = .read then 0 else (h.address % 4 + h.bytes + 3) / 4 * 4

/-- 16-byte data credits of one TLP. -/
def Header.dataCredits (h : Header) : Nat := (h.payloadBytesOnWire + 15) / 16

/-- `CanPass(later, earlier)`. -/
def canPass (later earlier : Header) : Bool :=
  if later.type = .completion ∧ earlier.type = .completion then
    later.requester != earlier.requester || later.tag != earlier.tag
  else if earlier.type = .write then later.relaxed
  else if earlier.type = .read then later.type != .read || later.relaxed
  else true

/-! ## Frames, DLLPs and the per-node bookkeeping -/

/-- `Impl::Frame`. `serial` and `hops` are history: the value of `order` at
creation, which identifies the frame for life, and the links it has taken. -/
structure Frame where
  header : Header
  transaction : Nat
  offset : Nat
  order : Nat
  traffic : Traffic
  destination : Nat
  ingress : Option Nat := none
  domain : Option Nat := none
  ready : Nat
  serial : Nat
  hops : Nat := 0
  deriving DecidableEq

/-- `packet->GetSize()`: header plus padded payload. -/
def Frame.size (f : Frame) : Nat := f.header.payloadBytesOnWire + f.header.serializedSize

/-- The node that created the frame. -/
def Frame.source (f : Frame) : Nat :=
  if f.header.type = .completion then f.header.completer else f.header.requester

/-- `Impl::Control`: an ACK or an UpdateFC for the transmitter `forPort`. -/
structure Control where
  ack : Bool := false
  forPort : Nat := 0
  sequence : Nat := 0
  credits : Fin 6 → Nat := fun _ => 0

/-- `Impl::Port`, one direction of a link. The `EventId`s it holds are the
pending events of that kind themselves. -/
structure Port where
  src : Nat := 0
  dst : Nat := 0
  reverse : Nat := 0
  nextClass : Nat := 0
  queue : List Frame := []
  control : List Control := []
  available : Fin 6 → Nat := fun _ => 0
  pendingReturn : Fin 6 → Nat := fun _ => 0
  nextSequence : Nat := 1
  receivedSequence : Nat := 0
  ackCount : Nat := 0
  replayBytes : Nat := 0
  replay : List (Nat × Nat) := []
  busy : Bool := false

/-- `Impl::ReadState` with its tag; `pieces` is ordered by offset. -/
structure ReadState where
  tag : Nat
  transaction : Nat
  offset : Nat
  bytes : Nat
  received : Nat := 0
  pieces : List (Nat × Nat) := []
  deriving DecidableEq

/-- `Impl::Response`: a read request being answered from byte `next` on. -/
structure Response where
  request : Frame
  next : Nat := 0
  deriving DecidableEq

/-- `Impl::Node`. A missing memory service takes no time; `writeQueue` and
`readQueue` are `transfers[0]` and `transfers[1]`. -/
structure Node where
  hasRead : Bool := false
  hasWrite : Bool := false
  forwarding : Nat := 0
  endpoint : Bool := true
  pumping : Bool := false
  ports : List Nat := []
  writeQueue : List Nat := []
  readQueue : List Nat := []
  responses : List Response := []
  waiting : List Frame := []
  reads : List ReadState := []
  readBytes : Nat := 0

/-- `Impl::Transfer`; `complete` says whether a callback was given. -/
structure Transfer where
  id : Nat
  address : Nat
  bytes : Nat
  next : Nat := 0
  pending : Nat := 0
  requester : Nat
  target : Nat
  read : Bool
  relaxed : Bool
  traffic : Traffic
  complete : Bool
  deriving DecidableEq

end ProtoBridge.Pcie
