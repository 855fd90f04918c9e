import Mathlib.Data.List.Pairwise
import ProtoBridge.Endpoint.SendQueue

/-!
# Streams under priority flow control

A packet whose class is paused is parked on the send queue, and a RESUME sends it at once. A
packet that was on its way to the device when the PAUSE came is looked at again every 500 ns.
The two wake up on their own, so that one may overtake the other. In the runs where no packet
of a stream is caught on its way, and none is sent past one that is parked, the packets of the
stream reach the device in the order they were numbered in.
-/

namespace ProtoBridge.Endpoint

open Lib Fabric
open List (append_assoc append_nil filter_append filter_cons map_append)

/-- A packet on its way to a device. -/
structure Outgoing where
  header : Header
  packet : List UInt8
  deviceIndex : UInt32
  retransmit : Bool := false
  deriving DecidableEq

/-- An event that sends a packet. -/
structure Deferred where
  time : Nat
  out : Outgoing
  deriving DecidableEq

/-- The clock, the egress events that are pending in the order they were scheduled in, and what
the devices were given. -/
structure Wire where
  now : Nat := 0
  deferredEgress : List Deferred := []
  sent : List Outgoing := []
  deriving DecidableEq

namespace Wire

/-- An event that sends a packet is scheduled. -/
def defer (delay : Nat) (out : Outgoing) (w : Wire) : Wire :=
  { w with deferredEgress := w.deferredEgress ++ [{ time := w.now + delay, out }] }

/-- `SendPacketOnDevice` from the pause on, where each packet is held for a constant time. -/
def transmit (hold deviceCount : Nat) (out : Outgoing) (w : Wire) : Wire :=
  if out.deviceIndex.toNat ≥ deviceCount then w
  else if hold > 0 then w.defer hold out
  else { w with sent := w.sent ++ [out] }

/-- The event that is next: of those that are due the one that was scheduled first. -/
def due (w : Wire) : Option Deferred := w.deferredEgress.find? fun d => d.time == w.now

/-- It is taken off the list. -/
def dropDue (w : Wire) : Wire :=
  { w with deferredEgress := w.deferredEgress.eraseP fun d => d.time == w.now }

end Wire

/-- The devices, and the time a packet is held. -/
def wirePort (nic : Nic) (hold : Nat) (device : UInt16 → UInt32) : Port Wire where
  prepareIbgdaPacket := fun _ _ _ w => (w, false)
  transmit := fun header packet deviceIndex w =>
    (w.transmit hold nic.deviceCount { header, packet, deviceIndex }, true)
  resolveDeviceIndex := fun destRank w => (w, device destRank)

/-- The part of a `FabricEndpoint` that sends under priority flow control. -/
structure PfcEndpoint where
  egress : Egress Wire
  nextSeqNum : FlowKey → UInt32 := fun _ => 0
  submitted : List Header := []

/-- What may happen at an endpoint. -/
inductive PfcAct
  | tick (ns : Nat)
  | send (key : FlowKey) (header : Header) (packet : List UInt8) (deviceIndex : UInt32)
  | emit (out : Outgoing)
  | pause (destRank : UInt16) (vcId : UInt8) (sourceMac : Nat)
  | resume (destRank : UInt16) (vcId : UInt8) (sourceMac : Nat)
  | returnCredits (vcId : UInt8) (numCredits : Nat)
  | fire

/-- Whether a packet takes a number of its stream. -/
def isNumbered (hdr : Header) : Bool := !hdr.packetType.isControl && !hdr.packetType.isRetry

/-- The stream of a packet. -/
def streamOf (hdr : Header) : FlowKey := ⟨hdr.destRank, hdr.virtualChannel, hdr.flowId⟩

namespace PfcEndpoint

/-- A change of the wire. -/
def onWire (σ : PfcEndpoint) (f : Wire → Wire) : PfcEndpoint :=
  { σ with egress := { σ.egress with port := f σ.egress.port } }

/-- The header that the next packet of a stream goes out with. -/
def stamp (σ : PfcEndpoint) (key : FlowKey) (header : Header) : Header :=
  { header with
    destRank := key.destRank
    virtualChannel := key.vcId
    flowId := key.flowId
    sequenceNumber := σ.nextSeqNum key }

/-- A send path, from the number it takes on. -/
def send (port : Port Wire) (σ : PfcEndpoint) (key : FlowKey) (header : Header)
    (packet : List UInt8) (deviceIndex : UInt32) : Except CreditAbort PfcEndpoint := do
  let header := σ.stamp key header
  let entry : SendQueueEntry :=
    { packet, header, vcId := key.vcId, seqNum := σ.nextSeqNum key, deviceIndex }
  let (egress, admitted) ←
    σ.egress.flowControlGate key.vcId (σ.nextSeqNum key) (σ.egress.creditBypass entry)
  let egress :=
    if !admitted then { egress with sendQueue := egress.sendQueue ++ [entry] }
    else (egress.sendPacketOnDevice port header packet deviceIndex).1
  return {
    egress
    nextSeqNum := Function.update σ.nextSeqNum key (σ.nextSeqNum key + 1)
    submitted := σ.submitted ++ [header] }

/-- `TrySendQueuedPackets`. -/
def drain (port : Port Wire) (σ : PfcEndpoint) : Except CreditAbort PfcEndpoint := do
  let egress ← σ.egress.trySendQueuedPackets port
  return { σ with egress }

/-- The set of switches that pause a class is changed. -/
def setPaused (σ : PfcEndpoint) (destRank : UInt16) (vcId : UInt8) (owners : Finset Nat) :
    PfcEndpoint :=
  { σ with egress := { σ.egress with
      pfcPausedDests := Function.update σ.egress.pfcPausedDests destRank
        (Function.update (σ.egress.pfcPausedDests destRank) vcId owners) } }

/-- `ProcessPfcPausePacket`. -/
def processPfcPausePacket (port : Port Wire) (σ : PfcEndpoint) (destRank : UInt16) (vcId : UInt8)
    (sourceMac : Nat) : Except CreditAbort PfcEndpoint :=
  let wasPaused := σ.egress.isPfcPausedForDest destRank vcId
  let σ := σ.setPaused destRank vcId (insert sourceMac (σ.egress.pfcPausedDests destRank vcId))
  if !wasPaused then σ.drain port else .ok σ

/-- `ProcessPfcResumePacket`, and `PfcPauseExpiredForDest`. The pump of the bulk window is sends. -/
def processPfcResumePacket (port : Port Wire) (σ : PfcEndpoint) (destRank : UInt16)
    (vcId : UInt8) (sourceMac : Nat) : Except CreditAbort PfcEndpoint :=
  if !σ.egress.isPfcPausedForDest destRank vcId then .ok σ
  else
    (σ.setPaused destRank vcId ((σ.egress.pfcPausedDests destRank vcId).erase sourceMac)).drain port

/-- Credits come back, and the queue is drained. -/
def returnCredits (port : Port Wire) (σ : PfcEndpoint) (vcId : UInt8) (numCredits : Nat) :
    Except CreditAbort PfcEndpoint :=
  match σ.egress.creditManager with
  | none => σ.drain port
  | some m => do
      let m ← m.returnCredits vcId numCredits
      { σ with egress := { σ.egress with creditManager := some m } }.drain port

/-- `SendDeferredEgressInternal`. -/
def sendDeferredEgressInternal (σ : PfcEndpoint) (out : Outgoing) : PfcEndpoint :=
  let hdr := out.header
  if !hdr.packetType.isControl && !hdr.packetType.isRetry && !out.retransmit &&
      !σ.egress.nic.isLocalRank hdr.destRank &&
      σ.egress.isPfcPausedForDest hdr.destRank hdr.virtualChannel then
    σ.onWire (Wire.defer 500 out)
  else σ.onWire fun w => { w with sent := w.sent ++ [out] }

/-- The next egress event. -/
def fire (σ : PfcEndpoint) : PfcEndpoint :=
  match σ.egress.port.due with
  | none => σ
  | some d => (σ.onWire Wire.dropDue).sendDeferredEgressInternal d.out

/-- One step. -/
def handle (nic : Nic) (hold : Nat) (device : UInt16 → UInt32) (σ : PfcEndpoint) :
    PfcAct → Except CreditAbort PfcEndpoint
  | .tick ns => .ok (σ.onWire fun w => { w with now := w.now + ns })
  | .send key header packet deviceIndex =>
      σ.send (wirePort nic hold device) key header packet deviceIndex
  | .emit out => .ok (σ.onWire (Wire.transmit hold nic.deviceCount out))
  | .pause destRank vcId sourceMac =>
      σ.processPfcPausePacket (wirePort nic hold device) destRank vcId sourceMac
  | .resume destRank vcId sourceMac =>
      σ.processPfcResumePacket (wirePort nic hold device) destRank vcId sourceMac
  | .returnCredits vcId numCredits => σ.returnCredits (wirePort nic hold device) vcId numCredits
  | .fire => .ok σ.fire

/-- Time does not go past an event. A packet that is emitted without a number is a control packet
or the repair of another. -/
def Enabled (σ : PfcEndpoint) : PfcAct → Prop
  | .tick ns => ∀ d ∈ σ.egress.port.deferredEgress, σ.egress.port.now + ns ≤ d.time
  | .send _ header _ _ => isNumbered header
  | .emit out => out.retransmit ∨ !isNumbered out.header
  | _ => True

end PfcEndpoint

instance (σ : PfcEndpoint) : ∀ a, Decidable (σ.Enabled a)
  | .tick _ => inferInstanceAs (Decidable (∀ d ∈ _, _))
  | .send _ _ _ _ => inferInstanceAs (Decidable (_ = true))
  | .emit _ => inferInstanceAs (Decidable (_ ∨ _))
  | .pause _ _ _ | .resume _ _ _ | .returnCredits _ _ | .fire => .isTrue trivial

/-- An endpoint that has sent nothing yet. -/
def pfcMachine (nic : Nic) (hold : Nat) (device : UInt16 → UInt32) :
    Machine PfcEndpoint PfcAct CreditAbort where
  init σ := ∃ flowControlPolicy creditManager,
    σ = { egress := { nic, flowControlPolicy, creditManager, sendQueue := [], port := {} } }
  enabled := PfcEndpoint.Enabled
  exec := PfcEndpoint.handle nic hold device

instance (nic : Nic) (hold : Nat) (device : UInt16 → UInt32) (σ : PfcEndpoint) (a : PfcAct) :
    Decidable ((pfcMachine nic hold device).enabled σ a) :=
  inferInstanceAs (Decidable (σ.Enabled a))

/-! ## Order on the wire -/

/-- Whether a header is of a stream. -/
def ofStream (key : FlowKey) (hdr : Header) : Bool := isNumbered hdr && streamOf hdr == key

/-- Whether a packet is the first transmission of one of a stream. -/
def Outgoing.first (key : FlowKey) (out : Outgoing) : Bool :=
  !out.retransmit && ofStream key out.header

namespace Wire

variable {hold deviceCount : Nat} {key : FlowKey} {w : Wire}

/-- The packets of a stream that were given to the device. -/
def reached (key : FlowKey) (w : Wire) : List Header :=
  (w.sent.filter (Outgoing.first key)).map Outgoing.header

/-- The packets of a stream that are on their way. -/
def underway (key : FlowKey) (w : Wire) : List Deferred :=
  w.deferredEgress.filter fun d => d.out.first key

/-- The packets of a stream in the order in which the device has them or is to have them. -/
def line (key : FlowKey) (w : Wire) : List Header :=
  w.reached key ++ (w.underway key).map fun d => d.out.header

/-- The events of a stream are due in the order in which they were scheduled. -/
structure Ordered (hold : Nat) (key : FlowKey) (w : Wire) : Prop where
  ahead : ∀ d ∈ w.deferredEgress, w.now ≤ d.time
  sorted : (w.underway key).Pairwise fun d e => d.time ≤ e.time
  bound : ∀ d ∈ w.underway key, d.time ≤ w.now + hold
  direct : hold = 0 → w.underway key = []

/-- A packet is behind all others of its stream. -/
theorem Ordered.transmit (h : Ordered hold key w) (deviceCount : Nat) (out : Outgoing) :
    Ordered hold key (w.transmit hold deviceCount out) ∧
      ∃ more, (w.transmit hold deviceCount out).line key = w.line key ++ more ∧
        more.Sublist (if out.first key then [out.header] else []) := by
  rw [Wire.transmit]
  split
  · exact ⟨h, [], (append_nil _).symm, List.nil_sublist _⟩
  · split
    · rename_i held
      have underway' : Wire.underway key (w.defer hold out) =
            w.underway key ++ if out.first key then [{ time := w.now + hold, out }] else [] := by
        rw [underway, defer, filter_append, filter_cons]
        rfl
      refine ⟨⟨?_, ?_, ?_, ?_⟩, if out.first key then [out.header] else [], ?_, .refl _⟩
      · intro d mem
        rcases List.mem_append.mp mem with mem | mem
        · exact h.ahead d mem
        · obtain rfl := List.mem_singleton.mp mem
          exact Nat.le_add_right _ _
      · rw [underway']
        apply List.pairwise_append.mpr
        refine ⟨h.sorted, ?_, ?_⟩
        · split
          · exact List.pairwise_singleton _ _
          · exact .nil
        · intro d mem e new
          split at new
          · obtain rfl := List.mem_singleton.mp new
            exact h.bound d mem
          · cases new
      · intro d mem
        rw [underway'] at mem
        rcases List.mem_append.mp mem with mem | new
        · exact h.bound d mem
        · split at new
          · obtain rfl := List.mem_singleton.mp new
            exact Nat.le_refl _
          · cases new
      · intro none
        omega
      · show w.reached key ++ (underway key _).map _ = w.reached key ++ (w.underway key).map _ ++ _
        rw [underway', map_append, ← append_assoc]
        congr 1
        split
        · rfl
        · rfl
    · rename_i direct
      have none := h.direct (Nat.eq_zero_of_not_pos direct)
      refine ⟨⟨h.ahead, h.sorted, h.bound, h.direct⟩, if out.first key then [out.header] else [],
        ?_, .refl _⟩
      show reached key { w with sent := w.sent ++ [out] } ++ (w.underway key).map _ =
        w.reached key ++ (w.underway key).map _ ++ _
      rw [none, List.map_nil, append_nil, append_nil, reached, reached,
        filter_append, map_append, filter_cons]
      congr 1
      split
      · rfl
      · rfl

theorem Ordered.carried {nic : Nic} (device : UInt16 → UInt32) (h : Ordered hold key w)
    (entries : List SendQueueEntry) :
    Ordered hold key (entries.foldl (Egress.carryEntry (wirePort nic hold device)) w) ∧
      ∃ more, (entries.foldl (Egress.carryEntry (wirePort nic hold device)) w).line key =
          w.line key ++ more ∧
        more.Sublist
          ((entries.filter fun entry => ofStream key entry.header).map SendQueueEntry.header) := by
  induction entries generalizing w with
  | nil => exact ⟨h, [], (append_nil _).symm, .refl _⟩
  | cons entry entries ih =>
      have head : ∃ out : Outgoing, out.header = entry.header ∧ out.retransmit = false ∧
          Egress.carryEntry (wirePort nic hold device) w entry =
            w.transmit hold nic.deviceCount out := by
        by_cases chosen : entry.deviceIndex ≠ Nic.anyDevice
        · refine ⟨⟨entry.header, entry.packet, entry.deviceIndex, false⟩, rfl, rfl, ?_⟩
          rw [Egress.carryEntry, Egress.route, if_pos chosen]
          rfl
        · refine ⟨⟨entry.header, entry.packet, device entry.header.destRank, false⟩, rfl, rfl, ?_⟩
          rw [Egress.carryEntry, Egress.route, if_neg chosen]
          rfl
      obtain ⟨out, header, fresh, same⟩ := head
      obtain ⟨ordered, some, hline, hsome⟩ := h.transmit nic.deviceCount out
      have isFirst : out.first key = ofStream key entry.header := by
        rw [Outgoing.first, fresh, header]
        rfl
      rw [isFirst, header] at hsome
      rw [List.foldl_cons, same]
      obtain ⟨ordered', more, hline', hmore⟩ := ih ordered
      refine ⟨ordered', some ++ more, ?_, ?_⟩
      · rw [hline', hline, append_assoc]
      · rw [filter_cons]
        cases hstream : ofStream key entry.header with
        | false =>
            rw [hstream, if_neg (by decide)] at hsome
            exact (hsome.append hmore)
        | true =>
            rw [hstream, if_pos rfl] at hsome
            exact (hsome.append hmore)

/-- The event that is next is the first of its stream. -/
theorem Ordered.due {d : Deferred} (h : Ordered hold key w) (hdue : w.due = some d) :
    Ordered hold key w.dropDue ∧
      w.underway key = (if d.out.first key then [d] else []) ++ w.dropDue.underway key := by
  obtain ⟨now, before, behind, split, notDue⟩ := List.find?_eq_some_iff_append.mp hdue
  have erased : w.dropDue.deferredEgress = before ++ behind := by
    have none : ∀ e ∈ before, ¬(e.time == w.now) = true := by
      intro e mem
      simpa using notDue e mem
    show w.deferredEgress.eraseP _ = _
    rw [split, List.eraseP_append_right _ none,
      List.eraseP_cons_of_pos (p := fun e : Deferred => e.time == w.now) now]
  have hunderway : w.underway key = (if d.out.first key then [d] else []) ++
      (before ++ behind).filter fun d => d.out.first key := by
    rw [underway, split, filter_append, filter_append, filter_cons]
    cases first : d.out.first key with
    | false => rfl
    | true =>
        have none : (before.filter fun d => d.out.first key) = [] := by
          rw [List.filter_eq_nil_iff]
          intro e mem own
          have sorted := h.sorted
          rw [underway, split, filter_append, List.pairwise_append] at sorted
          have earlier := sorted.2.2 e (List.mem_filter.mpr ⟨mem, own⟩) d
            (List.mem_filter.mpr ⟨List.mem_cons_self, first⟩)
          have ahead := h.ahead e (by
            rw [split]
            exact List.mem_append_left _ mem)
          have late := notDue e mem
          rw [beq_iff_eq] at now
          have same : e.time = w.now := by omega
          rw [same] at late
          simp at late
        rw [none]
        rfl
  have left : w.dropDue.underway key = (before ++ behind).filter fun d => d.out.first key := by
    rw [underway, erased]
  rw [← left] at hunderway
  have behindAll : (w.dropDue.underway key).Sublist (w.underway key) := by
    rw [hunderway]
    exact List.sublist_append_right _ _
  refine ⟨⟨?_, h.sorted.sublist behindAll, fun e mem => h.bound e (behindAll.subset mem), ?_⟩,
    hunderway⟩
  · intro e mem
    apply h.ahead e
    rw [erased] at mem
    rw [split]
    exact ((List.sublist_cons_self d behind).append_left before).subset mem
  · intro none
    have all := h.direct none
    rw [all, List.sublist_nil] at behindAll
    exact behindAll

theorem underway_defer {out : Outgoing} (other : out.first key = false) (delay : Nat) :
    (w.defer delay out).underway key = w.underway key := by
  rw [underway, defer, filter_append, filter_cons, other, if_neg (by decide),
    List.filter_nil, append_nil]
  rfl

theorem Ordered.defer {out : Outgoing} (h : Ordered hold key w) (other : out.first key = false)
    (delay : Nat) : Ordered hold key (w.defer delay out) := by
  refine ⟨?_, ?_, ?_, ?_⟩
  · intro d mem
    rcases List.mem_append.mp mem with mem | mem
    · exact h.ahead d mem
    · obtain rfl := List.mem_singleton.mp mem
      exact Nat.le_add_right _ _
  · rw [underway_defer other]
    exact h.sorted
  · rw [underway_defer other]
    exact h.bound
  · rw [underway_defer other]
    exact h.direct

end Wire

namespace PfcEndpoint

variable {nic : Nic} {hold : Nat} {device : UInt16 → UInt32} {key : FlowKey} {σ τ : PfcEndpoint}

/-- The packets of a stream that are parked. -/
def parked (key : FlowKey) (σ : PfcEndpoint) : List Header :=
  (σ.egress.sendQueue.filter fun entry => ofStream key entry.header).map SendQueueEntry.header

/-- The packets of a stream that took a number. -/
def numbered (key : FlowKey) (σ : PfcEndpoint) : List Header := σ.submitted.filter (ofStream key)

/-- The order that the packets of a stream are in. -/
structure Lined (nic : Nic) (hold : Nat) (key : FlowKey) (σ : PfcEndpoint) : Prop where
  nic : σ.egress.nic = nic
  wire : σ.egress.port.Ordered hold key
  order : (σ.egress.port.line key ++ σ.parked key).Sublist (σ.numbered key)

theorem holds_of_stream {hdr : Header} (stream : ofStream key hdr) :
    σ.egress.holds hdr = σ.egress.isPfcPausedForDest key.destRank key.vcId := by
  rw [ofStream, Bool.and_eq_true, beq_iff_eq] at stream
  obtain ⟨numbered, rfl⟩ := stream
  rw [isNumbered] at numbered
  rw [Egress.holds, numbered]
  rfl

/-- What the drain sends of a stream, and after it what it leaves of it, is in the order of the
queue: it sends none of it, or it leaves only what is behind. -/
theorem passed_sublist {scanned rest : List SendQueueEntry} {more : List Header}
    (passed : more.Sublist (((scanned.filter fun entry => !σ.egress.held entry).filter
      fun entry => ofStream key entry.header).map SendQueueEntry.header)) :
    (more ++ ((scanned.filter σ.egress.held ++ rest).filter
      fun entry => ofStream key entry.header).map SendQueueEntry.header).Sublist
        (((scanned ++ rest).filter fun entry => ofStream key entry.header).map
          SendQueueEntry.header) := by
  have uniform (entry : SendQueueEntry) (stream : ofStream key entry.header) :
      σ.egress.held entry = σ.egress.isPfcPausedForDest key.destRank key.vcId :=
    holds_of_stream stream
  rw [filter_append, filter_append, map_append, map_append,
    ← append_assoc]
  apply List.Sublist.append_right
  cases paused : σ.egress.isPfcPausedForDest key.destRank key.vcId with
  | true =>
      have none : (scanned.filter fun entry => !σ.egress.held entry).filter
          (fun entry => ofStream key entry.header) = [] := by
        rw [List.filter_filter, List.filter_eq_nil_iff]
        intro entry _ both
        rw [Bool.and_eq_true] at both
        rw [uniform entry both.1, paused] at both
        exact absurd both.2 (by decide)
      rw [none, List.map_nil, List.sublist_nil] at passed
      rw [passed, List.nil_append]
      exact (List.filter_sublist.filter _).map _
  | false =>
      have none : (scanned.filter σ.egress.held).filter
          (fun entry => ofStream key entry.header) = [] := by
        rw [List.filter_filter, List.filter_eq_nil_iff]
        intro entry _ both
        rw [Bool.and_eq_true] at both
        rw [uniform entry both.1, paused] at both
        exact absurd both.2 (by decide)
      rw [none, List.map_nil, append_nil]
      exact passed.trans ((List.filter_sublist.filter _).map _)

theorem Lined.drain (h : Lined nic hold key σ) (present : nic.deviceCount ≠ 0)
    (hdrain : σ.drain (wirePort nic hold device) = .ok τ) : Lined nic hold key τ := by
  obtain ⟨egress, hqueue, same⟩ := bind_eq_ok.mp hdrain
  obtain rfl := Except.ok.inj same
  have present' : σ.egress.nic.deviceCount ≠ 0 := by
    rw [h.nic]
    exact present
  obtain ⟨scanned, rest, split, left, spec⟩ :=
    Egress.trySendQueuedPackets_scanned (fun _ _ _ _ => rfl) present' hqueue
  have port : egress.port = _ := spec.port
  obtain ⟨wire, more, line, passed⟩ := h.wire.carried device
    (scanned.filter fun entry => !σ.egress.held entry)
  refine ⟨spec.gates.nic.trans h.nic, ?_, ?_⟩
  · show egress.port.Ordered hold key
    rw [port]
    exact wire
  · show (egress.port.line key ++ (egress.sendQueue.filter _).map _).Sublist (σ.numbered key)
    rw [port, line, left, append_assoc]
    apply List.Sublist.trans ?_ h.order
    apply List.Sublist.append_left
    rw [parked, split]
    exact passed_sublist passed

theorem Lined.setPaused (h : Lined nic hold key σ) (destRank : UInt16) (vcId : UInt8)
    (owners : Finset Nat) : Lined nic hold key (σ.setPaused destRank vcId owners) :=
  ⟨h.nic, h.wire, h.order⟩

theorem Lined.emit (h : Lined nic hold key σ) {out : Outgoing} (other : out.first key = false) :
    Lined nic hold key (σ.onWire (Wire.transmit hold nic.deviceCount out)) := by
  obtain ⟨wire, more, line, passed⟩ := h.wire.transmit nic.deviceCount out
  rw [other, if_neg (by decide), List.sublist_nil] at passed
  rw [passed, append_nil] at line
  refine ⟨h.nic, wire, ?_⟩
  show (Wire.line key (Wire.transmit hold nic.deviceCount out σ.egress.port) ++ _).Sublist _
  rw [line]
  exact h.order

/-- What disturbs a stream is a packet of it that comes due while its class is paused, and one that
is sent past others that are parked. -/
def Undisturbed (key : FlowKey) (σ : PfcEndpoint) : PfcAct → Prop
  | .send k _ _ _ => k = key → σ.egress.isPfcPausedForDest key.destRank key.vcId = false →
      σ.parked key = []
  | .fire => ∀ d ∈ σ.egress.port.due, d.out.first key →
      σ.egress.isPfcPausedForDest key.destRank key.vcId = false
  | _ => True

instance (key : FlowKey) (σ : PfcEndpoint) : ∀ a, Decidable (Undisturbed key σ a)
  | .send _ _ _ _ => inferInstanceAs (Decidable (_ → _ → _))
  | .fire => inferInstanceAs (Decidable (∀ d ∈ σ.egress.port.due, _ → _))
  | .tick _ | .emit _ | .pause _ _ _ | .resume _ _ _ | .returnCredits _ _ => .isTrue trivial

theorem sendPacketOnDevice_cases (nic : Nic) (hold : Nat) (device : UInt16 → UInt32)
    (egress : Egress Wire) (hdr : Header) (packet : List UInt8)
    (deviceIndex : UInt32) :
    (∃ entry : SendQueueEntry, entry.header = hdr ∧
      (egress.sendPacketOnDevice (wirePort nic hold device) hdr packet deviceIndex).1 =
        { egress with sendQueue := egress.sendQueue ++ [entry] }) ∨
    ((egress.nic.isLocalRank hdr.destRank = false → egress.holds hdr = false) ∧
      (egress.sendPacketOnDevice (wirePort nic hold device) hdr packet deviceIndex).1 =
        { egress with port :=
            egress.port.transmit hold nic.deviceCount { header := hdr, packet, deviceIndex } }) := by
  rw [Egress.sendPacketOnDevice, wirePort]
  dsimp only
  rw [if_neg (by decide)]
  split
  · let entry : SendQueueEntry :=
      { packet, header := hdr, vcId := hdr.virtualChannel, seqNum := hdr.sequenceNumber,
        deviceIndex }
    exact .inl ⟨entry, rfl, rfl⟩
  · rename_i free
    refine .inr ⟨?_, rfl⟩
    intro remote
    rw [remote] at free
    rw [Egress.holds]
    simpa using free

theorem Lined.park {egress : Egress Wire} {nextSeqNum : FlowKey → UInt32} {header : Header}
    {entry : SendQueueEntry} (h : Lined nic hold key σ) (hnic : egress.nic = nic)
    (port : egress.port = σ.egress.port) (sendQueue : egress.sendQueue = σ.egress.sendQueue ++ [entry])
    (same : entry.header = header) :
    Lined nic hold key
      { egress := egress, nextSeqNum := nextSeqNum, submitted := σ.submitted ++ [header] } := by
  refine ⟨hnic, ?_, ?_⟩
  · rw [port]
    exact h.wire
  · show (egress.port.line key ++ (egress.sendQueue.filter _).map _).Sublist
      ((σ.submitted ++ [header]).filter _)
    rw [port, sendQueue, filter_append, map_append, ← append_assoc,
      filter_append]
    apply List.Sublist.append h.order
    rw [filter_cons, filter_cons, same]
    split
    · rw [← same]
      exact .refl _
    · exact .refl _

/-- A packet that is sent while nothing of its stream is parked, or that is parked, keeps the
order. -/
theorem Lined.send (h : Lined nic hold key σ) (remote : nic.isLocalRank key.destRank = false)
    {k : FlowKey} {header : Header} {packet : List UInt8} {deviceIndex : UInt32}
    (calm : Undisturbed key σ (.send k header packet deviceIndex))
    (hsend : σ.send (wirePort nic hold device) k header packet deviceIndex = .ok τ) :
    Lined nic hold key τ := by
  obtain ⟨⟨egress, admitted⟩, hgate, hrest⟩ := bind_eq_ok.mp hsend
  obtain rfl := Except.ok.inj hrest
  clear hsend hrest
  rcases Egress.flowControlGate_spec (by exact hgate) with ⟨rfl, rfl, -, -⟩ | ⟨rfl, passed⟩
  · exact Lined.park h h.nic rfl rfl rfl
  · have hnic : egress.nic = nic := passed.gates.nic.trans h.nic
    show Lined nic hold key
      { egress := (egress.sendPacketOnDevice (wirePort nic hold device) (σ.stamp k header) packet
          deviceIndex).1
        nextSeqNum := Function.update σ.nextSeqNum k (σ.nextSeqNum k + 1)
        submitted := σ.submitted ++ [σ.stamp k header] }
    rcases sendPacketOnDevice_cases nic hold device egress
      (σ.stamp k header) packet deviceIndex with ⟨entry, same, hparks⟩ | ⟨free, hgoes⟩
    · rw [hparks]
      refine h.park hnic passed.port ?_ same
      show egress.sendQueue ++ [entry] = _
      rw [passed.sendQueue]
    · rw [hgoes, passed.port]
      obtain ⟨wire, more, line, hmore⟩ := h.wire.transmit nic.deviceCount
        { header := σ.stamp k header, packet, deviceIndex }
      refine ⟨hnic, wire, ?_⟩
      show (Wire.line key (Wire.transmit hold nic.deviceCount _ σ.egress.port) ++
        (egress.sendQueue.filter _).map _).Sublist ((σ.submitted ++ [σ.stamp k header]).filter _)
      rw [line, passed.sendQueue, filter_append]
      change more.Sublist (if ofStream key (σ.stamp k header) then _ else _) at hmore
      cases stream : ofStream key (σ.stamp k header) with
      | false =>
          rw [stream, if_neg (by decide), List.sublist_nil] at hmore
          rw [hmore, append_nil]
          exact h.order.trans (List.sublist_append_left _ _)
      | true =>
          have own : streamOf (σ.stamp k header) = key := by
            rw [ofStream, Bool.and_eq_true, beq_iff_eq] at stream
            exact stream.2
          have hk : k = key := own
          have unpaused : σ.egress.isPfcPausedForDest key.destRank key.vcId = false := by
            have unheld := free (by
              rw [hnic]
              show nic.isLocalRank k.destRank = false
              rw [hk]
              exact remote)
            rw [Egress.holds, Egress.isPfcPausedForDest, passed.gates.pfcPausedDests] at unheld
            rw [← holds_of_stream stream]
            exact unheld
          have none := calm hk unpaused
          have ordered := h.order
          rw [none, append_nil] at ordered
          rw [show (σ.egress.sendQueue.filter _).map _ = [] from none, append_nil]
          apply ordered.append
          rw [stream, if_pos rfl] at hmore
          rw [filter_cons, stream, if_pos rfl]
          exact hmore

theorem Lined.fire (h : Lined nic hold key σ) (calm : Undisturbed key σ .fire) : Lined nic hold key σ.fire := by
  rw [PfcEndpoint.fire]
  cases hdue : σ.egress.port.due with
  | none => exact h
  | some d =>
      obtain ⟨wire, hunderway⟩ := h.wire.due hdue
      show Lined nic hold key (sendDeferredEgressInternal _ d.out)
      rw [sendDeferredEgressInternal]
      split
      · rename_i stays
        have other : d.out.first key = false := by
          by_contra own
          rw [Bool.not_eq_false] at own
          have stream := own
          rw [Outgoing.first, Bool.and_eq_true] at stream
          have unpaused := calm d hdue own
          rw [← holds_of_stream stream.2] at unpaused
          simp only [Bool.and_eq_true] at stays
          rw [Egress.holds, stays.1.1.1.1, stays.1.1.1.2] at unpaused
          have paused : σ.egress.isPfcPausedForDest d.out.header.destRank
            d.out.header.virtualChannel = true := stays.2
          rw [paused] at unpaused
          exact absurd unpaused (by decide)
        refine ⟨h.nic, wire.defer other 500, ?_⟩
        have order := h.order
        rw [Wire.line, hunderway, other, if_neg (by decide), List.nil_append] at order
        show (Wire.reached key σ.egress.port ++
          ((σ.egress.port.dropDue.defer 500 d.out).underway key).map _ ++ _).Sublist _
        rw [Wire.underway_defer other]
        exact order
      · refine ⟨h.nic, ⟨wire.ahead, wire.sorted, wire.bound, wire.direct⟩, ?_⟩
        have order := h.order
        rw [Wire.line, hunderway, map_append, ← append_assoc] at order
        show (((σ.egress.port.sent ++ [d.out]).filter _).map _ ++
          (σ.egress.port.dropDue.underway key).map _ ++ σ.parked key).Sublist _
        rw [filter_append, map_append, filter_cons]
        cases first : d.out.first key with
        | false =>
            rw [first] at order
            exact order
        | true =>
            rw [first] at order
            exact order

/-- The order holds of the whole run. -/
theorem lined (present : nic.deviceCount ≠ 0) (remote : nic.isLocalRank key.destRank = false)
    (reach : ((pfcMachine nic hold device).restrict (Undisturbed key)).Reachable σ) :
    Lined nic hold key σ := by
  induction reach with
  | init start =>
      obtain ⟨flowControlPolicy, creditManager, rfl⟩ := start
      refine ⟨rfl, ⟨?_, .nil, ?_, fun _ => rfl⟩, .refl _⟩
      · intro d mem
        cases mem
      · intro d mem
        cases mem
  | @step σ a τ _ enabled exec ih =>
      obtain ⟨legal, calm⟩ := enabled
      cases a with
      | tick ns =>
          obtain rfl := Except.ok.inj exec
          refine ⟨ih.nic, ⟨legal, ih.wire.sorted, ?_, ih.wire.direct⟩, ih.order⟩
          intro d mem
          apply Nat.le_trans (ih.wire.bound d mem)
          exact Nat.add_le_add_right (Nat.le_add_right _ ns) hold
      | send k header packet deviceIndex => exact ih.send remote calm exec
      | emit out =>
          obtain rfl := Except.ok.inj exec
          apply ih.emit
          rw [Outgoing.first, ofStream]
          rcases legal with repair | control
          · rw [repair]
            rfl
          · rw [Bool.not_eq_true'] at control
            rw [control, Bool.false_and, Bool.and_false]
      | pause destRank vcId sourceMac =>
          change σ.processPfcPausePacket _ destRank vcId sourceMac = _ at exec
          rw [processPfcPausePacket] at exec
          split at exec
          · exact (ih.setPaused _ _ _).drain present exec
          · obtain rfl := Except.ok.inj exec
            exact ih.setPaused _ _ _
      | resume destRank vcId sourceMac =>
          change σ.processPfcResumePacket _ destRank vcId sourceMac = _ at exec
          rw [processPfcResumePacket] at exec
          split at exec
          · obtain rfl := Except.ok.inj exec
            exact ih
          · exact (ih.setPaused _ _ _).drain present exec
      | returnCredits vcId numCredits =>
          change σ.returnCredits _ vcId numCredits = _ at exec
          rw [returnCredits] at exec
          split at exec
          · exact ih.drain present exec
          · obtain ⟨m, -, hdrain⟩ := bind_eq_ok.mp exec
            refine Lined.drain ?_ present hdrain
            exact ⟨ih.nic, ih.wire, ih.order⟩
      | fire =>
          obtain rfl := Except.ok.inj exec
          exact ih.fire calm

theorem drain_numbers (h : σ.drain (wirePort nic hold device) = .ok τ) :
    τ.nextSeqNum = σ.nextSeqNum ∧ τ.submitted = σ.submitted := by
  obtain ⟨egress, -, same⟩ := bind_eq_ok.mp h
  obtain rfl := Except.ok.inj same
  exact ⟨rfl, rfl⟩

/-- A step sends a packet with the next number of its stream, or numbers none. -/
theorem handle_numbers {a : PfcAct} (h : σ.handle nic hold device a = .ok τ) :
    (∃ k header packet deviceIndex, a = .send k header packet deviceIndex ∧
      τ.nextSeqNum = Function.update σ.nextSeqNum k (σ.nextSeqNum k + 1) ∧
      τ.submitted = σ.submitted ++ [σ.stamp k header]) ∨
    (τ.nextSeqNum = σ.nextSeqNum ∧ τ.submitted = σ.submitted) := by
  cases a with
  | tick | emit =>
      obtain rfl := Except.ok.inj h
      exact .inr ⟨rfl, rfl⟩
  | send k header packet deviceIndex =>
      obtain ⟨gate, -, same⟩ := bind_eq_ok.mp h
      obtain rfl := Except.ok.inj same
      exact .inl ⟨k, header, packet, deviceIndex, rfl, rfl, rfl⟩
  | pause destRank vcId sourceMac =>
      change σ.processPfcPausePacket _ destRank vcId sourceMac = _ at h
      rw [processPfcPausePacket] at h
      split at h
      · have kept := drain_numbers h
        exact .inr kept
      · obtain rfl := Except.ok.inj h
        exact .inr ⟨rfl, rfl⟩
  | resume destRank vcId sourceMac =>
      change σ.processPfcResumePacket _ destRank vcId sourceMac = _ at h
      rw [processPfcResumePacket] at h
      split at h
      · obtain rfl := Except.ok.inj h
        exact .inr ⟨rfl, rfl⟩
      · have kept := drain_numbers h
        exact .inr kept
  | returnCredits vcId numCredits =>
      change σ.returnCredits _ vcId numCredits = _ at h
      rw [returnCredits] at h
      split at h
      · have kept := drain_numbers h
        exact .inr kept
      · obtain ⟨m, -, hdrain⟩ := bind_eq_ok.mp h
        have kept := drain_numbers hdrain
        exact .inr kept
  | fire =>
      obtain rfl := Except.ok.inj h
      right
      show (PfcEndpoint.fire σ).nextSeqNum = _ ∧ (PfcEndpoint.fire σ).submitted = _
      rw [PfcEndpoint.fire]
      cases σ.egress.port.due with
      | none => exact ⟨rfl, rfl⟩
      | some d =>
          show (sendDeferredEgressInternal _ d.out).nextSeqNum = _ ∧
            (sendDeferredEgressInternal _ d.out).submitted = _
          rw [sendDeferredEgressInternal]
          split
          · exact ⟨rfl, rfl⟩
          · exact ⟨rfl, rfl⟩

theorem numbered_sequenceNumber (key : FlowKey)
    (reach : (pfcMachine nic hold device).Reachable σ) :
    (σ.numbered key).map Header.sequenceNumber =
        (List.range (σ.numbered key).length).map UInt32.ofNat ∧
      σ.nextSeqNum key = UInt32.ofNat (σ.numbered key).length := by
  induction reach with
  | init start =>
      obtain ⟨flowControlPolicy, creditManager, rfl⟩ := start
      exact ⟨rfl, rfl⟩
  | @step σ a τ _ enabled exec ih =>
      rcases handle_numbers exec with ⟨k, header, packet, deviceIndex, rfl, next, submitted⟩ |
        ⟨next, submitted⟩
      · rw [numbered, submitted, next, filter_append, filter_cons, List.filter_nil]
        have own : ofStream key (σ.stamp k header) = decide (k = key) := by
          have numbers : isNumbered header = true := enabled
          have numbers' : isNumbered (σ.stamp k header) = true := numbers
          rw [ofStream, numbers', Bool.true_and]
          exact Bool.beq_eq_decide_eq k key
        rw [own]
        by_cases same : k = key
        · subst same
          rw [decide_eq_true rfl, if_pos rfl, Function.update_self, map_append,
            List.length_append, List.length_singleton, List.range_succ, map_append]
          refine ⟨?_, ?_⟩
          · rw [show (σ.submitted.filter (ofStream k)).map _ = _ from ih.1]
            show _ ++ [σ.nextSeqNum k] = _ ++ [_]
            rw [ih.2]
            rfl
          · rw [ih.2, UInt32.ofNat_add]
            rfl
        · rw [decide_eq_false same, if_neg (by decide), append_nil,
            Function.update_of_ne (Ne.symm same)]
          exact ih
      · rw [numbered, submitted, next]
        exact ih

end PfcEndpoint

/-- The first transmissions of the packets of a stream reach the device in the order of their
numbers: they have the numbers of some turns of the stream, one after the other. -/
def InSequence (key : FlowKey) (σ : PfcEndpoint) : Prop :=
  ∃ turns : List Nat, turns.Pairwise (· < ·) ∧
    (σ.egress.port.reached key).map Header.sequenceNumber = turns.map UInt32.ofNat ∧
    ∀ turn ∈ turns, turn < (σ.numbered key).length

/-- A stream that is not disturbed reaches the device in order. -/
theorem pfc_inSequence (nic : Nic) (hold : Nat) (device : UInt16 → UInt32) (key : FlowKey)
    (present : nic.deviceCount ≠ 0) (remote : nic.isLocalRank key.destRank = false)
    {σ : PfcEndpoint}
    (reach : ((pfcMachine nic hold device).restrict (PfcEndpoint.Undisturbed key)).Reachable σ) :
    InSequence key σ := by
  have ordered := (PfcEndpoint.lined present remote reach).order
  have numbers := (PfcEndpoint.numbered_sequenceNumber key reach.of_restrict).1
  have front : (σ.egress.port.reached key).Sublist (σ.numbered key) := by
    apply List.Sublist.trans ?_ ordered
    exact (List.sublist_append_left _ _).trans (List.sublist_append_left _ _)
  have sequence := front.map Header.sequenceNumber
  rw [numbers, List.sublist_map_iff] at sequence
  obtain ⟨turns, chosen, same⟩ := sequence
  refine ⟨turns, List.pairwise_lt_range.sublist chosen, same, ?_⟩
  intro turn mem
  exact List.mem_range.mp (chosen.subset mem)

/-- A stream to node 5, which is in another machine. -/
def remoteStream : FlowKey := ⟨5, 0, 0⟩

/-- Node 0 sends a packet of it. -/
def sendRemote : PfcAct := .send remoteStream {} [0] 0

/-- Nothing has happened at node 0. -/
def pfcStart : PfcEndpoint where
  egress := { nic := Egress.starvedQueue.nic, creditManager := none, sendQueue := [], port := {} }

theorem pfcStart_init : (pfcMachine Egress.starvedQueue.nic 100 fun _ => 0).init pfcStart :=
  ⟨.credit, none, rfl⟩

theorem pfc_inSequence_parked :
    ∃ σ : PfcEndpoint,
      (σ.egress.port.reached remoteStream).map Header.sequenceNumber = [0, 1] ∧
        InSequence remoteStream σ := by
  have run : (((pfcMachine Egress.starvedQueue.nic 100 (fun _ => 0)).restrict
      (PfcEndpoint.Undisturbed remoteStream)).runs pfcStart
        [sendRemote, .tick 100, .fire, .pause 5 0 9, sendRemote, .tick 30, .resume 5 0 9,
          .tick 100, .fire]).map
      (fun σ => (σ.egress.port.reached remoteStream).map Header.sequenceNumber) =
        some [0, 1] := by
    decide
  have start : ((pfcMachine Egress.starvedQueue.nic 100 (fun _ => 0)).restrict
      (PfcEndpoint.Undisturbed remoteStream)).init pfcStart := pfcStart_init
  obtain ⟨σ, reach, same⟩ := Machine.Reachable.exists_of_runs start run
  exact ⟨σ, same, pfc_inSequence Egress.starvedQueue.nic 100 (fun _ => 0) remoteStream (by decide)
    (by decide) reach⟩

/-- Each packet is held for 100 ns. The first is on its way when the PAUSE comes, at 50 ns, and is
looked at again at 600 ns; the second is parked, and the RESUME at 110 ns sends it at once. -/
theorem not_inSequence :
    ¬∀ (nic : Nic) (hold : Nat) (device : UInt16 → UInt32) (key : FlowKey),
      nic.deviceCount ≠ 0 → nic.isLocalRank key.destRank = false →
        ∀ σ, (pfcMachine nic hold device).Reachable σ → InSequence key σ := by
  intro all
  have run : ((pfcMachine Egress.starvedQueue.nic 100 (fun _ => 0)).runs pfcStart
        [sendRemote, .tick 50, .pause 5 0 9, .tick 10, sendRemote, .tick 40, .fire, .tick 10,
          .resume 5 0 9, .tick 100, .fire, .tick 390, .fire]).map
      (fun σ => ((σ.egress.port.reached remoteStream).map Header.sequenceNumber,
        (σ.numbered remoteStream).length)) = some ([1, 0], 2) := by
    decide
  obtain ⟨σ, reach, same⟩ := Machine.Reachable.exists_of_runs pfcStart_init run
  obtain ⟨reached, count⟩ := Prod.mk.inj same
  obtain ⟨turns, increasing, numbers, below⟩ :=
    all Egress.starvedQueue.nic 100 (fun _ => 0) remoteStream (by decide) (by decide) σ reach
  rw [reached] at numbers
  rw [count] at below
  have two : turns.length = 2 := by
    have lengths := congrArg List.length numbers
    rw [List.length_map] at lengths
    exact lengths.symm
  obtain ⟨first, second, rfl⟩ := List.length_eq_two.mp two
  have firstBelow := below first List.mem_cons_self
  have secondBelow := below second (List.mem_cons_of_mem _ List.mem_cons_self)
  have order : first < second := by simpa using increasing
  obtain rfl : first = 0 := by omega
  obtain rfl : second = 1 := by omega
  exact absurd numbers (by decide)

end ProtoBridge.Endpoint
