import Mathlib.Data.Finset.Card
import ProtoBridge.Lib.Machine
import ProtoBridge.Lib.Word

/-!
# The strict go-back-N receiver

For scale-out flows an endpoint may accept packets in order only. It counts up the
number it expects; what comes behind a gap is dropped, and the gap is reported once.
A number that the sender has given up on is stepped over. Numbers given up ahead of
the expected one are parked until it gets there.

A packet that is handed on may be held back before it is acknowledged: by a write to
memory, at whose end it is handed to `OnPacketDelivered` once more, or by the RDMA
operation engine, which answers it itself.
-/

namespace ProtoBridge.Endpoint

open Lib
open Function (update update_eq_self update_of_ne update_self)

/-- `LlrMode`. -/
inductive LlrMode
  | goBackN
  | sack
  deriving DecidableEq

/-- What the receiver reads of a `FabricHeader`. -/
structure GbnHeader where
  virtualChannel : UInt8 := 0
  flowId : UInt16
  sourceRank : UInt16
  sequenceNumber : UInt32
  deriving DecidableEq

/-- The settings that say which flows are strict; no mode is no retry manager. -/
structure GbnConfig where
  soGbnStrict : Bool
  llrEnabled : Bool
  llrManager : Option LlrMode
  bypassReorderBuffer : Bool
  /-- The data path of the RDMA engine is `staged`. -/
  staged : Bool
  localRankBase : UInt16
  localRankCount : UInt16

namespace GbnConfig

/-- `IsLocalRank`. -/
def isLocalRank (cfg : GbnConfig) (rank : UInt16) : Bool :=
  rank ≥ cfg.localRankBase && rank.toNat < cfg.localRankBase.toNat + cfg.localRankCount.toNat

/-- `IsStrictGbnFlow`. -/
def isStrictGbnFlow (cfg : GbnConfig) (h : GbnHeader) : Bool :=
  if !cfg.soGbnStrict || !cfg.llrEnabled || !cfg.bypassReorderBuffer then false
  else
    match cfg.llrManager with
    | none => false
    | some mode => mode = .goBackN && !cfg.isLocalRank h.sourceRank

end GbnConfig

/-- The key of a flow in the tables. -/
def GbnHeader.flowKey (h : GbnHeader) : Nat :=
  h.virtualChannel.toNat * 2 ^ 48 + h.flowId.toNat * 2 ^ 32 + h.sourceRank.toNat

/-- The sequence number. -/
def GbnHeader.seq (h : GbnHeader) : Nat := h.sequenceNumber.toNat

/-- What happened: a packet or a notice of loss arrived, a packet was handed to `OnPacketDelivered` by
the receiver, or once more at the end of its write, an acknowledgement or a report of a gap was
sent. -/
inductive GbnObs
  | arrived (flow seq : Nat)
  | lost (flow seq : Nat)
  | delivered (flow seq : Nat)
  | redelivered (flow seq : Nat)
  | acked (flow seq : Nat)
  | naked (flow seq : Nat)
  deriving DecidableEq

/-- The strict part of a `FabricEndpoint`. The tables have the key of a flow for their index. A packet
whose acknowledgement waits is being written to memory or held by the operation engine; a staged
packet that was written is still to be copied to the device. -/
structure StrictGbn where
  strictNextExpected : Nat → Nat := fun _ => 0
  strictNakPending : Nat → Option Nat := fun _ => none
  strictPermLost : Nat → Finset Nat := fun _ => ∅
  bypassReorderEvents : Nat := 0
  rdmaPendingAck : Finset (Nat × Nat) := ∅
  writing : Finset (Nat × Nat) := ∅
  copying : Finset (Nat × Nat) := ∅
  held : Finset (Nat × Nat) := ∅
  log : List GbnObs := []

/-- How a delivered packet is served: at once, behind a write to memory (`DeferIbgdaReceive`), or as
part of an RDMA operation, whose engine holds it back or acknowledges it. -/
inductive Service
  | direct
  | deferred
  | operation (holds : Bool)
  deriving DecidableEq

namespace StrictGbn

/-- `SendLlrAckPacket`, of an endpoint that has a retry manager and a device. -/
def sendLlrAckPacket (σ : StrictGbn) (h : GbnHeader) : StrictGbn :=
  if (h.flowKey, h.seq) ∈ σ.rdmaPendingAck then σ
  else if h.sourceRank = 65535 then σ
  else { σ with log := σ.log ++ [.acked h.flowKey h.seq] }

/-- `RdmaOperationEngine::Acknowledge`. -/
def acknowledge (σ : StrictGbn) (h : GbnHeader) : StrictGbn :=
  sendLlrAckPacket
    { σ with
      rdmaPendingAck := σ.rdmaPendingAck.erase (h.flowKey, h.seq)
      held := σ.held.erase (h.flowKey, h.seq) } h

/-- `OnPacketDelivered`, called by the receiver. -/
def onPacketDelivered (σ : StrictGbn) (h : GbnHeader) (service : Service) : StrictGbn :=
  let σ : StrictGbn := { σ with log := σ.log ++ [.delivered h.flowKey h.seq] }
  match service with
  | .operation true =>
      { σ with
        rdmaPendingAck := insert (h.flowKey, h.seq) σ.rdmaPendingAck
        held := insert (h.flowKey, h.seq) σ.held }
  | .operation false => σ.acknowledge h
  | .deferred =>
      { σ with
        rdmaPendingAck := insert (h.flowKey, h.seq) σ.rdmaPendingAck
        writing := insert (h.flowKey, h.seq) σ.writing }
  | .direct => σ.sendLlrAckPacket h

/-- `OnPacketDelivered`, called once more for a packet that is in memory by now. -/
def redeliver (σ : StrictGbn) (h : GbnHeader) (ackIssued : Bool) : StrictGbn :=
  let σ : StrictGbn := { σ with log := σ.log ++ [.redelivered h.flowKey h.seq] }
  if ackIssued then σ else σ.sendLlrAckPacket h

/-- The write of a deferred packet is over. A staged packet is acknowledged here, and handed over once
it is copied to the device. -/
def finishWrite (σ : StrictGbn) (h : GbnHeader) (staged : Bool) : StrictGbn :=
  let σ : StrictGbn := { σ with
    rdmaPendingAck := σ.rdmaPendingAck.erase (h.flowKey, h.seq)
    writing := σ.writing.erase (h.flowKey, h.seq) }
  if staged then
    sendLlrAckPacket { σ with copying := insert (h.flowKey, h.seq) σ.copying } h
  else σ.redeliver h false

/-- `SendStrictGbnNak`. -/
def sendStrictGbnNak (σ : StrictGbn) (h : GbnHeader) (expectedSeq : Nat) : StrictGbn :=
  { σ with log := σ.log ++ [.naked h.flowKey expectedSeq] }

/-- The loop of both handlers that steps over parked losses. -/
def consume : Nat → Finset Nat → Nat → Finset Nat × Nat
  | 0, lost, expected => (lost, expected)
  | fuel + 1, lost, expected =>
      if expected ∈ lost then consume fuel (lost.erase expected) (wadd 32 expected 1)
      else (lost, expected)

/-- The expected number of a flow is settled. -/
def advance (σ : StrictGbn) (flow : Nat) : StrictGbn :=
  let (lost, expected) := consume (σ.strictPermLost flow).card (σ.strictPermLost flow)
    (wadd 32 (σ.strictNextExpected flow) 1)
  { σ with
    strictNextExpected := update σ.strictNextExpected flow expected
    strictPermLost := update σ.strictPermLost flow lost
    strictNakPending := update σ.strictNakPending flow none }

/-- `DeliverBypassDataPacket` of a strict flow. -/
def deliverBypassDataPacket (σ : StrictGbn) (h : GbnHeader) (service : Service) : StrictGbn :=
  let expected := σ.strictNextExpected h.flowKey
  if h.seq = expected then (σ.advance h.flowKey).onPacketDelivered h service
  else if h.seq < expected then σ.sendLlrAckPacket h
  else
    let σ := { σ with bypassReorderEvents := wadd 32 σ.bypassReorderEvents 1 }
    if σ.strictNakPending h.flowKey ≠ some expected then
      sendStrictGbnNak
        { σ with
          strictNakPending := update σ.strictNakPending h.flowKey (some expected) }
        h expected
    else σ

/-- `ProcessPermanentLossNotice` of a strict flow. -/
def processPermanentLossNotice (σ : StrictGbn) (h : GbnHeader) : StrictGbn :=
  if h.seq = σ.strictNextExpected h.flowKey then σ.advance h.flowKey
  else if h.seq > σ.strictNextExpected h.flowKey then
    { σ with
      strictPermLost := update σ.strictPermLost h.flowKey
        (insert h.seq (σ.strictPermLost h.flowKey)) }
  else σ

/-- What happens at the receiver: a data packet or a notice of loss arrives, the write of a deferred
packet or the copy of a staged one is over, the engine acknowledges a packet that it held. -/
inductive Act
  | data (h : GbnHeader) (service : Service)
  | notice (h : GbnHeader)
  | written (h : GbnHeader) (staged : Bool)
  | copied (h : GbnHeader)
  | answered (h : GbnHeader)

/-- One of these. -/
def exec (σ : StrictGbn) : Act → Except Empty StrictGbn
  | .data h service =>
      .ok (deliverBypassDataPacket { σ with log := σ.log ++ [.arrived h.flowKey h.seq] } h service)
  | .notice h =>
      .ok (processPermanentLossNotice { σ with log := σ.log ++ [.lost h.flowKey h.seq] } h)
  | .written h staged => .ok (σ.finishWrite h staged)
  | .copied h => .ok (redeliver { σ with copying := σ.copying.erase (h.flowKey, h.seq) } h true)
  | .answered h => .ok (σ.acknowledge h)

/-- The flows are strict and have fewer than 2^32 sequence numbers. -/
def enabled (cfg : GbnConfig) (σ : StrictGbn) : Act → Prop
  | .data h _ | .notice h => cfg.isStrictGbnFlow h = true ∧ h.seq + 1 < 2 ^ 32
  | .written h staged => (h.flowKey, h.seq) ∈ σ.writing ∧ staged = cfg.staged
  | .copied h => (h.flowKey, h.seq) ∈ σ.copying
  | .answered h => (h.flowKey, h.seq) ∈ σ.held

instance (cfg : GbnConfig) (σ : StrictGbn) : (a : Act) → Decidable (enabled cfg σ a)
  | .data h _ | .notice h => inferInstanceAs (Decidable (cfg.isStrictGbnFlow h = true ∧ _))
  | .written h staged => inferInstanceAs (Decidable ((h.flowKey, h.seq) ∈ σ.writing ∧ staged = cfg.staged))
  | .copied h => inferInstanceAs (Decidable ((h.flowKey, h.seq) ∈ σ.copying))
  | .answered h => inferInstanceAs (Decidable ((h.flowKey, h.seq) ∈ σ.held))

end StrictGbn

/-- Every run of the strict receiver of an endpoint. -/
def gbnMachine (cfg : GbnConfig) : Machine StrictGbn StrictGbn.Act Empty where
  init σ := σ = {}
  enabled := StrictGbn.enabled cfg
  exec := StrictGbn.exec

instance (cfg : GbnConfig) (σ : StrictGbn) (a : StrictGbn.Act) :
    Decidable ((gbnMachine cfg).enabled σ a) :=
  inferInstanceAs (Decidable (StrictGbn.enabled cfg σ a))

/-- The numbers of a flow that the receiver handed on, in order. -/
def deliveredSeqs (log : List GbnObs) (flow : Nat) : List Nat :=
  log.filterMap fun
    | .delivered f seq => if f = flow then some seq else none
    | _ => none

namespace StrictGbn

/-- What a flow looks like at any time. -/
structure InOrder (σ : StrictGbn) (flow : Nat) : Prop where
  increasing : (deliveredSeqs σ.log flow).Pairwise (· < ·)
  accounted : ∀ seq < σ.strictNextExpected flow,
    σ.log.count (.delivered flow seq) = 1 ∨ .lost flow seq ∈ σ.log
  parked : σ.strictNextExpected flow ∉ σ.strictPermLost flow
  naks : ∀ seq, σ.log.count (.naked flow seq) ≤ 1

/-- One for a packet that is among some. -/
def among (packets : Finset (Nat × Nat)) (flow seq : Nat) : Nat := if (flow, seq) ∈ packets then 1 else 0

/-- What becomes of a packet that was handed on: it may be written, copied, or held by the engine, and
it is handed over once more at most. Its acknowledgement waits while it is written or held. -/
structure Served (σ : StrictGbn) (flow seq : Nat) : Prop where
  again : σ.log.count (.redelivered flow seq) + among σ.writing flow seq + among σ.copying flow seq +
    among σ.held flow seq ≤ σ.log.count (.delivered flow seq)
  once : σ.log.count (.delivered flow seq) ≤ 1
  pending : (flow, seq) ∈ σ.rdmaPendingAck ↔ (flow, seq) ∈ σ.writing ∨ (flow, seq) ∈ σ.held

/-- What a packet behind a gap does: it is counted, and the gap is reported if it was not. -/
def Gap (σ σ' : StrictGbn) (flow seq : Nat) : Prop :=
  σ' = { σ with
    bypassReorderEvents := wadd 32 σ.bypassReorderEvents 1
    strictNakPending := update σ.strictNakPending flow (some (σ.strictNextExpected flow))
    log := σ.log ++ .arrived flow seq ::
      if σ.strictNakPending flow = some (σ.strictNextExpected flow) then []
      else [.naked flow (σ.strictNextExpected flow)] }

/-- A step sends no report but of the number that is expected. -/
def NakNames (σ σ' : StrictGbn) : Prop :=
  ∃ log, σ'.log = σ.log ++ log ∧
    ∀ flow seq, .naked flow seq ∈ log → seq = σ.strictNextExpected flow

end StrictGbn

/-! ## Books -/

/-- The books of a flow: the expected number, the number a gap was reported at, the parked losses,
what was handed on, what was given up, and the reports of each number. -/
structure GbnBooks (expected : Nat) (pending : Option Nat) (parked : Finset Nat) (delivered : List Nat)
    (lost : Nat → Prop) (naks : Nat → Nat) : Prop where
  bound : expected < 2 ^ 32
  increasing : delivered.Pairwise (· < ·)
  below : ∀ seq ∈ delivered, seq < expected
  accounted : ∀ seq < expected, seq ∈ delivered ∨ lost seq
  ahead : ∀ seq ∈ parked, expected < seq ∧ seq + 1 < 2 ^ 32 ∧ lost seq
  once : ∀ seq, naks seq ≤ 1
  reported : ∀ seq, 0 < naks seq → seq ≤ expected ∧ (seq = expected → pending = some seq)

namespace GbnBooks

variable {expected : Nat} {pending : Option Nat} {parked : Finset Nat} {delivered delivered' : List Nat}
  {lost lost' : Nat → Prop} {naks naks' : Nat → Nat}

theorem initial : GbnBooks 0 none ∅ [] (fun _ => False) fun _ => 0 :=
  ⟨by decide, .nil, (fun _ hmem => nomatch hmem), fun seq hseq => absurd hseq (Nat.not_lt_zero seq),
    fun seq hmem => absurd hmem (Finset.notMem_empty seq), fun _ => Nat.zero_le _,
    fun _ hpos => absurd hpos (lt_irrefl 0)⟩

theorem mono (h : GbnBooks expected pending parked delivered lost naks)
    (hlost : ∀ seq, lost seq → lost' seq) :
    GbnBooks expected pending parked delivered lost' naks := by
  refine ⟨h.bound, h.increasing, h.below, ?_, ?_, h.once, h.reported⟩
  · intro seq hseq
    exact (h.accounted seq hseq).imp_right (hlost seq)
  · intro seq hmem
    obtain ⟨hlt, hmax, hnoted⟩ := h.ahead seq hmem
    exact ⟨hlt, hmax, hlost seq hnoted⟩

/-- The loop steps over the parked losses and stops at a number that is not parked. -/
theorem consume_spec {fuel : Nat} (hfuel : parked.card ≤ fuel) (hexpected : expected < 2 ^ 32)
    (hlow : ∀ seq ∈ parked, expected ≤ seq ∧ seq + 1 < 2 ^ 32) :
    expected ≤ (StrictGbn.consume fuel parked expected).2 ∧
      (StrictGbn.consume fuel parked expected).2 < 2 ^ 32 ∧
      (∀ seq, expected ≤ seq → seq < (StrictGbn.consume fuel parked expected).2 → seq ∈ parked) ∧
      ∀ seq ∈ (StrictGbn.consume fuel parked expected).1,
        seq ∈ parked ∧ (StrictGbn.consume fuel parked expected).2 < seq := by
  induction fuel generalizing parked expected with
  | zero =>
      have hempty : parked = ∅ := Finset.card_eq_zero.mp (Nat.le_zero.mp hfuel)
      refine ⟨le_rfl, hexpected, fun seq hle hlt => absurd hlt (not_lt.mpr hle), fun seq hmem => ?_⟩
      rw [hempty] at hmem
      exact absurd hmem (Finset.notMem_empty seq)
  | succ fuel ih =>
      unfold StrictGbn.consume
      by_cases hmem : expected ∈ parked
      · rw [if_pos hmem]
        have hroom := (hlow expected hmem).2
        have hwrap : wadd 32 expected 1 = expected + 1 := wadd_eq hroom
        rw [hwrap]
        have hcard : (parked.erase expected).card ≤ fuel := by
          rw [Finset.card_erase_of_mem hmem]
          omega
        have hlow' : ∀ seq ∈ parked.erase expected, expected + 1 ≤ seq ∧ seq + 1 < 2 ^ 32 := by
          intro seq hseq
          obtain ⟨hne, hin⟩ := Finset.mem_erase.mp hseq
          obtain ⟨hle, hmax⟩ := hlow seq hin
          exact ⟨by omega, hmax⟩
        obtain ⟨hge, hlt, hpassed, hleft⟩ := ih hcard hroom hlow'
        refine ⟨by omega, hlt, fun seq hle hseq => ?_, fun seq hseq => ?_⟩
        · by_cases hsame : seq = expected
          · rw [hsame]
            exact hmem
          · exact Finset.mem_of_mem_erase (hpassed seq (by omega) hseq)
        · obtain ⟨hin, hbehind⟩ := hleft seq hseq
          exact ⟨Finset.mem_of_mem_erase hin, hbehind⟩
      · rw [if_neg hmem]
        refine ⟨le_rfl, hexpected, fun seq hle hlt => absurd hlt (not_lt.mpr hle), fun seq hseq => ?_⟩
        refine ⟨hseq, Nat.lt_of_le_of_ne (hlow seq hseq).1 ?_⟩
        rintro rfl
        exact hmem hseq

/-- The expected number is settled: handed on, or given up. -/
theorem advance (h : GbnBooks expected pending parked delivered lost naks) {expected' : Nat}
    {parked' : Finset Nat} (hroom : expected + 1 < 2 ^ 32)
    (hconsume : StrictGbn.consume parked.card parked (expected + 1) = (parked', expected'))
    (hsettled : delivered' = delivered ++ [expected] ∨ delivered' = delivered ∧ lost expected) :
    GbnBooks expected' none parked' delivered' lost naks := by
  have hlow : ∀ seq ∈ parked, expected + 1 ≤ seq ∧ seq + 1 < 2 ^ 32 := by
    intro seq hmem
    obtain ⟨hlt, hmax, -⟩ := h.ahead seq hmem
    exact ⟨hlt, hmax⟩
  obtain ⟨hge, hlt, hpassed, hleft⟩ := consume_spec le_rfl hroom hlow
  rw [hconsume] at hge hlt hpassed hleft
  dsimp only at hge hlt hpassed hleft
  have hmem : ∀ seq, seq ∈ delivered' → seq ∈ delivered ∨ seq = expected := by
    intro seq hseq
    rcases hsettled with rfl | ⟨rfl, -⟩
    · simpa using hseq
    · exact .inl hseq
  have hkeeps : ∀ seq ∈ delivered, seq ∈ delivered' := by
    intro seq hseq
    rcases hsettled with rfl | ⟨rfl, -⟩
    · exact List.mem_append_left _ hseq
    · exact hseq
  refine ⟨hlt, ?_, ?_, ?_, ?_, h.once, ?_⟩
  · rcases hsettled with rfl | ⟨rfl, -⟩
    · refine List.pairwise_append.mpr ⟨h.increasing, List.pairwise_singleton _ _, ?_⟩
      intro seq hseq last hlast
      rw [List.mem_singleton.mp hlast]
      exact h.below seq hseq
    · exact h.increasing
  · intro seq hseq
    rcases hmem seq hseq with hold | rfl
    · have := h.below seq hold
      omega
    · exact hge
  · intro seq hseq
    rcases Nat.lt_trichotomy seq expected with hbefore | rfl | hafter
    · exact (h.accounted seq hbefore).imp_left (hkeeps seq)
    · rcases hsettled with rfl | ⟨-, hlost⟩
      · exact .inl (List.mem_append_right _ List.mem_cons_self)
      · exact .inr hlost
    · exact .inr (h.ahead seq (hpassed seq hafter hseq)).2.2
  · intro seq hseq
    obtain ⟨hin, hbehind⟩ := hleft seq hseq
    exact ⟨hbehind, (h.ahead seq hin).2⟩
  · intro seq hpos
    have := (h.reported seq hpos).1
    exact ⟨by omega, fun heq => by omega⟩

theorem park (h : GbnBooks expected pending parked delivered lost naks) {seq : Nat}
    (hahead : expected < seq) (hmax : seq + 1 < 2 ^ 32) (hlost : lost seq) :
    GbnBooks expected pending (insert seq parked) delivered lost naks := by
  refine ⟨h.bound, h.increasing, h.below, h.accounted, ?_, h.once, h.reported⟩
  intro s hmem
  rcases Finset.mem_insert.mp hmem with rfl | hold
  · exact ⟨hahead, hmax, hlost⟩
  · exact h.ahead s hold

theorem report (h : GbnBooks expected pending parked delivered lost naks)
    (hnew : pending ≠ some expected)
    (hnaks : ∀ seq, naks' seq = naks seq + if seq = expected then 1 else 0) :
    GbnBooks expected (some expected) parked delivered lost naks' := by
  have hnone : naks expected = 0 := by
    by_contra hne
    exact hnew ((h.reported expected (Nat.pos_of_ne_zero hne)).2 rfl)
  refine ⟨h.bound, h.increasing, h.below, h.accounted, h.ahead, ?_, ?_⟩
  · intro seq
    have hold := h.once seq
    rw [hnaks]
    split
    · rename_i hsame
      rw [hsame, hnone]
    · omega
  · intro seq hpos
    by_cases hsame : seq = expected
    · exact ⟨hsame.le, fun _ => congrArg some hsame.symm⟩
    · rw [hnaks, if_neg hsame] at hpos
      exact ⟨(h.reported seq hpos).1, fun heq => absurd heq hsame⟩

end GbnBooks

/-! ## Steps -/

namespace StrictGbn

variable {σ σ' : StrictGbn} {cfg : GbnConfig} {flow : Nat}

/-- The books of a flow of the receiver. -/
def Kept (σ : StrictGbn) (flow : Nat) : Prop :=
  GbnBooks (σ.strictNextExpected flow) (σ.strictNakPending flow) (σ.strictPermLost flow)
    (deliveredSeqs σ.log flow) (fun seq => .lost flow seq ∈ σ.log) fun seq =>
      σ.log.count (.naked flow seq)

theorem deliveredSeqs_append (log log' : List GbnObs) (flow : Nat) :
    deliveredSeqs (log ++ log') flow = deliveredSeqs log flow ++ deliveredSeqs log' flow :=
  List.filterMap_append

/-- Events that the books of a flow do not see. -/
def Unseen (flow : Nat) (log : List GbnObs) : Prop :=
  ∀ e ∈ log, ∀ seq, e ≠ .delivered flow seq ∧ e ≠ .naked flow seq

variable {log' : List GbnObs} {flow' : Nat} {h : GbnHeader}

theorem Unseen.deliveredSeqs (h : Unseen flow log') (log : List GbnObs) :
    deliveredSeqs (log ++ log') flow = deliveredSeqs log flow := by
  have hnil : Endpoint.deliveredSeqs log' flow = [] := by
    refine List.filterMap_eq_nil_iff.mpr fun e he => ?_
    cases e with
    | delivered f seq =>
        refine if_neg fun hsame => (h _ he seq).1 ?_
        rw [hsame]
    | _ => rfl
  rw [deliveredSeqs_append, hnil, List.append_nil]

theorem Unseen.count (h : Unseen flow log') (log : List GbnObs) (seq : Nat) :
    (log ++ log').count (.naked flow seq) = log.count (.naked flow seq) := by
  rw [List.count_append, List.count_eq_zero_of_not_mem fun hmem => (h _ hmem seq).2 rfl, Nat.add_zero]

theorem Kept.frame (h : Kept σ flow) (log : List GbnObs) (hunseen : Unseen flow log)
    (hexpected : σ'.strictNextExpected flow = σ.strictNextExpected flow)
    (hpending : σ'.strictNakPending flow = σ.strictNakPending flow)
    (hparked : σ'.strictPermLost flow = σ.strictPermLost flow) (hlog : σ'.log = σ.log ++ log) :
    Kept σ' flow := by
  unfold Kept
  rw [hexpected, hpending, hparked, hlog, hunseen.deliveredSeqs]
  simp only [hunseen.count]
  exact GbnBooks.mono h fun seq hmem => List.mem_append_left _ hmem

/-- What an acknowledgement adds to the past. -/
def acks (σ : StrictGbn) (h : GbnHeader) : List GbnObs :=
  if (h.flowKey, h.seq) ∈ σ.rdmaPendingAck ∨ h.sourceRank = 65535 then []
  else [.acked h.flowKey h.seq]

theorem sendLlrAckPacket_eq (σ : StrictGbn) (h : GbnHeader) :
    σ.sendLlrAckPacket h = { σ with log := σ.log ++ σ.acks h } := by
  unfold sendLlrAckPacket acks
  split
  · rename_i hpending
    rw [if_pos (.inl hpending), List.append_nil]
  · rename_i hfree
    split
    · rename_i hswitch
      rw [if_pos (.inr hswitch), List.append_nil]
    · rename_i hrank
      rw [if_neg (not_or.mpr ⟨hfree, hrank⟩)]

theorem acks_cases (σ : StrictGbn) (h : GbnHeader) :
    σ.acks h = [] ∨ σ.acks h = [.acked h.flowKey h.seq] := by
  unfold acks
  split
  · exact .inl rfl
  · exact .inr rfl

theorem unseen_acks (σ : StrictGbn) (h : GbnHeader) (flow : Nat) : Unseen flow (σ.acks h) := by
  intro e he seq
  rcases acks_cases σ h with hnone | hone
  · rw [hnone] at he
    cases he
  · rw [hone, List.mem_singleton] at he
    rw [he]
    exact ⟨nofun, nofun⟩

theorem acknowledge_eq (σ : StrictGbn) (h : GbnHeader) :
    ∃ log, (∀ flow, Unseen flow log) ∧ σ.acknowledge h =
      { σ with
        rdmaPendingAck := σ.rdmaPendingAck.erase (h.flowKey, h.seq)
        held := σ.held.erase (h.flowKey, h.seq)
        log := σ.log ++ log } :=
  ⟨_, unseen_acks _ h, sendLlrAckPacket_eq _ h⟩

theorem onPacketDelivered_eq (σ : StrictGbn) (h : GbnHeader) (service : Service) :
    ∃ pending writing held log, (∀ flow, Unseen flow log) ∧ σ.onPacketDelivered h service =
      { σ with
        rdmaPendingAck := pending
        writing, held
        log := σ.log ++ .delivered h.flowKey h.seq :: log } := by
  have hnil : ∀ flow, Unseen flow [] := fun _ _ he => nomatch he
  cases service with
  | direct =>
      refine ⟨σ.rdmaPendingAck, σ.writing, σ.held, _,
        unseen_acks { σ with log := σ.log ++ [.delivered h.flowKey h.seq] } h, ?_⟩
      show sendLlrAckPacket _ h = _
      rw [sendLlrAckPacket_eq, List.append_assoc]
      rfl
  | deferred => exact ⟨_, _, _, [], hnil, rfl⟩
  | operation holds =>
      cases holds with
      | true => exact ⟨_, _, _, [], hnil, rfl⟩
      | false =>
          obtain ⟨log, hlog, heq⟩ := acknowledge_eq
            { σ with log := σ.log ++ [.delivered h.flowKey h.seq] } h
          refine ⟨σ.rdmaPendingAck.erase (h.flowKey, h.seq), σ.writing,
            σ.held.erase (h.flowKey, h.seq), log, hlog, ?_⟩
          show acknowledge _ h = _
          rw [heq, List.append_assoc]
          rfl

theorem redeliver_eq (σ : StrictGbn) (h : GbnHeader) (ackIssued : Bool) :
    ∃ log, (∀ flow, Unseen flow log) ∧ σ.redeliver h ackIssued = { σ with log := σ.log ++ log } := by
  have hone : ∀ flow, Unseen flow [.redelivered h.flowKey h.seq] := by
    intro flow e he s
    rw [List.mem_singleton.mp he]
    exact ⟨nofun, nofun⟩
  cases ackIssued with
  | true => exact ⟨_, hone, rfl⟩
  | false =>
      refine ⟨.redelivered h.flowKey h.seq ::
        acks { σ with log := σ.log ++ [.redelivered h.flowKey h.seq] } h, ?_, ?_⟩
      · intro flow e he s
        rcases List.mem_cons.mp he with rfl | he
        · exact ⟨nofun, nofun⟩
        · exact unseen_acks _ h flow e he s
      · show sendLlrAckPacket _ h = _
        rw [sendLlrAckPacket_eq, List.append_assoc]
        rfl

theorem finishWrite_eq (σ : StrictGbn) (h : GbnHeader) (staged : Bool) :
    ∃ copying log, (∀ flow, Unseen flow log) ∧ σ.finishWrite h staged =
      { σ with
        rdmaPendingAck := σ.rdmaPendingAck.erase (h.flowKey, h.seq)
        writing := σ.writing.erase (h.flowKey, h.seq)
        copying, log := σ.log ++ log } := by
  cases staged with
  | true => exact ⟨_, _, unseen_acks _ h, sendLlrAckPacket_eq _ h⟩
  | false =>
      obtain ⟨log, hlog, heq⟩ := redeliver_eq
        { σ with
          rdmaPendingAck := σ.rdmaPendingAck.erase (h.flowKey, h.seq)
          writing := σ.writing.erase (h.flowKey, h.seq) } h false
      exact ⟨_, log, hlog, heq⟩

theorem advance_self (σ : StrictGbn) (flow : Nat) :
    consume (σ.strictPermLost flow).card (σ.strictPermLost flow)
        (wadd 32 (σ.strictNextExpected flow) 1) =
      ((σ.advance flow).strictPermLost flow, (σ.advance flow).strictNextExpected flow) := by
  unfold advance
  dsimp only
  rw [update_self, update_self]

theorem advance_pending (σ : StrictGbn) (flow : Nat) :
    (σ.advance flow).strictNakPending flow = none :=
  update_self _ _ _

theorem advance_of_ne (hne : flow ≠ flow') (σ : StrictGbn) :
    (σ.advance flow').strictNextExpected flow = σ.strictNextExpected flow ∧
      (σ.advance flow').strictNakPending flow = σ.strictNakPending flow ∧
      (σ.advance flow').strictPermLost flow = σ.strictPermLost flow :=
  ⟨update_of_ne hne _ _, update_of_ne hne _ _, update_of_ne hne _ _⟩

theorem Kept.advance (h : Kept σ flow) (hroom : σ.strictNextExpected flow + 1 < 2 ^ 32)
    (log : List GbnObs)
    (hconsume : consume (σ.strictPermLost flow).card (σ.strictPermLost flow)
      (wadd 32 (σ.strictNextExpected flow) 1) = (σ'.strictPermLost flow, σ'.strictNextExpected flow))
    (hpending : σ'.strictNakPending flow = none) (hlog : σ'.log = σ.log ++ log)
    (hnaks : ∀ seq, log.count (.naked flow seq) = 0)
    (hsettled : deliveredSeqs log flow = [σ.strictNextExpected flow] ∨
      deliveredSeqs log flow = [] ∧ .lost flow (σ.strictNextExpected flow) ∈ log) :
    Kept σ' flow := by
  rw [wadd_eq hroom] at hconsume
  unfold Kept
  rw [hpending, hlog, deliveredSeqs_append]
  simp only [List.count_append, hnaks, Nat.add_zero]
  have hbooks : GbnBooks (σ.strictNextExpected flow) (σ.strictNakPending flow) (σ.strictPermLost flow)
      (deliveredSeqs σ.log flow) (fun seq => .lost flow seq ∈ σ.log ++ log)
      fun seq => σ.log.count (.naked flow seq) :=
    GbnBooks.mono h fun seq hmem => List.mem_append_left _ hmem
  refine hbooks.advance hroom hconsume ?_
  rcases hsettled with hdelivered | ⟨hnone, hlost⟩
  · rw [hdelivered]
    exact .inl rfl
  · rw [hnone, List.append_nil]
    exact .inr ⟨rfl, List.mem_append_right _ hlost⟩

theorem count_naked_unseen {log : List GbnObs} (h : Unseen flow log) (seq : Nat) :
    log.count (.naked flow seq) = 0 :=
  List.count_eq_zero_of_not_mem fun hmem => (h _ hmem seq).2 rfl

theorem deliveredSeqs_inOrder (flow seq : Nat) (log : List GbnObs) :
    deliveredSeqs (.arrived flow seq :: .delivered flow seq :: log) flow =
      seq :: deliveredSeqs log flow := by
  simp [deliveredSeqs]

theorem Kept.inOrder (hkept : Kept σ flow) (hmax : h.seq + 1 < 2 ^ 32)
    (hseq : h.seq = σ.strictNextExpected h.flowKey) (service : Service) :
    Kept (({ σ with log := σ.log ++ [.arrived h.flowKey h.seq] } : StrictGbn).advance h.flowKey
      |>.onPacketDelivered h service) flow := by
  obtain ⟨pending, writing, held, log, hall, heq⟩ := onPacketDelivered_eq
    (({ σ with log := σ.log ++ [.arrived h.flowKey h.seq] } : StrictGbn).advance h.flowKey) h service
  have hunseen := hall flow
  rw [heq]
  by_cases hflow : flow = h.flowKey
  · subst hflow
    have hlogged : ∀ s, (GbnObs.arrived h.flowKey h.seq :: .delivered h.flowKey h.seq :: log).count
        (.naked h.flowKey s) = 0 := by
      intro s
      simp [count_naked_unseen hunseen]
    refine hkept.advance (by rw [← hseq]; exact hmax)
      (.arrived h.flowKey h.seq :: .delivered h.flowKey h.seq :: log) (advance_self _ h.flowKey)
      (advance_pending _ h.flowKey) ?_ hlogged ?_
    · show (σ.log ++ [_]) ++ _ = _
      rw [List.append_assoc]
      rfl
    · left
      have hrest := hunseen.deliveredSeqs []
      rw [List.nil_append] at hrest
      have hnil : deliveredSeqs log h.flowKey = [] := hrest
      rw [← hseq]
      rw [deliveredSeqs_inOrder, hnil]
  · obtain ⟨hexpected, hpending, hparked⟩ := advance_of_ne hflow
      ({ σ with log := σ.log ++ [.arrived h.flowKey h.seq] } : StrictGbn)
    refine hkept.frame (.arrived h.flowKey h.seq :: .delivered h.flowKey h.seq :: log) ?_ hexpected
      hpending hparked ?_
    · intro e he s
      rcases List.mem_cons.mp he with rfl | he
      · exact ⟨nofun, nofun⟩
      · rcases List.mem_cons.mp he with rfl | he
        · exact ⟨fun heq => hflow (GbnObs.delivered.inj heq).1.symm, nofun⟩
        · exact hunseen e he s
    · show (σ.log ++ [_]) ++ _ = _
      rw [List.append_assoc]
      rfl

theorem exec_gap (service : Service) (hgap : σ.strictNextExpected h.flowKey < h.seq) :
    ∃ σ', σ.exec (.data h service) = .ok σ' ∧ Gap σ σ' h.flowKey h.seq := by
  refine ⟨_, rfl, ?_⟩
  unfold deliverBypassDataPacket Gap
  dsimp only
  rw [if_neg (by omega), if_neg (by omega)]
  by_cases hpending : σ.strictNakPending h.flowKey = some (σ.strictNextExpected h.flowKey)
  · have hsame : update σ.strictNakPending h.flowKey
        (some (σ.strictNextExpected h.flowKey)) = σ.strictNakPending := by
      rw [← hpending]
      exact update_eq_self _ _
    rw [if_neg (not_not.mpr hpending), if_pos hpending, hsame]
  · rw [if_pos hpending, if_neg hpending, sendStrictGbnNak, List.append_assoc]
    rfl

theorem Kept.gap {seq : Nat} (hkept : Kept σ flow) (hgap : Gap σ σ' flow' seq) : Kept σ' flow := by
  unfold Gap at hgap
  subst hgap
  by_cases hflow : flow = flow'
  · subst hflow
    by_cases hpending : σ.strictNakPending flow = some (σ.strictNextExpected flow)
    · rw [if_pos hpending]
      refine hkept.frame [.arrived flow seq] ?_ rfl ?_ rfl rfl
      · intro e he s
        rw [List.mem_singleton.mp he]
        exact ⟨nofun, nofun⟩
      · rw [hpending]
        exact update_self _ _ _
    · rw [if_neg hpending]
      have hnaks : ∀ s, List.count (GbnObs.naked flow s)
          (σ.log ++ [GbnObs.arrived flow seq, GbnObs.naked flow (σ.strictNextExpected flow)]) =
            σ.log.count (.naked flow s) + if s = σ.strictNextExpected flow then 1 else 0 := by
        intro s
        rw [List.count_append]
        by_cases hs : s = σ.strictNextExpected flow
        · simp [hs]
        · simp [hs, Ne.symm hs]
      have hreport := GbnBooks.report hkept hpending hnaks
      unfold Kept
      dsimp only
      rw [update_self, deliveredSeqs_append]
      have hdelivered : deliveredSeqs [.arrived flow seq, .naked flow (σ.strictNextExpected flow)] flow =
        [] := rfl
      rw [hdelivered, List.append_nil]
      exact hreport.mono fun s hmem => List.mem_append_left _ hmem
  · refine hkept.frame _ ?_ rfl (update_of_ne hflow _ _) rfl rfl
    intro e he s
    rcases List.mem_cons.mp he with rfl | he
    · exact ⟨nofun, nofun⟩
    · split at he
      · cases he
      · rw [List.mem_singleton.mp he]
        exact ⟨nofun, fun heq => hflow (GbnObs.naked.inj heq).1.symm⟩

theorem exec_duplicate {service : Service} (hseq : h.seq < σ.strictNextExpected h.flowKey) :
    σ.exec (.data h service) =
      .ok { σ with log := σ.log ++ .arrived h.flowKey h.seq :: σ.acks h } := by
  show Except.ok (deliverBypassDataPacket _ h service) = _
  unfold deliverBypassDataPacket
  dsimp only
  rw [if_neg (by omega), if_pos hseq, sendLlrAckPacket_eq, List.append_assoc]
  rfl

theorem Kept.data (hkept : Kept σ flow) (hmax : h.seq + 1 < 2 ^ 32) (service : Service) :
    ∃ σ', σ.exec (.data h service) = .ok σ' ∧ Kept σ' flow := by
  rcases Nat.lt_trichotomy h.seq (σ.strictNextExpected h.flowKey) with hless | hsame | hgap
  · refine ⟨_, exec_duplicate hless, hkept.frame _ ?_ rfl rfl rfl rfl⟩
    intro e he s
    rcases List.mem_cons.mp he with rfl | he
    · exact ⟨nofun, nofun⟩
    · exact unseen_acks σ h flow e he s
  · refine ⟨_, rfl, ?_⟩
    unfold deliverBypassDataPacket
    dsimp only
    rw [if_pos hsame]
    exact hkept.inOrder hmax hsame service
  · obtain ⟨σ', hex, hgap'⟩ := exec_gap service hgap
    exact ⟨σ', hex, hkept.gap hgap'⟩

theorem Kept.notice (hkept : Kept σ flow) (hmax : h.seq + 1 < 2 ^ 32) :
    Kept (processPermanentLossNotice { σ with log := σ.log ++ [.lost h.flowKey h.seq] } h) flow := by
  have hunseen : Unseen flow [.lost h.flowKey h.seq] := by
    intro e he s
    rw [List.mem_singleton.mp he]
    exact ⟨nofun, nofun⟩
  have hnoted : Kept { σ with log := σ.log ++ [.lost h.flowKey h.seq] } flow :=
    hkept.frame _ hunseen rfl rfl rfl rfl
  unfold processPermanentLossNotice
  dsimp only
  split
  · rename_i hseq
    by_cases hflow : flow = h.flowKey
    · subst hflow
      refine hkept.advance (by rw [← hseq]; exact hmax) [.lost h.flowKey h.seq]
        (advance_self _ h.flowKey) (advance_pending _ h.flowKey) rfl
        (count_naked_unseen hunseen) (.inr ⟨rfl, ?_⟩)
      rw [hseq]
      exact List.mem_cons_self
    · obtain ⟨hexpected, hpending, hparked⟩ := advance_of_ne hflow
        ({ σ with log := σ.log ++ [.lost h.flowKey h.seq] } : StrictGbn)
      exact hkept.frame _ hunseen hexpected hpending hparked rfl
  · split
    · rename_i hahead
      by_cases hflow : flow = h.flowKey
      · subst hflow
        have hpark := GbnBooks.park hnoted hahead hmax (List.mem_append_right _ List.mem_cons_self)
        unfold Kept
        dsimp only
        rw [update_self]
        exact hpark
      · exact hkept.frame _ hunseen rfl rfl (update_of_ne hflow _ _) rfl
    · exact hnoted

theorem Kept.written (hkept : Kept σ flow) (staged : Bool) : Kept (σ.finishWrite h staged) flow := by
  obtain ⟨copying, log, hunseen, heq⟩ := finishWrite_eq σ h staged
  rw [heq]
  exact hkept.frame _ (hunseen flow) rfl rfl rfl rfl

theorem Kept.answered (hkept : Kept σ flow) : Kept (σ.acknowledge h) flow := by
  obtain ⟨log, hunseen, heq⟩ := acknowledge_eq σ h
  rw [heq]
  exact hkept.frame _ (hunseen flow) rfl rfl rfl rfl

theorem Kept.copied (hkept : Kept σ flow) :
    Kept (redeliver { σ with copying := σ.copying.erase (h.flowKey, h.seq) } h true) flow := by
  obtain ⟨log, hunseen, heq⟩ := redeliver_eq
    { σ with copying := σ.copying.erase (h.flowKey, h.seq) } h true
  rw [heq]
  exact hkept.frame _ (hunseen flow) rfl rfl rfl rfl

theorem kept_invariant (cfg : GbnConfig) (flow : Nat) :
    (gbnMachine cfg).Invariant fun σ => Kept σ flow := by
  refine Machine.Inductive.invariant ⟨?_, ?_⟩
  · rintro σ rfl
    exact GbnBooks.initial.mono fun _ hno => hno.elim
  · intro σ a σ' hkept hen hex
    cases a with
    | data h service =>
        obtain ⟨σ'', hex', hkept'⟩ := hkept.data hen.2 service
        cases hex.symm.trans hex'
        exact hkept'
    | notice h =>
        cases hex
        exact hkept.notice hen.2
    | written h staged =>
        cases hex
        exact hkept.written staged
    | copied h =>
        cases hex
        exact hkept.copied
    | answered h =>
        cases hex
        exact hkept.answered

theorem count_delivered (log : List GbnObs) (flow seq : Nat) :
    log.count (.delivered flow seq) = (deliveredSeqs log flow).count seq := by
  induction log with
  | nil => rfl
  | cons e log ih =>
      have hcons : deliveredSeqs (e :: log) flow = deliveredSeqs [e] flow ++ deliveredSeqs log flow :=
        deliveredSeqs_append [e] log flow
      rw [hcons, List.count_append, List.count_cons, ih, Nat.add_comm]
      congr 1
      cases e with
      | delivered f s =>
          by_cases hf : f = flow
          · simp [deliveredSeqs, hf, List.count_singleton]
          · simp [deliveredSeqs, hf]
      | _ => simp [deliveredSeqs]

theorem Kept.flowInOrder (h : Kept σ flow) : InOrder σ flow := by
  refine ⟨h.increasing, fun seq hseq => ?_, fun hmem => lt_irrefl _ (h.ahead _ hmem).1, h.once⟩
  refine (h.accounted seq hseq).imp_left fun hmem => ?_
  rw [count_delivered]
  exact List.count_eq_one_of_mem (h.increasing.imp ne_of_lt) hmem

theorem nakNames_of_unseen (log : List GbnObs) (hlog : σ'.log = σ.log ++ log)
    (hunseen : ∀ e ∈ log, ∀ flow seq, e ≠ .naked flow seq) : NakNames σ σ' :=
  ⟨log, hlog, fun flow seq hmem => absurd rfl (hunseen _ hmem flow seq)⟩

theorem acks_not_naked (σ : StrictGbn) (h : GbnHeader) :
    ∀ e ∈ σ.acks h, ∀ flow seq, e ≠ .naked flow seq :=
  fun e he flow seq => (unseen_acks σ h flow e he seq).2

/-- Only a packet behind a gap makes a report. -/
theorem nakNames_exec {a : Act} (hex : σ.exec a = .ok σ') : NakNames σ σ' := by
  cases a with
  | data h service =>
      rcases Nat.lt_trichotomy h.seq (σ.strictNextExpected h.flowKey) with hless | hsame | hgap
      · rw [exec_duplicate hless] at hex
        cases hex
        refine nakNames_of_unseen _ rfl fun e he flow seq => ?_
        rcases List.mem_cons.mp he with rfl | he
        · exact nofun
        · exact acks_not_naked σ h e he flow seq
      · cases hex
        unfold deliverBypassDataPacket
        dsimp only
        rw [if_pos hsame]
        obtain ⟨pending, writing, held, log, hall, heq⟩ := onPacketDelivered_eq
          (({ σ with log := σ.log ++ [.arrived h.flowKey h.seq] } : StrictGbn).advance h.flowKey) h
          service
        rw [heq]
        refine nakNames_of_unseen (.arrived h.flowKey h.seq :: .delivered h.flowKey h.seq :: log) ?_
          fun e he flow seq => ?_
        · show (σ.log ++ [_]) ++ _ = _
          rw [List.append_assoc]
          rfl
        · rcases List.mem_cons.mp he with rfl | he
          · exact nofun
          · rcases List.mem_cons.mp he with rfl | he
            · exact nofun
            · exact (hall flow e he seq).2
      · obtain ⟨σ'', hex', hgap'⟩ := exec_gap service hgap
        cases hex.symm.trans hex'
        refine ⟨_, congrArg StrictGbn.log hgap', fun flow seq hmem => ?_⟩
        rcases List.mem_cons.mp hmem with heq | hmem
        · cases heq
        · split at hmem
          · cases hmem
          · obtain ⟨rfl, rfl⟩ := GbnObs.naked.inj (List.mem_singleton.mp hmem)
            rfl
  | notice h =>
      cases hex
      refine nakNames_of_unseen [.lost h.flowKey h.seq] ?_ fun e he flow seq => ?_
      · unfold processPermanentLossNotice
        dsimp only
        split
        · rfl
        · split <;> rfl
      · rw [List.mem_singleton.mp he]
        exact nofun
  | written h staged =>
      cases hex
      obtain ⟨copying, log, hunseen, heq⟩ := finishWrite_eq σ h staged
      rw [heq]
      exact nakNames_of_unseen log rfl fun e he flow seq => (hunseen flow e he seq).2
  | copied h =>
      cases hex
      obtain ⟨log, hunseen, heq⟩ := redeliver_eq
        { σ with copying := σ.copying.erase (h.flowKey, h.seq) } h true
      rw [heq]
      exact nakNames_of_unseen log rfl fun e he flow seq => (hunseen flow e he seq).2
  | answered h =>
      cases hex
      obtain ⟨log, hunseen, heq⟩ := acknowledge_eq σ h
      rw [heq]
      exact nakNames_of_unseen log rfl fun e he flow seq => (hunseen flow e he seq).2

/-! ## What waits -/

@[simp] theorem count_delivered_acks (σ : StrictGbn) (h : GbnHeader) (flow seq : Nat) :
    (σ.acks h).count (.delivered flow seq) = 0 := by
  rcases acks_cases σ h with hnone | hone
  · rw [hnone]
    rfl
  · rw [hone, List.count_singleton]
    rfl

@[simp] theorem count_redelivered_acks (σ : StrictGbn) (h : GbnHeader) (flow seq : Nat) :
    (σ.acks h).count (.redelivered flow seq) = 0 := by
  rcases acks_cases σ h with hnone | hone
  · rw [hnone]
    rfl
  · rw [hone, List.count_singleton]
    rfl

variable {seq : Nat}

theorem Served.frame (h : Served σ flow seq)
    (hdelivered : σ'.log.count (.delivered flow seq) = σ.log.count (.delivered flow seq))
    (hredelivered : σ'.log.count (.redelivered flow seq) = σ.log.count (.redelivered flow seq))
    (hpending : (flow, seq) ∈ σ'.rdmaPendingAck ↔ (flow, seq) ∈ σ.rdmaPendingAck)
    (hwriting : (flow, seq) ∈ σ'.writing ↔ (flow, seq) ∈ σ.writing)
    (hcopying : (flow, seq) ∈ σ'.copying ↔ (flow, seq) ∈ σ.copying)
    (hheld : (flow, seq) ∈ σ'.held ↔ (flow, seq) ∈ σ.held) : Served σ' flow seq := by
  refine ⟨?_, ?_, ?_⟩
  · simpa only [among, hdelivered, hredelivered, hwriting, hcopying, hheld] using h.again
  · rw [hdelivered]
    exact h.once
  · rw [hpending, hwriting, hheld]
    exact h.pending

theorem Served.alone (h : Served σ flow seq) :
    among σ.writing flow seq + among σ.copying flow seq + among σ.held flow seq ≤ 1 := by
  have := h.again
  have := h.once
  omega

/-- The first time a number is handed on. -/
theorem Served.deliver (hserved : Served σ flow seq) (service : Service)
    (hfirst : σ.log.count (.delivered h.flowKey h.seq) = 0) :
    Served (σ.onPacketDelivered h service) flow seq := by
  by_cases hkey : (flow, seq) = (h.flowKey, h.seq)
  · obtain ⟨rfl, rfl⟩ := Prod.mk.inj hkey
    have hagain := hserved.again
    rw [hfirst] at hagain
    have hfree : (h.flowKey, h.seq) ∉ σ.writing ∧ (h.flowKey, h.seq) ∉ σ.copying ∧
        (h.flowKey, h.seq) ∉ σ.held := by
      simp only [among] at hagain
      refine ⟨?_, ?_, ?_⟩ <;> intro hmem <;> simp only [hmem, if_true] at hagain <;> omega
    have hidle : (h.flowKey, h.seq) ∉ σ.rdmaPendingAck := by
      rw [hserved.pending]
      exact not_or.mpr ⟨hfree.1, hfree.2.2⟩
    have hnever : σ.log.count (.redelivered h.flowKey h.seq) = 0 := by omega
    obtain ⟨hwriting, hcopying, hheld⟩ := hfree
    cases service with
    | direct =>
        show Served (sendLlrAckPacket _ h) _ _
        rw [sendLlrAckPacket_eq]
        constructor <;> simp [among, *]
    | deferred =>
        constructor <;> simp [onPacketDelivered, among, *]
    | operation holds =>
        cases holds with
        | true => constructor <;> simp [onPacketDelivered, among, *]
        | false =>
            show Served (sendLlrAckPacket _ h) _ _
            rw [sendLlrAckPacket_eq]
            constructor <;> simp [among, *]
  · have hother : ¬(h.flowKey = flow ∧ h.seq = seq) := fun heq => hkey (Prod.ext heq.1.symm heq.2.symm)
    cases service with
    | direct =>
        show Served (sendLlrAckPacket _ h) _ _
        rw [sendLlrAckPacket_eq]
        refine hserved.frame ?_ ?_ .rfl .rfl .rfl .rfl <;> simp [hother]
    | deferred =>
        refine hserved.frame ?_ ?_ ?_ ?_ .rfl .rfl <;>
          simp [onPacketDelivered, hother, hkey]
    | operation holds =>
        cases holds with
        | true =>
            refine hserved.frame ?_ ?_ ?_ .rfl .rfl ?_ <;>
              simp [onPacketDelivered, hother, hkey]
        | false =>
            show Served (sendLlrAckPacket _ h) _ _
            rw [sendLlrAckPacket_eq]
            refine hserved.frame ?_ ?_ ?_ .rfl .rfl ?_ <;> simp [hother, hkey]

theorem Served.write (hserved : Served σ flow seq) (hwriting : (h.flowKey, h.seq) ∈ σ.writing)
    (staged : Bool) : Served (σ.finishWrite h staged) flow seq := by
  by_cases hkey : (flow, seq) = (h.flowKey, h.seq)
  · obtain ⟨rfl, rfl⟩ := Prod.mk.inj hkey
    have hagain := hserved.again
    have honce := hserved.once
    have halone := hserved.alone
    simp only [among, hwriting, if_true] at hagain halone
    have hcopying : (h.flowKey, h.seq) ∉ σ.copying := fun hmem => by
      simp only [hmem, if_true] at halone
      omega
    have hheld : (h.flowKey, h.seq) ∉ σ.held := fun hmem => by
      simp only [hmem, if_true] at halone
      omega
    simp only [hcopying, hheld, if_false] at hagain
    cases staged with
    | true =>
        show Served (sendLlrAckPacket _ h) _ _
        rw [sendLlrAckPacket_eq]
        constructor <;> simp [among, *]
    | false =>
        show Served (sendLlrAckPacket _ h) _ _
        rw [sendLlrAckPacket_eq]
        constructor <;> simp [among, *]
  · have hother : ¬(h.flowKey = flow ∧ h.seq = seq) := fun heq => hkey (Prod.ext heq.1.symm heq.2.symm)
    cases staged with
    | true =>
        show Served (sendLlrAckPacket _ h) _ _
        rw [sendLlrAckPacket_eq]
        refine hserved.frame ?_ ?_ ?_ ?_ ?_ .rfl <;> simp [hkey]
    | false =>
        show Served (sendLlrAckPacket _ h) _ _
        rw [sendLlrAckPacket_eq]
        refine hserved.frame ?_ ?_ ?_ ?_ .rfl .rfl <;> simp [hother, hkey]

theorem Served.copy (hserved : Served σ flow seq) (hcopying : (h.flowKey, h.seq) ∈ σ.copying) :
    Served (redeliver { σ with copying := σ.copying.erase (h.flowKey, h.seq) } h true) flow seq := by
  by_cases hkey : (flow, seq) = (h.flowKey, h.seq)
  · obtain ⟨rfl, rfl⟩ := Prod.mk.inj hkey
    have hagain := hserved.again
    simp only [among, hcopying, if_true] at hagain
    refine ⟨?_, ?_, hserved.pending⟩
    · simp [redeliver, among]
      omega
    · simpa [redeliver] using hserved.once
  · have hother : ¬(h.flowKey = flow ∧ h.seq = seq) := fun heq => hkey (Prod.ext heq.1.symm heq.2.symm)
    refine hserved.frame ?_ ?_ .rfl .rfl ?_ .rfl <;> simp [redeliver, hother, hkey]

theorem Served.answer (hserved : Served σ flow seq) (hheld : (h.flowKey, h.seq) ∈ σ.held) :
    Served (σ.acknowledge h) flow seq := by
  show Served (sendLlrAckPacket _ h) _ _
  rw [sendLlrAckPacket_eq]
  by_cases hkey : (flow, seq) = (h.flowKey, h.seq)
  · obtain ⟨rfl, rfl⟩ := Prod.mk.inj hkey
    have hagain := hserved.again
    have honce := hserved.once
    have halone := hserved.alone
    simp only [among, hheld, if_true] at hagain halone
    have hwriting : (h.flowKey, h.seq) ∉ σ.writing := fun hmem => by
      simp only [hmem, if_true] at halone
      omega
    constructor
    · simp only [hwriting, if_false] at hagain
      simp [among, hwriting]
      omega
    · simp [honce]
    · simp [hwriting]
  · refine hserved.frame ?_ ?_ ?_ .rfl .rfl ?_ <;> simp [hkey]

/-- What was handed on is served as it should be, in every run. -/
theorem served_invariant (cfg : GbnConfig) (flow seq : Nat) :
    (gbnMachine cfg).Invariant fun σ => Served σ flow seq := by
  have hkept : (gbnMachine cfg).Invariant fun σ => ∀ flow, Kept σ flow :=
    fun σ hreach flow => kept_invariant cfg flow σ hreach
  refine hkept.strengthen ?_ ?_
  · rintro σ rfl
    constructor <;> simp [among]
  · intro σ a σ' hkept hserved hen hex
    cases a with
    | data h service =>
        rcases Nat.lt_trichotomy h.seq (σ.strictNextExpected h.flowKey) with hless | hsame | hgap
        · cases hex.symm.trans (exec_duplicate hless)
          refine hserved.frame ?_ ?_ .rfl .rfl .rfl .rfl <;> simp
        · cases hex
          unfold deliverBypassDataPacket
          dsimp only
          rw [if_pos hsame]
          -- nothing at or above the expected number was handed on before
          have hfirst : σ.log.count (.delivered h.flowKey h.seq) = 0 := by
            rw [count_delivered, List.count_eq_zero]
            intro hmem
            have := (hkept h.flowKey).below _ hmem
            omega
          refine Served.deliver (σ := advance { σ with log := σ.log ++ [.arrived h.flowKey h.seq] }
            h.flowKey) ?_ service ?_
          · refine hserved.frame ?_ ?_ .rfl .rfl .rfl .rfl <;> simp [advance]
          · simp [advance, hfirst]
        · obtain ⟨σ'', hex', hgap'⟩ := exec_gap service hgap
          cases hex.symm.trans hex'
          rw [hgap']
          refine hserved.frame ?_ ?_ .rfl .rfl .rfl .rfl <;>
            (dsimp only; split <;> simp)
    | notice h =>
        cases hex
        unfold processPermanentLossNotice
        dsimp only
        split
        · refine hserved.frame ?_ ?_ .rfl .rfl .rfl .rfl <;> simp [advance]
        · split
          · refine hserved.frame ?_ ?_ .rfl .rfl .rfl .rfl <;> simp
          · refine hserved.frame ?_ ?_ .rfl .rfl .rfl .rfl <;> simp
    | written h staged =>
        cases hex
        exact hserved.write hen.1 staged
    | copied h =>
        cases hex
        exact hserved.copy hen
    | answered h =>
        cases hex
        exact hserved.answer hen

end StrictGbn

open StrictGbn in
/-- The strict receiver hands on in order and once, accounts for every number, and reports a gap
once. What it handed on is handed over once more at most, when it is in memory. Behind a gap nothing
changes but the report and the count of such packets; a packet that has been settled is answered
again, unless its write to memory is open, the operation engine holds it, or the switch sent it. -/
theorem strictGbn_receives (cfg : GbnConfig) : (gbnMachine cfg).Invariant fun σ =>
    (∀ flow, InOrder σ flow) ∧
      (∀ flow seq, Served σ flow seq) ∧
      (∀ a σ', σ.exec a = .ok σ' → NakNames σ σ') ∧
      ∀ h service σ', σ.exec (.data h service) = .ok σ' →
        (σ.strictNextExpected h.flowKey < h.seq → Gap σ σ' h.flowKey h.seq) ∧
        (h.seq < σ.strictNextExpected h.flowKey →
          σ' = { σ with log := σ.log ++ .arrived h.flowKey h.seq :: σ.acks h }) := by
  intro σ hreach
  refine ⟨fun flow => (kept_invariant cfg flow σ hreach).flowInOrder,
    fun flow seq => served_invariant cfg flow seq σ hreach, fun a σ' hex => nakNames_exec hex, fun h service σ' hex => ⟨fun hgap => ?_, fun hless => ?_⟩⟩
  · obtain ⟨σ'', hex', hgap'⟩ := exec_gap service hgap
    cases hex.symm.trans hex'
    exact hgap'
  · rw [exec_duplicate hless] at hex
    cases hex
    rfl

/-- An endpoint of eight local ranks with strict flows. -/
def strictConfig : GbnConfig where
  soGbnStrict := true
  llrEnabled := true
  llrManager := some .goBackN
  bypassReorderBuffer := true
  staged := false
  localRankBase := 0
  localRankCount := 8

/-- A packet of a remote rank. -/
def remotePacket (seq : UInt32) : GbnHeader where
  flowId := 1
  sourceRank := 9
  sequenceNumber := seq

/-- The numbers of a flow that `OnPacketDelivered` was called with, by whomever. -/
def handedOver (log : List GbnObs) (flow : Nat) : List Nat :=
  log.filterMap fun
    | .delivered f seq | .redelivered f seq => if f = flow then some seq else none
    | _ => none

/-- A duplicate is not answered while the first copy waits for memory, a packet behind a gap is
counted, and at the end of its write a packet is handed over again. -/
theorem unanswered_remotePacket :
    (¬ ∀ cfg : GbnConfig, (gbnMachine cfg).Invariant fun σ => ∀ h service σ',
      (gbnMachine cfg).enabled σ (.data h service) → σ.exec (.data h service) = .ok σ' →
        h.seq < σ.strictNextExpected h.flowKey →
          .acked h.flowKey h.seq ∈ σ'.log.drop σ.log.length) ∧
      (¬ ∀ cfg : GbnConfig, (gbnMachine cfg).Invariant fun σ => ∀ h service σ',
        (gbnMachine cfg).enabled σ (.data h service) → σ.exec (.data h service) = .ok σ' →
          σ.strictNextExpected h.flowKey < h.seq →
            σ'.bypassReorderEvents = σ.bypassReorderEvents) ∧
      ¬ ∀ cfg : GbnConfig, (gbnMachine cfg).Invariant fun σ => ∀ flow,
        (handedOver σ.log flow).Pairwise (· < ·) := by
  have hinit : (gbnMachine strictConfig).init {} := rfl
  have hstrict : ∀ seq < 2, strictConfig.isStrictGbnFlow (remotePacket (UInt32.ofNat seq)) = true ∧
      (remotePacket (UInt32.ofNat seq)).seq + 1 < 2 ^ 32 := by decide
  refine ⟨fun hall => ?_, fun hall => ?_, fun hall => ?_⟩
  · have hrun : ((gbnMachine strictConfig).runs {} [.data (remotePacket 0) .deferred]).map
        (fun σ => (σ.strictNextExpected (remotePacket 0).flowKey, σ.rdmaPendingAck)) =
          some (1, {((remotePacket 0).flowKey, 0)}) := by decide +kernel
    obtain ⟨σ, hreach, hobs⟩ := Machine.Reachable.exists_of_runs hinit hrun
    rw [Prod.mk.injEq] at hobs
    have hseq : (remotePacket 0).seq < σ.strictNextExpected (remotePacket 0).flowKey := by
      rw [hobs.1]
      decide
    have hanswer := hall strictConfig σ hreach (remotePacket 0) .direct _ (hstrict 0 (by decide))
      (StrictGbn.exec_duplicate hseq) hseq
    have hpending : σ.acks (remotePacket 0) = [] := by
      refine if_pos (.inl ?_)
      rw [hobs.2]
      decide
    rw [hpending, List.drop_left] at hanswer
    simp at hanswer
  · have hgap : StrictGbn.strictNextExpected {} (remotePacket 1).flowKey < (remotePacket 1).seq := by
      decide
    obtain ⟨σ', hex, hgap'⟩ := StrictGbn.exec_gap .direct hgap
    have hcount := hall strictConfig {} (.init hinit) (remotePacket 1) .direct σ' (hstrict 1 (by decide))
      hex hgap
    rw [hgap'] at hcount
    exact absurd hcount (by decide)
  · have hrun : ((gbnMachine strictConfig).runs {}
        [.data (remotePacket 0) .deferred, .written (remotePacket 0) false]).map
          (fun σ => handedOver σ.log (remotePacket 0).flowKey) = some [0, 0] := by decide +kernel
    obtain ⟨σ, hreach, hobs⟩ := Machine.Reachable.exists_of_runs hinit hrun
    have hordered := hall strictConfig σ hreach (remotePacket 0).flowKey
    rw [hobs] at hordered
    exact absurd hordered (by decide)

end ProtoBridge.Endpoint
