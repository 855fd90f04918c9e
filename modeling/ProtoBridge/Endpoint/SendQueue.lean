import ProtoBridge.Endpoint.BulkSend
import ProtoBridge.Endpoint.CreditManager

/-!
# The send queue

`TrySendQueuedPackets` goes through the send queue once. An entry whose class is paused is
passed by; the scan ends at the first entry that the gate refuses. The gate is asked
before the pause is looked at, so an entry that is passed by has taken its credit.
-/

namespace ProtoBridge.Endpoint

open Lib Fabric

/-- `HasCredits`. -/
def CreditManager.hasCredits (m : CreditManager) (vcId : UInt8) : Bool :=
  match m.vcCredits vcId with
  | none => false
  | some info => info.availableCredits > 0

/-- `GetAvailableCredits`. -/
def CreditManager.availableCredits (m : CreditManager) (vcId : UInt8) : Nat :=
  match m.vcCredits vcId with
  | none => 0
  | some info => info.availableCredits

/-- `FlowControlPolicy`. -/
inductive FlowControlPolicy
  | credit
  | window
  | rate
  deriving DecidableEq

/-- `SendQueueEntry`. -/
structure SendQueueEntry where
  packet : List UInt8
  header : Header
  vcId : UInt8 := 0
  seqNum : UInt32 := 0
  deviceIndex : UInt32 := Nic.anyDevice
  deriving DecidableEq

/-- What happens to the entries of the queue. -/
inductive EgressObs
  | consumed (vcId : UInt8) (seqNum : UInt32)
  | sent (entry : SendQueueEntry)
  deriving DecidableEq

/-- What is around the pause in `SendPacketOnDevice`. Before it, a packet of an IBGDA operation may be
taken to wait for its source read; behind it are the pacers, the retry store and the device, which
refuse only a send beyond the horizon. -/
structure Port (γ : Type) where
  prepareIbgdaPacket : Header → List UInt8 → UInt32 → γ → γ × Bool
  transmit : Header → List UInt8 → UInt32 → γ → γ × Bool
  resolveDeviceIndex : UInt16 → γ → γ × UInt32

/-- The part of a `FabricEndpoint` that the send queue goes out through. A class is paused by the
switches whose addresses are in its set; one without an entry has the empty set. -/
structure Egress (γ : Type) where
  nic : Nic
  flowControlPolicy : FlowControlPolicy := .credit
  creditManager : Option CreditManager
  pfcPausedDests : UInt16 → UInt8 → Finset Nat := fun _ _ => ∅
  sendQueue : List SendQueueEntry
  port : γ
  log : List EgressObs := []

namespace Egress

variable {γ : Type}

/-- `FlowControlGate`. -/
def flowControlGate (σ : Egress γ) (vcId : UInt8) (seqNum : UInt32) (creditBypass : Bool) :
    Except CreditAbort (Egress γ × Bool) :=
  match σ.flowControlPolicy with
  | .credit =>
      match σ.creditManager with
      | none => .ok (σ, true)
      | some m =>
          if creditBypass then .ok (σ, true)
          else if !m.hasCredits vcId then .ok (σ, false)
          else do
            let (_, m) ← m.consumeCredit vcId
            return ({ σ with creditManager := some m, log := σ.log ++ [.consumed vcId seqNum] },
              true)
  | .window => .ok (σ, true)
  | .rate => .ok (σ, true)

/-- `IsPfcPausedForDest`. -/
def isPfcPausedForDest (σ : Egress γ) (destRank : UInt16) (vcId : UInt8) : Bool :=
  decide (σ.pfcPausedDests destRank vcId).Nonempty

/-- Whether the class of a packet is paused. -/
def holds (σ : Egress γ) (hdr : Header) : Bool :=
  !hdr.packetType.isControl && !hdr.packetType.isRetry &&
    σ.isPfcPausedForDest hdr.destRank hdr.virtualChannel

/-- Whether the class of an entry is paused. -/
def held (σ : Egress γ) (entry : SendQueueEntry) : Bool := σ.holds entry.header

/-- `SendPacketOnDevice`, when no retransmission is under way. -/
def sendPacketOnDevice (port : Port γ) (σ : Egress γ) (hdr : Header) (packet : List UInt8)
    (deviceIndex : UInt32) : Egress γ × Bool :=
  let (world, taken) := port.prepareIbgdaPacket hdr packet deviceIndex σ.port
  if taken then ({ σ with port := world }, true)
  else if !hdr.packetType.isControl && !hdr.packetType.isRetry && !σ.nic.isLocalRank hdr.destRank &&
      σ.isPfcPausedForDest hdr.destRank hdr.virtualChannel then
    let entry : SendQueueEntry :=
      { packet, header := hdr, vcId := hdr.virtualChannel, seqNum := hdr.sequenceNumber,
        deviceIndex }
    ({ σ with port := world, sendQueue := σ.sendQueue ++ [entry] }, false)
  else
    let (world, sent) := port.transmit hdr packet deviceIndex world
    ({ σ with port := world }, sent)

/-- Where an entry of the queue goes out. -/
def route (port : Port γ) (entry : SendQueueEntry) (world : γ) : γ × UInt32 :=
  if entry.deviceIndex ≠ Nic.anyDevice then (world, entry.deviceIndex)
  else port.resolveDeviceIndex entry.header.destRank world

/-- Whether an entry goes past the credits. -/
def creditBypass (σ : Egress γ) (entry : SendQueueEntry) : Bool :=
  entry.header.packetType.isCreditBypass || !σ.nic.isLocalRank entry.header.destRank

/-- The loop of `TrySendQueuedPackets` over what is left of the queue; it returns the entries that
stay. -/
def drainLoop (port : Port γ) :
    List SendQueueEntry → Egress γ → Except CreditAbort (Egress γ × List SendQueueEntry)
  | [], σ => .ok (σ, [])
  | entry :: rest, σ => do
      let (σ, admitted) ← σ.flowControlGate entry.vcId entry.seqNum (σ.creditBypass entry)
      if !admitted then return (σ, entry :: rest)
      else if σ.held entry then
        let (σ, kept) ← drainLoop port rest σ
        return (σ, entry :: kept)
      else if σ.nic.deviceCount = 0 then drainLoop port rest σ
      else
        let (world, deviceIndex) := route port entry σ.port
        let (σ, sent) :=
          sendPacketOnDevice port { σ with port := world } entry.header entry.packet deviceIndex
        if !sent then return (σ, entry :: rest)
        else drainLoop port rest { σ with log := σ.log ++ [.sent entry] }

/-- `TrySendQueuedPackets`. -/
def trySendQueuedPackets (port : Port γ) (σ : Egress γ) : Except CreditAbort (Egress γ) := do
  let (τ, kept) ← drainLoop port σ.sendQueue { σ with sendQueue := [] }
  return { τ with sendQueue := kept ++ τ.sendQueue }

/-! ## Credits -/

/-- Whether the gate asks an entry for a credit. -/
def needsCredit (σ : Egress γ) (entry : SendQueueEntry) : Bool :=
  σ.flowControlPolicy == .credit && σ.creditManager.isSome && !σ.creditBypass entry

/-- The credits of a channel. -/
def available (σ : Egress γ) (vcId : UInt8) : Nat :=
  match σ.creditManager with
  | none => 0
  | some m => m.availableCredits vcId

/-- What does not change while the queue is drained. -/
structure SameGates (σ τ : Egress γ) : Prop where
  nic : τ.nic = σ.nic
  flowControlPolicy : τ.flowControlPolicy = σ.flowControlPolicy
  creditManager : τ.creditManager.isSome = σ.creditManager.isSome
  pfcPausedDests : τ.pfcPausedDests = σ.pfcPausedDests

namespace SameGates

variable {σ τ υ : Egress γ}

theorem refl (σ : Egress γ) : SameGates σ σ := ⟨rfl, rfl, rfl, rfl⟩

theorem trans (h : SameGates σ τ) (h' : SameGates τ υ) : SameGates σ υ :=
  ⟨h'.nic.trans h.nic, h'.flowControlPolicy.trans h.flowControlPolicy,
    h'.creditManager.trans h.creditManager, h'.pfcPausedDests.trans h.pfcPausedDests⟩

theorem held (h : SameGates σ τ) (entry : SendQueueEntry) : τ.held entry = σ.held entry := by
  rw [Egress.held, Egress.held, holds, holds, isPfcPausedForDest, isPfcPausedForDest,
    h.pfcPausedDests]

theorem needsCredit (h : SameGates σ τ) (entry : SendQueueEntry) :
    τ.needsCredit entry = σ.needsCredit entry := by
  rw [Egress.needsCredit, Egress.needsCredit, h.flowControlPolicy, h.creditManager, creditBypass,
    creditBypass, h.nic]

end SameGates

theorem hasCredits_iff (m : CreditManager) (vcId : UInt8) :
    m.hasCredits vcId = true ↔ 0 < m.availableCredits vcId := by
  rw [CreditManager.hasCredits, CreditManager.availableCredits]
  cases m.vcCredits vcId with
  | none => simp
  | some info => simp

theorem consumeCredit_available {m m' : CreditManager} {vcId : UInt8} {granted : Bool}
    (some : 0 < m.availableCredits vcId) (h : m.consumeCredit vcId = .ok (granted, m'))
    (vc : UInt8) :
    m'.availableCredits vc + (if vcId = vc then 1 else 0) = m.availableCredits vc := by
  rw [CreditManager.consumeCredit] at h
  rw [CreditManager.availableCredits] at some
  cases hinfo : m.vcCredits vcId with
  | none =>
      rw [hinfo] at some
      exact absurd some (Nat.lt_irrefl 0)
  | some info =>
      simp only [hinfo] at h some
      rw [if_neg (Nat.ne_of_gt some)] at h
      split at h
      · cases h
      · split at h
        · cases h
        · obtain ⟨rfl, rfl⟩ := Prod.mk.inj (Except.ok.inj h)
          show CreditManager.availableCredits (m.setVc vcId (CreditManager.consumed info)) vc + _ = _
          rw [CreditManager.availableCredits, CreditManager.availableCredits]
          by_cases same : vcId = vc
          · subst same
            rw [CreditManager.setVc_self, hinfo, if_pos rfl]
            show info.availableCredits - 1 + 1 = info.availableCredits
            omega
          · rw [CreditManager.setVc_ne m _ (Ne.symm same), if_neg same, Nat.add_zero]

/-- The gate has let an entry through, for a credit if it needs one. -/
structure Admitted (σ τ : Egress γ) (entry : SendQueueEntry) : Prop where
  gates : SameGates σ τ
  sendQueue : τ.sendQueue = σ.sendQueue
  port : τ.port = σ.port
  log : τ.log =
    σ.log ++ (if σ.needsCredit entry then [.consumed entry.vcId entry.seqNum] else [])
  some : σ.needsCredit entry → 0 < σ.available entry.vcId
  balance : ∀ vc, τ.available vc + (if σ.needsCredit entry ∧ entry.vcId = vc then 1 else 0) =
    σ.available vc

variable {entry : SendQueueEntry}

theorem Admitted.free {σ : Egress γ} (bypass : σ.needsCredit entry = false)
    : Admitted σ σ entry where
  gates := .refl σ
  sendQueue := rfl
  port := rfl
  log := by simp [bypass]
  some := by simp [bypass]
  balance := by simp [bypass]

/-- The gate refuses an entry only where it needs a credit and there is none. -/
theorem flowControlGate_spec {σ τ : Egress γ} {admitted : Bool}
    (h : σ.flowControlGate entry.vcId entry.seqNum (σ.creditBypass entry) = .ok (τ, admitted)) :
    (admitted = false ∧ τ = σ ∧ σ.needsCredit entry ∧ σ.available entry.vcId = 0) ∨
      (admitted = true ∧ Admitted σ τ entry) := by
  have pass (bypass : σ.needsCredit entry = false)
      (same : (.ok (σ, true) : Except CreditAbort (Egress γ × Bool)) = .ok (τ, admitted)) :
      admitted = true ∧ Admitted σ τ entry := by
    obtain ⟨rfl, rfl⟩ := Prod.mk.inj (Except.ok.inj same)
    exact ⟨rfl, .free bypass⟩
  rw [flowControlGate] at h
  cases hpolicy : σ.flowControlPolicy with
  | window | rate =>
      rw [hpolicy] at h
      exact .inr (pass (by simp [needsCredit, hpolicy]) h)
  | credit =>
      rw [hpolicy] at h
      cases hmanager : σ.creditManager with
      | none =>
          rw [hmanager] at h
          exact .inr (pass (by simp [needsCredit, hmanager]) h)
      | some m =>
          simp only [hmanager] at h
          split at h
          · rename_i bypass
            exact .inr (pass (by simp [needsCredit, bypass]) h)
          · rename_i asked
            have needs : σ.needsCredit entry = true := by
              simp [needsCredit, hpolicy, hmanager, asked]
            have count : σ.available entry.vcId = m.availableCredits entry.vcId := by
              rw [available, hmanager]
            split at h
            · rename_i none
              obtain ⟨rfl, rfl⟩ := Prod.mk.inj (Except.ok.inj h)
              refine .inl ⟨rfl, rfl, needs, ?_⟩
              rw [count]
              by_contra more
              have has := (hasCredits_iff m entry.vcId).mpr (Nat.pos_of_ne_zero more)
              rw [has] at none
              exact absurd none (by decide)
            · rename_i some
              have has : 0 < m.availableCredits entry.vcId := by
                rw [← hasCredits_iff]
                simpa using some
              obtain ⟨⟨granted, m'⟩, consumed, rest⟩ := bind_eq_ok.mp h
              obtain ⟨rfl, rfl⟩ := Prod.mk.inj (Except.ok.inj rest)
              refine .inr ⟨rfl, ⟨rfl, hpolicy.symm, by rw [hmanager]; rfl, rfl⟩, rfl, rfl,
                by rw [if_pos needs], fun _ => by rw [count]; exact has, fun vc => ?_⟩
              have taken := consumeCredit_available has consumed vc
              simp only [needs, true_and]
              rw [available, available, hmanager]
              exact taken

/-! ## The drain -/

/-- What the drain does to an entry it goes past. -/
def events (σ : Egress γ) (entry : SendQueueEntry) : List EgressObs :=
  (if σ.needsCredit entry then [.consumed entry.vcId entry.seqNum] else []) ++
    if σ.held entry then [] else [.sent entry]

/-- What the port makes of a packet that is not paused. -/
def carry (port : Port γ) (hdr : Header) (packet : List UInt8) (deviceIndex : UInt32) (world : γ) :
    γ :=
  let (world, taken) := port.prepareIbgdaPacket hdr packet deviceIndex world
  if taken then world else (port.transmit hdr packet deviceIndex world).1

/-- What it makes of an entry of the queue. -/
def carryEntry (port : Port γ) (world : γ) (entry : SendQueueEntry) : γ :=
  let (world, deviceIndex) := route port entry world
  carry port entry.header entry.packet deviceIndex world

/-- How many credits of a channel some entries take. -/
def charge (σ : Egress γ) (vc : UInt8) (entries : List SendQueueEntry) : Nat :=
  entries.countP fun entry => σ.needsCredit entry && entry.vcId == vc

/-- The drain has gone past `scanned`, and `rest` is what it left: nothing, or entries behind one
that finds no credit. -/
structure Scanned (port : Port γ) (σ τ : Egress γ) (scanned rest : List SendQueueEntry) : Prop where
  gates : SameGates σ τ
  sendQueue : τ.sendQueue = σ.sendQueue
  port : τ.port = (scanned.filter fun entry => !σ.held entry).foldl (carryEntry port) σ.port
  log : τ.log = σ.log ++ scanned.flatMap σ.events
  balance : ∀ vc, τ.available vc + σ.charge vc scanned = σ.available vc
  stop : ∀ entry behind, rest = entry :: behind →
    σ.needsCredit entry ∧ τ.available entry.vcId = 0

variable {port : Port γ}

theorem Scanned.cons {σ σ' τ : Egress γ} {scanned rest : List SendQueueEntry}
    (gates : SameGates σ σ') (sendQueue : σ'.sendQueue = σ.sendQueue)
    (carried : σ'.port = if σ.held entry then σ.port else carryEntry port σ.port entry)
    (log : σ'.log = σ.log ++ σ.events entry)
    (balance : ∀ vc, σ'.available vc + (if σ.needsCredit entry ∧ entry.vcId = vc then 1 else 0) =
      σ.available vc) (h : Scanned port σ' τ scanned rest) :
    Scanned port σ τ (entry :: scanned) rest := by
  have needs : σ'.needsCredit = σ.needsCredit := funext gates.needsCredit
  have holds : σ'.held = σ.held := funext gates.held
  have same : σ'.events = σ.events := by
    funext e
    rw [events, events, needs, holds]
  constructor
  · exact gates.trans h.gates
  · rw [h.sendQueue, sendQueue]
  · rw [h.port, holds, carried, List.filter_cons]
    cases σ.held entry with
    | false => rfl
    | true => rfl
  · rw [h.log, log, same, List.flatMap_cons, List.append_assoc]
  · intro vc
    have first := balance vc
    have later := h.balance vc
    rw [charge, needs] at later
    rw [charge, List.countP_cons]
    simp only [Bool.and_eq_true, beq_iff_eq]
    omega
  · intro e behind hrest
    rw [← needs]
    exact h.stop e behind hrest

theorem sendPacketOnDevice_free (delivers : ∀ hdr p d world, (port.transmit hdr p d world).2 = true)
    {σ : Egress γ} {hdr : Header} (free : ¬σ.holds hdr) (packet : List UInt8)
    (deviceIndex : UInt32) :
    sendPacketOnDevice port σ hdr packet deviceIndex =
      ({ σ with port := carry port hdr packet deviceIndex σ.port }, true) := by
  have unpaused : ¬(!hdr.packetType.isControl && !hdr.packetType.isRetry &&
      !σ.nic.isLocalRank hdr.destRank &&
      σ.isPfcPausedForDest hdr.destRank hdr.virtualChannel) := by
    intro paused
    simp only [Bool.and_eq_true] at paused
    apply free
    simp only [holds, Bool.and_eq_true]
    exact ⟨paused.1.1, paused.2⟩
  rw [sendPacketOnDevice, carry]
  dsimp only
  rw [if_neg unpaused, delivers]
  split
  · rfl
  · rfl

/-- The drain goes past a part of the queue and keeps what is held of it, and what is behind. -/
theorem drainLoop_scanned (delivers : ∀ hdr p d world, (port.transmit hdr p d world).2 = true)
    {queue kept : List SendQueueEntry} {σ τ : Egress γ} (device : σ.nic.deviceCount ≠ 0)
    (h : drainLoop port queue σ = .ok (τ, kept)) :
    ∃ scanned rest, queue = scanned ++ rest ∧ kept = scanned.filter σ.held ++ rest ∧
      Scanned port σ τ scanned rest := by
  induction queue generalizing σ kept with
  | nil =>
      obtain ⟨rfl, rfl⟩ := Prod.mk.inj (Except.ok.inj h)
      refine ⟨[], [], rfl, rfl, .refl _, rfl, rfl, (List.append_nil _).symm, fun _ => rfl, ?_⟩
      intro entry behind none
      cases none
  | cons entry rest ih =>
      rw [drainLoop] at h
      obtain ⟨⟨σ', admitted⟩, hgate, hloop⟩ := bind_eq_ok.mp h
      clear h
      dsimp only at hloop
      rcases flowControlGate_spec hgate with ⟨rfl, rfl, needs, none⟩ | ⟨rfl, hadmitted⟩
      -- the scan ends here
      · rw [if_pos (by rfl)] at hloop
        obtain ⟨rfl, rfl⟩ := Prod.mk.inj (Except.ok.inj hloop)
        refine ⟨[], entry :: rest, rfl, rfl, .refl _, rfl, rfl, (List.append_nil _).symm,
          fun _ => rfl, ?_⟩
        intro e behind same
        obtain ⟨rfl, rfl⟩ := List.cons.inj same
        exact ⟨needs, none⟩
      · rw [if_neg (by decide)] at hloop
        have gates := hadmitted.gates
        have device' : σ'.nic.deviceCount ≠ 0 := by
          rw [gates.nic]
          exact device
        rw [gates.held] at hloop
        by_cases hheld : σ.held entry
        · rw [if_pos hheld] at hloop
          obtain ⟨⟨υ, kept'⟩, hrest, hkeep⟩ := bind_eq_ok.mp hloop
          obtain ⟨rfl, rfl⟩ := Prod.mk.inj (Except.ok.inj hkeep)
          obtain ⟨scanned, left, split, hkept, spec⟩ := ih device' hrest
          refine ⟨entry :: scanned, left, ?_, ?_, ?_⟩
          · rw [split]
            rfl
          · rw [hkept, funext gates.held, List.filter_cons_of_pos hheld]
            rfl
          · refine .cons gates hadmitted.sendQueue ?_ ?_ hadmitted.balance spec
            · rw [hadmitted.port, if_pos hheld]
            · rw [hadmitted.log, events, if_pos hheld, List.append_nil]
        · rw [if_neg hheld, if_neg device'] at hloop
          have free : ¬σ'.held entry := by
            rw [gates.held]
            exact hheld
          rw [sendPacketOnDevice_free delivers (by exact free)] at hloop
          dsimp only at hloop
          change drainLoop port rest { σ' with
            port := carryEntry port σ'.port entry, log := σ'.log ++ [.sent entry] } = _ at hloop
          obtain ⟨scanned, left, split, hkept, spec⟩ := ih (by exact device') hloop
          refine ⟨entry :: scanned, left, ?_, ?_, ?_⟩
          · rw [split]
            rfl
          · have holds : held { σ' with port := carryEntry port σ'.port entry, log := σ'.log ++ [.sent entry] }
                = σ.held :=
              funext gates.held
            rw [hkept, holds, List.filter_cons_of_neg hheld]
          · have gates' : SameGates σ
                { σ' with port := carryEntry port σ'.port entry, log := σ'.log ++ [.sent entry] } :=
              ⟨gates.nic, gates.flowControlPolicy, gates.creditManager, gates.pfcPausedDests⟩
            refine .cons gates' hadmitted.sendQueue ?_ ?_ hadmitted.balance spec
            · rw [if_neg hheld, ← hadmitted.port]
            · rw [hadmitted.log, events, if_neg hheld, List.append_assoc]

/-! ## What is left behind -/

/-- The entries that were sent. -/
def sentEntries (log : List EgressObs) : List SendQueueEntry :=
  log.filterMap fun
    | .sent entry => some entry
    | .consumed _ _ => none

theorem sentEntries_events (σ : Egress γ) (scanned : List SendQueueEntry) :
    sentEntries (scanned.flatMap σ.events) = scanned.filter fun entry => !σ.held entry := by
  induction scanned with
  | nil => rfl
  | cons entry scanned ih =>
      rw [List.flatMap_cons, sentEntries, List.filterMap_append]
      change _ ++ sentEntries (scanned.flatMap σ.events) = _
      rw [ih, events]
      cases σ.needsCredit entry <;> cases hheld : σ.held entry <;> simp [hheld]

/-- The drain `τ` of a queue leaves nothing that could go: what stays is held, or has to have a
credit of a channel that has none. What it goes past is a part of the queue from its head; each
entry of it that needs a credit takes one, and each that is not held is sent. -/
structure Drained (σ τ : Egress γ) : Prop where
  nothing : ∀ entry ∈ τ.sendQueue,
    σ.held entry ∨ σ.needsCredit entry ∧ τ.available entry.vcId = 0
  order : ∃ out, sentEntries τ.log = sentEntries σ.log ++ out ∧ out.Sublist σ.sendQueue
  passed : ∃ scanned rest, σ.sendQueue = scanned ++ rest ∧
    τ.sendQueue = scanned.filter σ.held ++ rest ∧
    τ.log = σ.log ++ scanned.flatMap σ.events ∧
    ∀ vc, τ.available vc + σ.charge vc scanned = σ.available vc

/-- An entry behind `before` finds that the credits of its channel are used up. -/
def Exhausted (σ : Egress γ) (before : List SendQueueEntry) (entry : SendQueueEntry) : Prop :=
  σ.needsCredit entry ∧ σ.available entry.vcId ≤ σ.charge entry.vcId before

instance (σ : Egress γ) (before : List SendQueueEntry) (entry : SendQueueEntry) :
    Decidable (σ.Exhausted before entry) :=
  inferInstanceAs (Decidable (_ ∧ _))

/-- Behind an entry without a credit there is none that could go. -/
def NoneBehind (σ : Egress γ) : Prop :=
  ∀ before entry behind, σ.sendQueue = before ++ entry :: behind → σ.Exhausted before entry →
    ∀ x ∈ behind, σ.held x ∨ σ.Exhausted before x

theorem charge_append (σ : Egress γ) (vc : UInt8) (entries more : List SendQueueEntry) :
    σ.charge vc (entries ++ more) = σ.charge vc entries + σ.charge vc more :=
  List.countP_append

theorem Exhausted.append {σ : Egress γ} {before : List SendQueueEntry}
    (h : σ.Exhausted before entry) (more : List SendQueueEntry) :
    σ.Exhausted (before ++ more) entry := by
  refine ⟨h.1, ?_⟩
  rw [charge_append]
  exact Nat.le_add_right_of_le h.2

namespace Scanned

variable {σ τ : Egress γ} {scanned rest : List SendQueueEntry}

theorem exhausted_iff (h : Scanned port σ τ scanned rest) (entry : SendQueueEntry) :
    σ.Exhausted scanned entry ↔ σ.needsCredit entry ∧ τ.available entry.vcId = 0 := by
  have balance := h.balance entry.vcId
  rw [Exhausted]
  constructor
  · rintro ⟨needs, used⟩
    exact ⟨needs, by omega⟩
  · rintro ⟨needs, none⟩
    exact ⟨needs, by omega⟩

theorem not_exhausted (h : Scanned port σ τ scanned rest) {before behind : List SendQueueEntry}
    {entry : SendQueueEntry} (hscanned : scanned = before ++ entry :: behind) :
    ¬σ.Exhausted before entry := by
  rintro ⟨needs, used⟩
  have balance := h.balance entry.vcId
  have own : 1 ≤ σ.charge entry.vcId (entry :: behind) := by
    rw [charge, List.countP_cons_of_pos (by simp [needs])]
    exact Nat.le_add_left 1 _
  rw [hscanned, charge_append] at balance
  omega

/-- Where the scan ended, nothing behind could go exactly under `NoneBehind`. -/
theorem noneBehind_iff (h : Scanned port σ τ scanned rest) (hqueue : σ.sendQueue = scanned ++ rest) :
    (∀ x ∈ rest, σ.held x ∨ σ.needsCredit x ∧ τ.available x.vcId = 0) ↔ σ.NoneBehind := by
  constructor
  · intro nothing before entry behind split used x mem
    rw [hqueue] at split
    rcases List.append_eq_append_iff.mp split with ⟨more, rfl, hrest⟩ | ⟨more, hscanned, hrest⟩
    · have stays : x ∈ rest := by
        rw [hrest]
        exact List.mem_append_right _ (List.mem_cons_of_mem _ mem)
      refine (nothing x stays).imp_right fun short => ?_
      exact ((h.exhausted_iff x).mpr short).append more
    · cases more with
      | nil =>
          -- the entry is the one that ended the scan
          rw [List.append_nil] at hscanned
          subst hscanned
          have stays : x ∈ rest := by
            rw [List.nil_append] at hrest
            rw [← hrest]
            exact List.mem_cons_of_mem _ mem
          exact (nothing x stays).imp_right (h.exhausted_iff x).mpr
      | cons first more =>
          obtain ⟨rfl, rfl⟩ := List.cons.inj hrest
          exact absurd used (h.not_exhausted hscanned)
  · intro none x mem
    cases rest with
    | nil => cases mem
    | cons entry behind =>
        have short := h.stop entry behind rfl
        rcases List.mem_cons.mp mem with rfl | mem
        · exact .inr short
        · have used := (h.exhausted_iff entry).mpr short
          exact (none scanned entry behind hqueue used x mem).imp_right (h.exhausted_iff x).mp

end Scanned

theorem trySendQueuedPackets_scanned
    (delivers : ∀ hdr p d world, (port.transmit hdr p d world).2 = true) {σ τ : Egress γ}
    (device : σ.nic.deviceCount ≠ 0) (h : trySendQueuedPackets port σ = .ok τ) :
    ∃ scanned rest, σ.sendQueue = scanned ++ rest ∧
      τ.sendQueue = scanned.filter σ.held ++ rest ∧
      Scanned port σ { τ with sendQueue := σ.sendQueue } scanned rest := by
  rw [trySendQueuedPackets] at h
  obtain ⟨⟨υ, kept⟩, hloop, hkeep⟩ := bind_eq_ok.mp h
  obtain rfl := Except.ok.inj hkeep
  clear h hkeep
  obtain ⟨scanned, rest, split, hkept, spec⟩ := drainLoop_scanned delivers (by exact device) hloop
  refine ⟨scanned, rest, split, ?_, ?_⟩
  · -- the queue is empty while it is drained
    have empty : υ.sendQueue = [] := spec.sendQueue
    show kept ++ υ.sendQueue = _
    rw [empty, List.append_nil, hkept]
    rfl
  · refine ⟨?_, rfl, spec.port, spec.log, spec.balance, spec.stop⟩
    have gates := spec.gates
    exact ⟨gates.nic, gates.flowControlPolicy, gates.creditManager, gates.pfcPausedDests⟩

/-- The drain leaves nothing behind that could go exactly where an entry without a credit has
none behind it that could. -/
theorem trySendQueuedPackets_drained
    (delivers : ∀ hdr p d world, (port.transmit hdr p d world).2 = true) {σ τ : Egress γ}
    (device : σ.nic.deviceCount ≠ 0) (h : trySendQueuedPackets port σ = .ok τ) :
    Drained σ τ ↔ σ.NoneBehind := by
  obtain ⟨scanned, rest, split, left, spec⟩ := trySendQueuedPackets_scanned delivers device h
  rw [← spec.noneBehind_iff split]
  constructor
  · intro drained x mem
    apply drained.nothing x
    rw [left]
    exact List.mem_append_right _ mem
  · intro nothing
    refine ⟨?_, ⟨scanned.filter fun entry => !σ.held entry, ?_, ?_⟩,
      scanned, rest, split, left, spec.log, spec.balance⟩
    · intro entry mem
      rw [left] at mem
      rcases List.mem_append.mp mem with mem | mem
      · exact .inl (List.mem_filter.mp mem).2
      · exact nothing entry mem
    · have log : τ.log = σ.log ++ scanned.flatMap σ.events := spec.log
      rw [← sentEntries_events, log]
      exact List.filterMap_append
    · rw [split]
      exact List.filter_sublist.trans (List.sublist_append_left scanned rest)

/-- The nodes 0 and 1 are in one machine. The packet at the head is for node 1, on a channel that has
no credits; the one behind it is for node 5, which needs none. -/
def starvedQueue : Egress Unit where
  nic := { loneNic with localRankCount := 2 }
  creditManager := some (({} : CreditManager).initializeVc 0 0)
  sendQueue :=
    [{ packet := [1], header := { packetType := .p2p, destRank := 1 } },
      { packet := [2], header := { destRank := 5, virtualChannel := 1 }, vcId := 1 }]
  port := ()

/-- Every packet goes out on the first device. -/
def openPort : Port Unit where
  prepareIbgdaPacket := fun _ _ _ world => (world, false)
  transmit := fun _ _ _ world => (world, true)
  resolveDeviceIndex := fun _ world => (world, 0)

/-- An entry for node 1, which takes a credit of channel 0. -/
def localEntry (byte : UInt8) : SendQueueEntry :=
  { packet := [byte], header := { packetType := .p2p, destRank := 1 } }

/-- An entry for a node of another machine, which takes none. -/
def remoteEntry (byte : UInt8) (destRank : UInt16) : SendQueueEntry :=
  { packet := [byte], header := { destRank, virtualChannel := 1 }, vcId := 1 }

/-- Channel 0 has one credit, and what is for node 5 is paused. -/
def mixedQueue : Egress Unit where
  nic := { loneNic with localRankCount := 2 }
  creditManager := some (({} : CreditManager).initializeVc 0 1)
  pfcPausedDests destRank _ := if destRank = 5 then {7} else ∅
  sendQueue :=
    [localEntry 1, remoteEntry 2 5, remoteEntry 3 6, localEntry 4, remoteEntry 5 5, localEntry 6]
  port := ()

/-- The drain goes past the paused entry and ends at the second one that takes a credit, and what
is behind that one could not go either. -/
theorem trySendQueuedPackets_drained_mixedQueue :
    ∃ τ, trySendQueuedPackets openPort mixedQueue = .ok τ ∧
      sentEntries τ.log = [localEntry 1, remoteEntry 3 6] ∧
      τ.sendQueue = [remoteEntry 2 5, localEntry 4, remoteEntry 5 5, localEntry 6] ∧
      Drained mixedQueue τ := by
  have sends : ∀ hdr p d world, (openPort.transmit hdr p d world).2 = true := fun _ _ _ _ => rfl
  refine ⟨_, rfl, by decide, by decide,
    (trySendQueuedPackets_drained sends (by decide) rfl).mpr ?_⟩
  have each : ∀ i < 6, ∀ entry ∈ mixedQueue.sendQueue[i]?,
      mixedQueue.Exhausted (mixedQueue.sendQueue.take i) entry →
        ∀ x ∈ mixedQueue.sendQueue.drop (i + 1),
          mixedQueue.held x ∨ mixedQueue.Exhausted (mixedQueue.sendQueue.take i) x := by
    decide
  intro before entry behind split
  have short : before.length < 6 := by
    have all : mixedQueue.sendQueue.length = 6 := rfl
    rw [split] at all
    simp at all
    omega
  simpa [split] using each before.length short entry

/-- The packet for node 5 needs no credit and is not held, and it stays. -/
theorem not_drained :
    ¬∀ (port : Port Unit) (σ τ : Egress Unit),
      (∀ hdr p d world, (port.transmit hdr p d world).2 = true) → σ.nic.deviceCount ≠ 0 →
        trySendQueuedPackets port σ = .ok τ → Drained σ τ := by
  intro all
  have stuck : trySendQueuedPackets openPort starvedQueue = .ok starvedQueue := rfl
  have drained := all openPort starvedQueue starvedQueue (fun _ _ _ _ => rfl) (by decide) stuck
  have last := drained.nothing _ (List.mem_cons_of_mem _ (List.mem_singleton_self _))
  revert last
  decide

end Egress

end ProtoBridge.Endpoint
