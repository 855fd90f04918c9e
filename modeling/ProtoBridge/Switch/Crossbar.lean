import Mathlib.Data.List.MinMax
import ProtoBridge.Lib.Machine

/-!
# The crossbar of the switch

A packet goes straight to its output if nothing is queued there and the output is free; else
it is queued. One arbitration event serves all outputs. A packet that comes in arms it only if
it is not pending, and the arbiter arms it again for the output that is free first among those
that have packets at that moment, so that a packet queued later at another output may wait for
an event that was not armed for it.
-/

namespace ProtoBridge.Switch

open Lib
open Function (update update_of_ne update_self)

/-- `VoqEntry`, for packets of any kind. -/
structure VoqEntry (P : Type) where
  packet : P
  srcAddr : Nat := 0
  dstAddr : Nat := 0
  inPort : Nat := 0
  deriving DecidableEq

/-- The attributes of an `NvSwitch`: how many ports it has, how deep a queue is, and what a packet
takes on the wire of a port. Times are in ticks; `nanosecond` is how many of them make one. -/
structure CrossbarConfig (P : Type) where
  nPorts : Nat
  voqDepth : Nat := 64
  arbitrationInterval : Nat := 100
  nanosecond : Nat := 1
  serializationTime : Nat → P → Nat

/-- What happens to packets. -/
inductive CrossbarObs (P : Type)
  | forwarded (outPort : Nat) (packet : P) (startTime : Nat)
  | dropped (outPort : Nat) (packet : P)
  deriving DecidableEq

/-- The part of an `NvSwitch` that moves packets, and the time. -/
structure Crossbar (P : Type) where
  now : Nat := 0
  voqs : Nat → List (VoqEntry P) := fun _ => []
  outputBusyUntil : Nat → Nat := fun _ => 0
  arbitrationEvent : Option Nat := none
  operational : Nat → Bool := fun _ => true
  log : List (CrossbarObs P) := []

/-- `NS_FATAL_ERROR` of `EnqueueToVoq`. -/
inductive CrossbarAbort
  | invalidOutputPort
  deriving DecidableEq

namespace Crossbar

variable {P : Type}

/-- `ForwardPacket`. The pipeline, the codec and the link come after the output is free again. -/
def forwardPacket (cfg : CrossbarConfig P) (σ : Crossbar P) (packet : P) (outPort : Nat) :
    Crossbar P :=
  if outPort ≥ cfg.nPorts then σ
  else if !σ.operational outPort then { σ with log := σ.log ++ [.dropped outPort packet] }
  else
    let startTime := max σ.now (σ.outputBusyUntil outPort)
    { σ with
      outputBusyUntil := update σ.outputBusyUntil outPort
        (startTime + cfg.serializationTime outPort packet)
      log := σ.log ++ [.forwarded outPort packet startTime] }

/-- `EnqueueToVoq`, where `OnPacketEnqueue` admits every packet. -/
def enqueueToVoq (cfg : CrossbarConfig P) (σ : Crossbar P) (outPort : Nat) (entry : VoqEntry P) :
    Except CrossbarAbort (Crossbar P) :=
  if outPort ≥ cfg.nPorts then .error .invalidOutputPort
  else if !σ.operational outPort then
    .ok { σ with log := σ.log ++ [.dropped outPort entry.packet] }
  else if (σ.voqs outPort).length ≥ cfg.voqDepth then
    .ok { σ with log := σ.log ++ [.dropped outPort entry.packet] }
  else if (σ.voqs outPort).isEmpty ∧ σ.now ≥ σ.outputBusyUntil outPort then
    .ok (σ.forwardPacket cfg entry.packet outPort)
  else
    .ok { σ with voqs := update σ.voqs outPort (σ.voqs outPort ++ [entry]) }

/-- `ScheduleArbitration`. -/
def scheduleArbitration (cfg : CrossbarConfig P) (σ : Crossbar P) : Crossbar P :=
  { σ with arbitrationEvent := some (σ.now + cfg.arbitrationInterval) }

/-- A packet goes to each of its outputs in turn. -/
def enqueueAll (cfg : CrossbarConfig P) (entry : VoqEntry P) :
    List Nat → Crossbar P → Except CrossbarAbort (Crossbar P)
  | [], σ => .ok σ
  | outPort :: rest, σ => do
      let σ ← σ.enqueueToVoq cfg outPort entry
      enqueueAll cfg entry rest σ

/-- `ReceiveFromPort`, of a packet that is routed: `targets` are the one output it has a route to,
the outputs it is flooded to, or none if it came in where it should go out. -/
def receiveFromPort (cfg : CrossbarConfig P) (σ : Crossbar P) (targets : List Nat)
    (entry : VoqEntry P) : Except CrossbarAbort (Crossbar P) := do
  let σ ← enqueueAll cfg entry targets σ
  return if σ.arbitrationEvent.isNone then σ.scheduleArbitration cfg else σ

/-- `RoundRobinArbiter::SelectGrants`. -/
def selectGrants (cfg : CrossbarConfig P) (σ : Crossbar P) : List Nat :=
  (List.range cfg.nPorts).filter fun port =>
    !(σ.voqs port).isEmpty && σ.now ≥ σ.outputBusyUntil port

/-- The packet at the head of a granted output goes out. -/
def drainPort (cfg : CrossbarConfig P) (σ : Crossbar P) (port : Nat) : Crossbar P :=
  match σ.voqs port with
  | [] => σ
  | entry :: rest =>
      { σ with voqs := update σ.voqs port rest }.forwardPacket cfg entry.packet port

/-- The outputs that have packets. -/
def queuedPorts (cfg : CrossbarConfig P) (σ : Crossbar P) : List Nat :=
  (List.range cfg.nPorts).filter fun port => !(σ.voqs port).isEmpty

/-- The next arbitration, at the earliest time that an output with packets is free. -/
def rearm (cfg : CrossbarConfig P) (σ : Crossbar P) : Crossbar P :=
  match ((σ.queuedPorts cfg).map σ.outputBusyUntil).min? with
  | none => { σ with arbitrationEvent := none }
  | some earliestFree =>
      { σ with
        arbitrationEvent :=
          some (if earliestFree ≤ σ.now then σ.now + cfg.nanosecond else earliestFree) }

/-- `Arbitrate`. -/
def arbitrate (cfg : CrossbarConfig P) (σ : Crossbar P) : Crossbar P :=
  ((σ.selectGrants cfg).foldl (drainPort cfg) σ).rearm cfg

end Crossbar

/-- What can happen to a switch. -/
inductive CrossbarAct (P : Type)
  | tick (ticks : Nat)
  | receive (targets : List Nat) (entry : VoqEntry P)
  | sendFrom (outPort : Nat) (packet : P)
  | arbitrate
  | setLink (port : Nat) (up : Bool)

namespace Crossbar

variable {P : Type}

/-- One event. -/
def handle (cfg : CrossbarConfig P) (σ : Crossbar P) :
    CrossbarAct P → Except CrossbarAbort (Crossbar P)
  | .tick ticks => .ok { σ with now := σ.now + ticks }
  | .receive targets entry => σ.receiveFromPort cfg targets entry
  | .sendFrom outPort packet => .ok (σ.forwardPacket cfg packet outPort)
  | .arbitrate => .ok (σ.arbitrate cfg)
  | .setLink port up => .ok { σ with operational := update σ.operational port up }

/-- Time does not pass the arbitration, which takes place at its time. A packet goes to an output
once. -/
def Enabled (σ : Crossbar P) : CrossbarAct P → Prop
  | .tick ticks => ∀ t ∈ σ.arbitrationEvent, σ.now + ticks ≤ t
  | .receive targets _ => targets.Nodup
  | .arbitrate => σ.arbitrationEvent = some σ.now
  | .sendFrom _ _ | .setLink _ _ => True

instance (σ : Crossbar P) : ∀ a, Decidable (σ.Enabled a)
  | .tick _ => inferInstanceAs (Decidable (∀ t ∈ σ.arbitrationEvent, _))
  | .receive targets _ => inferInstanceAs (Decidable targets.Nodup)
  | .arbitrate => inferInstanceAs (Decidable (_ = _))
  | .sendFrom _ _ | .setLink _ _ => .isTrue trivial

end Crossbar

/-- A switch that has seen no packet. -/
def crossbarMachine {P : Type} (cfg : CrossbarConfig P) :
    Machine (Crossbar P) (CrossbarAct P) CrossbarAbort where
  init := (· = {})
  enabled := Crossbar.Enabled
  exec := Crossbar.handle cfg

instance {P : Type} (cfg : CrossbarConfig P) (σ : Crossbar P) (a : CrossbarAct P) :
    Decidable ((crossbarMachine cfg).enabled σ a) := inferInstanceAs (Decidable (σ.Enabled a))

namespace Crossbar

variable {P : Type} {cfg : CrossbarConfig P}

/-- Whenever packets are queued at an output, the next arbitration comes at most one interval
after the output is free. -/
def Conserving (cfg : CrossbarConfig P) (σ : Crossbar P) : Prop :=
  ∀ p < cfg.nPorts, σ.voqs p ≠ [] → ∃ t, σ.arbitrationEvent = some t ∧
    t ≤ max σ.now (σ.outputBusyUntil p) + max cfg.arbitrationInterval cfg.nanosecond

/-- A packet for this output will be the first one queued there. -/
def Waits (cfg : CrossbarConfig P) (σ : Crossbar P) (p : Nat) : Prop :=
  σ.operational p = true ∧ 0 < cfg.voqDepth ∧ σ.voqs p = [] ∧ σ.now < σ.outputBusyUntil p

instance (cfg : CrossbarConfig P) (σ : Crossbar P) (p : Nat) : Decidable (σ.Waits cfg p) :=
  inferInstanceAs (Decidable (_ ∧ _ ∧ _ = [] ∧ _))

/-- A packet that will be the first one queued at an output comes in while no arbitration is
pending, or one that is not too late for this output. -/
def InTime (cfg : CrossbarConfig P) (σ : Crossbar P) : CrossbarAct P → Prop
  | .receive targets _ => ∀ p ∈ targets, σ.Waits cfg p → ∀ t ∈ σ.arbitrationEvent,
      t ≤ σ.outputBusyUntil p + max cfg.arbitrationInterval cfg.nanosecond
  | .tick _ | .sendFrom _ _ | .arbitrate | .setLink _ _ => True

instance (cfg : CrossbarConfig P) (σ : Crossbar P) : ∀ a, Decidable (InTime cfg σ a)
  | .receive targets _ => inferInstanceAs (Decidable (∀ p ∈ targets, σ.Waits cfg p →
      ∀ t ∈ σ.arbitrationEvent, _ ≤ _))
  | .tick _ | .sendFrom _ _ | .arbitrate | .setLink _ _ => .isTrue trivial

/-! ## What is queued -/

/-- A packet at each of `targets`: where nothing was queued, something is now if the output is
busy. -/
structure Enqueued (cfg : CrossbarConfig P) (targets : List Nat) (σ τ : Crossbar P) : Prop where
  ports : ∀ q ∈ targets, q < cfg.nPorts
  now : τ.now = σ.now
  arbitrationEvent : τ.arbitrationEvent = σ.arbitrationEvent
  operational : τ.operational = σ.operational
  frame : ∀ q, q ∉ targets →
    τ.voqs q = σ.voqs q ∧ τ.outputBusyUntil q = σ.outputBusyUntil q
  busy_le : ∀ q, σ.outputBusyUntil q ≤ τ.outputBusyUntil q
  busy_of_waits : ∀ q, σ.Waits cfg q → τ.outputBusyUntil q = σ.outputBusyUntil q
  nonempty_iff : ∀ q, τ.voqs q ≠ [] ↔ σ.voqs q ≠ [] ∨ q ∈ targets ∧ σ.Waits cfg q

theorem enqueued_nil (σ : Crossbar P) : Enqueued cfg [] σ σ := by
  constructor <;> simp

variable {targets : List Nat} {p : Nat}

theorem Enqueued.waits_iff {σ τ : Crossbar P} (h : Enqueued cfg targets σ τ) {q : Nat}
    (hq : q ∉ targets) : τ.Waits cfg q ↔ σ.Waits cfg q := by
  obtain ⟨hvoq, hbusy⟩ := h.frame q hq
  simp only [Waits, h.now, h.operational, hvoq, hbusy]

theorem Enqueued.cons {rest : List Nat} {σ σ₁ τ : Crossbar P} (hp : p ∉ rest)
    (h₁ : Enqueued cfg [p] σ σ₁) (h₂ : Enqueued cfg rest σ₁ τ) : Enqueued cfg (p :: rest) σ τ where
  ports q hq := by
    rcases List.mem_cons.mp hq with rfl | hq
    · exact h₁.ports q (List.mem_singleton_self q)
    · exact h₂.ports q hq
  now := h₂.now.trans h₁.now
  arbitrationEvent := h₂.arbitrationEvent.trans h₁.arbitrationEvent
  operational := h₂.operational.trans h₁.operational
  frame q hq := by
    obtain ⟨hqp, hqr⟩ : q ≠ p ∧ q ∉ rest := by simpa using hq
    obtain ⟨hv₁, hb₁⟩ := h₁.frame q (by simpa using hqp)
    obtain ⟨hv₂, hb₂⟩ := h₂.frame q hqr
    exact ⟨hv₂.trans hv₁, hb₂.trans hb₁⟩
  busy_le q := (h₁.busy_le q).trans (h₂.busy_le q)
  busy_of_waits q hw := by
    by_cases hq : q = p
    · subst hq
      exact (h₂.frame q hp).2.trans (h₁.busy_of_waits q hw)
    · have hw₁ : σ₁.Waits cfg q := (h₁.waits_iff (by simpa using hq)).mpr hw
      exact (h₂.busy_of_waits q hw₁).trans (h₁.busy_of_waits q hw)
  nonempty_iff q := by
    rw [h₂.nonempty_iff, h₁.nonempty_iff]
    by_cases hq : q = p
    · subst hq
      simp [hp]
    · rw [h₁.waits_iff (by simpa using hq)]
      simp [hq]

theorem busy_le_forwardPacket (cfg : CrossbarConfig P) (σ : Crossbar P) (packet : P) (p q : Nat) :
    σ.outputBusyUntil q ≤ (σ.forwardPacket cfg packet p).outputBusyUntil q := by
  unfold forwardPacket
  split
  · exact le_rfl
  · split
    · exact le_rfl
    · by_cases hq : q = p
      · subst hq
        simp only [update_self]
        omega
      · simp [update_of_ne hq]

@[simp] theorem forwardPacket_now (cfg : CrossbarConfig P) (σ : Crossbar P) (packet : P) (p : Nat) :
    (σ.forwardPacket cfg packet p).now = σ.now := by
  unfold forwardPacket
  split_ifs <;> rfl

@[simp] theorem forwardPacket_voqs (cfg : CrossbarConfig P) (σ : Crossbar P) (packet : P)
    (p : Nat) : (σ.forwardPacket cfg packet p).voqs = σ.voqs := by
  unfold forwardPacket
  split_ifs <;> rfl

@[simp] theorem forwardPacket_arbitrationEvent (cfg : CrossbarConfig P) (σ : Crossbar P)
    (packet : P) (p : Nat) :
    (σ.forwardPacket cfg packet p).arbitrationEvent = σ.arbitrationEvent := by
  unfold forwardPacket
  split_ifs <;> rfl

@[simp] theorem forwardPacket_operational (cfg : CrossbarConfig P) (σ : Crossbar P) (packet : P)
    (p : Nat) : (σ.forwardPacket cfg packet p).operational = σ.operational := by
  unfold forwardPacket
  split_ifs <;> rfl

theorem forwardPacket_busy_of_ne (cfg : CrossbarConfig P) (σ : Crossbar P) (packet : P) {q : Nat}
    (hq : q ≠ p) : (σ.forwardPacket cfg packet p).outputBusyUntil q = σ.outputBusyUntil q := by
  unfold forwardPacket
  split_ifs
  · rfl
  · rfl
  · exact update_of_ne hq _ _

theorem enqueued_of_drop {σ : Crossbar P} (log : List (CrossbarObs P)) (hp : p < cfg.nPorts)
    (h : ¬ σ.Waits cfg p) : Enqueued cfg [p] σ { σ with log := log } := by
  constructor <;> simp [hp]
  exact fun hw => absurd hw h

theorem enqueueToVoq_enqueued {entry : VoqEntry P} {σ τ : Crossbar P}
    (h : σ.enqueueToVoq cfg p entry = .ok τ) : Enqueued cfg [p] σ τ := by
  unfold enqueueToVoq at h
  split_ifs at h with h1 h2 h3 h4
  · -- the link is down
    cases h
    apply enqueued_of_drop _ (by omega)
    intro hw
    simp [hw.1] at h2
  -- the queue is full
  · cases h
    apply enqueued_of_drop _ (by omega)
    intro hw
    have hempty : σ.voqs p = [] := hw.2.2.1
    have hdepth : 0 < cfg.voqDepth := hw.2.1
    rw [hempty, List.length_nil] at h3
    omega
  -- the output is free
  · cases h
    have hno : ∀ q, q = p → ¬ σ.Waits cfg q := by
      rintro q rfl hw
      have hbusy : σ.now < σ.outputBusyUntil q := hw.2.2.2
      omega
    constructor
    · simpa using h1
    · simp
    · simp
    · simp
    · intro q hq
      exact ⟨by simp, forwardPacket_busy_of_ne _ _ _ (by simpa using hq)⟩
    · exact busy_le_forwardPacket cfg σ entry.packet p
    · intro q hw
      exact forwardPacket_busy_of_ne _ _ _ (fun hq => hno q hq hw)
    · intro q
      have := hno q
      simp only [forwardPacket_voqs, List.mem_singleton]
      tauto
  -- the packet is queued
  · cases h
    constructor
    · simpa using h1
    · rfl
    · rfl
    · rfl
    · intro q hq
      exact ⟨update_of_ne (by simpa using hq) _ _, rfl⟩
    · exact fun q => le_rfl
    · exact fun q _ => rfl
    · intro q
      by_cases hq : q = p
      · subst hq
        have hup : σ.operational q = true := by simpa using h2
        simp only [update_self, Waits, List.mem_singleton]
        simp only [List.isEmpty_iff] at h4
        have hlen : 0 < cfg.voqDepth := by omega
        simp [hup, hlen]
        by_cases hv : σ.voqs q = []
        · right
          exact ⟨hv, by simpa [hv] using h4⟩
        · left
          exact hv
      · simp [hq]

theorem enqueueAll_enqueued {entry : VoqEntry P} (hnd : targets.Nodup) {σ τ : Crossbar P}
    (h : enqueueAll cfg entry targets σ = .ok τ) : Enqueued cfg targets σ τ := by
  induction targets generalizing σ with
  | nil =>
      cases h
      exact enqueued_nil _
  | cons p rest ih =>
      obtain ⟨hp, hrest⟩ := List.nodup_cons.mp hnd
      obtain ⟨σ₁, h₁, h₂⟩ := bind_eq_ok.mp h
      exact (enqueueToVoq_enqueued h₁).cons hp (ih hrest h₂)

/-! ## The next arbitration -/

theorem conserving_rearm (σ : Crossbar P) : (σ.rearm cfg).Conserving cfg := by
  intro p hp hv
  have hv' : σ.voqs p ≠ [] := by
    unfold rearm at hv
    split at hv <;> exact hv
  have hmem : σ.outputBusyUntil p ∈ (σ.queuedPorts cfg).map σ.outputBusyUntil := by
    apply List.mem_map_of_mem
    simp only [queuedPorts, List.mem_filter, List.mem_range]
    exact ⟨hp, by simpa using hv'⟩
  unfold rearm
  split
  · next hnone =>
    rw [List.min?_eq_none_iff] at hnone
    simp [hnone] at hmem
  · next earliestFree hsome =>
    have hle : earliestFree ≤ σ.outputBusyUntil p := (List.min?_eq_some_iff.mp hsome).2 _ hmem
    refine ⟨_, rfl, ?_⟩
    show (if earliestFree ≤ σ.now then σ.now + cfg.nanosecond else earliestFree) ≤
      max σ.now (σ.outputBusyUntil p) + max cfg.arbitrationInterval cfg.nanosecond
    split <;> omega

theorem Conserving.mono {σ τ : Crossbar P} (h : σ.Conserving cfg)
    (hevent : τ.arbitrationEvent = σ.arbitrationEvent) (hnow : σ.now ≤ τ.now)
    (hbusy : ∀ p, σ.outputBusyUntil p ≤ τ.outputBusyUntil p)
    (hvoqs : ∀ p, τ.voqs p ≠ [] → σ.voqs p ≠ []) : τ.Conserving cfg := by
  intro p hp hv
  obtain ⟨t, ht, hle⟩ := h p hp (hvoqs p hv)
  have := hbusy p
  exact ⟨t, hevent.trans ht, by omega⟩

theorem Enqueued.conserving_iff {σ τ : Crossbar P} {t : Nat} (h : Enqueued cfg targets σ τ)
    (hσ : σ.Conserving cfg) (ht : σ.arbitrationEvent = some t) :
    τ.Conserving cfg ↔ ∀ p ∈ targets, σ.Waits cfg p →
      t ≤ σ.outputBusyUntil p + max cfg.arbitrationInterval cfg.nanosecond := by
  constructor
  · intro hτ p hp hw
    obtain ⟨u, hu, hle⟩ := hτ p (h.ports p hp) ((h.nonempty_iff p).mpr (.inr ⟨hp, hw⟩))
    obtain rfl : t = u := Option.some.inj (ht.symm.trans (h.arbitrationEvent.symm.trans hu))
    have hlate : σ.now < σ.outputBusyUntil p := hw.2.2.2
    rw [h.now, h.busy_of_waits p hw] at hle
    omega
  · intro hin p hports hv
    refine ⟨t, h.arbitrationEvent.trans ht, ?_⟩
    rw [h.now]
    have hbusy := h.busy_le p
    rcases (h.nonempty_iff p).mp hv with hold | ⟨hp, hw⟩
    · obtain ⟨u, hu, hle⟩ := hσ p hports hold
      obtain rfl : t = u := Option.some.inj (ht.symm.trans hu)
      omega
    · have := hin p hp hw
      omega

theorem Enqueued.conserving_schedule {σ τ : Crossbar P} (h : Enqueued cfg targets σ τ)
    (hσ : σ.Conserving cfg) (hnone : σ.arbitrationEvent = none) :
    (τ.scheduleArbitration cfg).Conserving cfg := by
  intro p _ _
  refine ⟨_, rfl, ?_⟩
  show τ.now + cfg.arbitrationInterval ≤
    max τ.now (τ.outputBusyUntil p) + max cfg.arbitrationInterval cfg.nanosecond
  omega

/-- **When a packet that comes in leaves the outputs served in time.** -/
theorem conserving_receive_iff (hnd : targets.Nodup) {entry : VoqEntry P} {σ τ : Crossbar P}
    (hσ : σ.Conserving cfg) (h : σ.receiveFromPort cfg targets entry = .ok τ) :
    τ.Conserving cfg ↔ InTime cfg σ (.receive targets entry) := by
  unfold receiveFromPort at h
  obtain ⟨σ₁, h₁, h₂⟩ := bind_eq_ok.mp h
  have henq := enqueueAll_enqueued hnd h₁
  cases h₂
  cases hev : σ.arbitrationEvent with
  | none =>
      have hnone : σ₁.arbitrationEvent.isNone = true := by
        rw [henq.arbitrationEvent, hev]
        rfl
      rw [if_pos hnone]
      apply iff_of_true (henq.conserving_schedule hσ hev)
      intro p _ _ t ht
      simp [hev] at ht
  | some t =>
      have hsome : ¬ σ₁.arbitrationEvent.isNone = true := by
        rw [henq.arbitrationEvent, hev]
        simp
      rw [if_neg hsome, henq.conserving_iff hσ hev]
      simp [InTime, hev]

/-- Every event but a packet's arrival keeps the outputs served in time; that one does iff it is
in time. -/
theorem conserving_step_iff {σ τ : Crossbar P} {a : CrossbarAct P} (hσ : σ.Conserving cfg)
    (hen : σ.Enabled a) (h : σ.handle cfg a = .ok τ) :
    τ.Conserving cfg ↔ InTime cfg σ a := by
  cases a with
  | receive targets entry => exact conserving_receive_iff hen hσ h
  | tick ticks =>
      cases h
      refine iff_of_true (hσ.mono rfl ?_ (fun _ => le_rfl) (fun _ hv => hv)) trivial
      exact Nat.le_add_right _ _
  | sendFrom outPort packet =>
      cases h
      apply iff_of_true _ trivial
      apply hσ.mono (forwardPacket_arbitrationEvent ..) (forwardPacket_now ..).ge
      · exact busy_le_forwardPacket cfg σ packet outPort
      · intro p hv
        rwa [forwardPacket_voqs] at hv
  | arbitrate =>
      cases h
      exact iff_of_true (conserving_rearm _) trivial
  | setLink port up =>
      cases h
      exact iff_of_true (hσ.mono rfl le_rfl (fun _ => le_rfl) (fun _ hv => hv)) trivial

end Crossbar

/-- As long as every packet that will be the first one queued at an output comes in time, every
output with packets is served in time. -/
theorem crossbar_conserving {P : Type} (cfg : CrossbarConfig P) :
    ((crossbarMachine cfg).restrict (Crossbar.InTime cfg)).Invariant
      (Crossbar.Conserving cfg) := by
  apply Machine.Inductive.invariant
  constructor
  · rintro σ rfl p _ hv
    exact absurd rfl hv
  · intro σ a τ hσ hen h
    exact (Crossbar.conserving_step_iff hσ hen.1 h).mpr hen.2

/-- **The crossbar is work-conserving** as long as no packet queues behind a busy output while
an arbitration is pending that comes too late for this output; the first packet that does ends
it. -/
theorem crossbar_conserving_iff {P : Type} (cfg : CrossbarConfig P) {σ : Crossbar P}
    (h : ((crossbarMachine cfg).restrict (Crossbar.InTime cfg)).Reachable σ) :
    σ.Conserving cfg ∧ ∀ a τ, (crossbarMachine cfg).enabled σ a →
      (crossbarMachine cfg).exec σ a = .ok τ → (τ.Conserving cfg ↔ Crossbar.InTime cfg σ a) := by
  have hσ := crossbar_conserving cfg σ h
  exact ⟨hσ, fun a τ hen hex => Crossbar.conserving_step_iff hσ hen hex⟩

/-! ## Two outputs, one of them slow -/

/-- A packet is its size, and every link takes a tick for one unit of it. -/
def threePorts : CrossbarConfig Nat where
  nPorts := 3
  serializationTime _ size := size

/-- Two large packets for output 1 and, once the arbitration waits for it, two small ones for
output 2. -/
def slowOutputFirst : List (CrossbarAct Nat) :=
  [.receive [1] { packet := 10000 }, .receive [1] { packet := 10000 }, .tick 100, .arbitrate,
    .receive [2] { packet := 10 }, .receive [2] { packet := 10 }]

/-- The second small packet waits for output 1. -/
theorem not_conserving :
    ¬ ∀ cfg : CrossbarConfig Nat, (crossbarMachine cfg).Invariant (Crossbar.Conserving cfg) := by
  intro h
  have hrun : ((crossbarMachine threePorts).runs {} slowOutputFirst).map
      (fun σ => ((σ.voqs 2).length, σ.arbitrationEvent, σ.now, σ.outputBusyUntil 2)) =
      some (1, some 10000, 100, 110) := by decide +kernel
  obtain ⟨σ, hσ, hf⟩ := Machine.Reachable.exists_of_runs rfl hrun
  simp only [Prod.mk.injEq] at hf
  obtain ⟨hlen, hevent, hnow, hbusy⟩ := hf
  have hv : σ.voqs 2 ≠ [] := by
    intro hnil
    simp [hnil] at hlen
  obtain ⟨t, ht, hle⟩ := h threePorts σ hσ 2 (by decide) hv
  obtain rfl : 10000 = t := Option.some.inj (hevent.symm.trans ht)
  rw [hnow, hbusy] at hle
  exact absurd hle (by decide)

/-- Two packets for one output, and the arbitration that serves the second. -/
theorem crossbar_conserving_iff_oneOutput :
    ∃ σ, (crossbarMachine threePorts).Reachable σ ∧ (σ.voqs 1).length = 1 ∧
      σ.Conserving threePorts := by
  have hrun : (((crossbarMachine threePorts).restrict (Crossbar.InTime threePorts)).runs {}
      [.receive [1] { packet := 10000 }, .receive [1] { packet := 10000 }]).map
      (fun σ => (σ.voqs 1).length) = some 1 := by decide +kernel
  obtain ⟨σ, hσ, hlen⟩ := Machine.Reachable.exists_of_runs rfl hrun
  exact ⟨σ, hσ.of_restrict, hlen, (crossbar_conserving_iff threePorts hσ).1⟩

end ProtoBridge.Switch
