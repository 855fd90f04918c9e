import ProtoBridge.Switch.Crossbar

/-!
# What an output forwards

An output has two ways out, the direct one of a packet that finds it idle and the one over its queue. A
packet goes directly only where nothing is queued, so both together forward what was admitted, in this
order.
-/

namespace ProtoBridge.Switch

open Lib

variable {P : Type}

/-- One output: its link, its queue, and the packets that left with the times they began to. -/
structure Lane (P : Type) where
  up : Bool
  queue : List P
  sent : List (P × Nat)
  busyUntil : Nat

/-- An output of a switch. -/
def Crossbar.lane (σ : Crossbar P) (p : Nat) : Lane P where
  up := σ.operational p
  queue := (σ.voqs p).map VoqEntry.packet
  sent := σ.log.filterMap fun
    | .forwarded outPort packet startTime => if outPort = p then some (packet, startTime) else none
    | .dropped _ _ => none
  busyUntil := σ.outputBusyUntil p

/-- The output has sent what it admitted, except what it has queued, and one packet after the other. -/
structure Lane.Orderly (cfg : CrossbarConfig P) (p : Nat) (admitted : List P) (x : Lane P) : Prop where
  up : x.up = true
  inOrder : x.sent.map Prod.fst ++ x.queue = admitted
  depth : x.queue.length ≤ cfg.voqDepth
  apart : x.sent.Pairwise fun a b => a.2 + cfg.serializationTime p a.1 ≤ b.2
  free : ∀ a ∈ x.sent, a.2 + cfg.serializationTime p a.1 ≤ x.busyUntil

namespace Crossbar

variable {cfg : CrossbarConfig P} {p q : Nat} {σ τ : Crossbar P} {admitted : List P} {packet : P}
  {entry : VoqEntry P}

/-- The output takes a packet that is routed to it. -/
def Admits (cfg : CrossbarConfig P) (σ : Crossbar P) (p : Nat) : Prop :=
  σ.operational p = true ∧ (σ.voqs p).length < cfg.voqDepth

instance : Decidable (σ.Admits cfg p) := inferInstanceAs (Decidable (_ ∧ _))

theorem lane_forwardPacket_of_ne (h : q ≠ p) : (σ.forwardPacket cfg packet q).lane p = σ.lane p := by
  unfold forwardPacket
  split_ifs
  · rfl
  · simp [lane]
  · simp [lane, h, Function.update_of_ne h.symm]

theorem orderly_forwardPacket (hp : p < cfg.nPorts) (h : (σ.lane p).Orderly cfg p admitted)
    {voqs : Nat → List (VoqEntry P)} {admitted' : List P} (hdepth : (voqs p).length ≤ cfg.voqDepth)
    (hqueue : (σ.lane p).sent.map Prod.fst ++ packet :: (voqs p).map VoqEntry.packet = admitted') :
    ((forwardPacket cfg { σ with voqs } packet p).lane p).Orderly cfg p admitted' := by
  have hlane : (forwardPacket cfg { σ with voqs } packet p).lane p =
      { up := true
        queue := (voqs p).map VoqEntry.packet
        sent := (σ.lane p).sent ++ [(packet, max σ.now (σ.outputBusyUntil p))]
        busyUntil := max σ.now (σ.outputBusyUntil p) + cfg.serializationTime p packet } := by
    have hup : σ.operational p = true := h.up
    simp [forwardPacket, Nat.not_le.mpr hp, hup, lane]
  have hfree : ∀ a ∈ (σ.lane p).sent,
      a.2 + cfg.serializationTime p a.1 ≤ max σ.now (σ.outputBusyUntil p) :=
    fun a ha => (h.free a ha).trans (le_max_right _ _)
  rw [hlane]
  refine ⟨rfl, by simpa using hqueue, by simpa using hdepth, ?_, ?_⟩
  · exact List.pairwise_append.mpr ⟨h.apart, List.pairwise_singleton _ _, by simpa using hfree⟩
  · intro a ha
    rcases List.mem_append.mp ha with ha | ha
    · exact (hfree a ha).trans (Nat.le_add_right _ _)
    · rw [List.mem_singleton.mp ha]

theorem orderly_enqueueToVoq (h : (σ.lane p).Orderly cfg p admitted)
    (hex : σ.enqueueToVoq cfg q entry = .ok τ) :
    (τ.lane p).Orderly cfg p (admitted ++ if q = p ∧ σ.Admits cfg p then [entry.packet] else []) := by
  have hup : σ.operational p = true := h.up
  unfold enqueueToVoq at hex
  by_cases hq : q = p
  · subst hq
    split_ifs at hex with hport hdown hfull hidle <;> cases hex
    · simp [hup] at hdown
    · rw [if_neg fun hin => Nat.not_le.mpr hin.2.2 hfull, List.append_nil]
      simpa [lane] using h
    · -- nothing is queued, so everything admitted before has left
      rw [if_pos ⟨rfl, hup, Nat.not_le.mp hfull⟩]
      have hempty : σ.voqs q = [] := List.isEmpty_iff.mp hidle.1
      refine orderly_forwardPacket (Nat.not_le.mp hport) h (Nat.le_of_not_le hfull) ?_
      rw [← h.inOrder]
      simp [lane, hempty]
    · rw [if_pos ⟨rfl, hup, Nat.not_le.mp hfull⟩]
      refine ⟨h.up, ?_, ?_, h.apart, h.free⟩
      · rw [← h.inOrder]
        simp [lane]
      · simpa [lane] using Nat.succ_le_of_lt (Nat.not_le.mp hfull)
  · rw [if_neg fun hin => hq hin.1, List.append_nil]
    suffices hlane : τ.lane p = σ.lane p by rwa [hlane]
    split_ifs at hex <;> cases hex
    · simp [lane]
    · simp [lane]
    · exact lane_forwardPacket_of_ne hq
    · simp [lane, Function.update_of_ne (Ne.symm hq)]

theorem orderly_enqueueAll {targets : List Nat} (hnodup : targets.Nodup)
    (h : (σ.lane p).Orderly cfg p admitted) (hex : enqueueAll cfg entry targets σ = .ok τ) :
    (τ.lane p).Orderly cfg p
      (admitted ++ if p ∈ targets ∧ σ.Admits cfg p then [entry.packet] else []) := by
  induction targets generalizing σ admitted with
  | nil =>
      cases hex
      simpa using h
  | cons q rest ih =>
      obtain ⟨hq, hrest⟩ := List.nodup_cons.mp hnodup
      obtain ⟨σ₁, h₁, h₂⟩ := bind_eq_ok.mp hex
      have hnext := ih hrest (orderly_enqueueToVoq h h₁) h₂
      have henq := enqueueToVoq_enqueued h₁
      by_cases hqp : q = p
      · subst hqp
        simpa [hq] using hnext
      · have hsame : σ₁.Admits cfg p ↔ σ.Admits cfg p := by
          rw [Admits, Admits, henq.operational, (henq.frame p (by simpa using Ne.symm hqp)).1]
        simpa [hqp, hsame, Ne.symm hqp] using hnext

theorem orderly_drainPort (hp : p < cfg.nPorts) (h : (σ.lane p).Orderly cfg p admitted) :
    ((σ.drainPort cfg q).lane p).Orderly cfg p admitted := by
  unfold drainPort
  split
  · exact h
  · rename_i entry rest hvoq
    by_cases hq : q = p
    · subst hq
      have hqueue : (σ.lane q).queue = entry.packet :: rest.map VoqEntry.packet := by simp [lane, hvoq]
      have hdepth := h.depth
      have hinOrder := h.inOrder
      rw [hqueue] at hdepth hinOrder
      refine orderly_forwardPacket hp h ?_ ?_
      · exact Nat.le_of_succ_le (by simpa using hdepth)
      · simpa using hinOrder
    · rw [lane_forwardPacket_of_ne hq]
      simpa [lane, Function.update_of_ne (Ne.symm hq)] using h

theorem orderly_arbitrate (hp : p < cfg.nPorts) (h : (σ.lane p).Orderly cfg p admitted) :
    ((σ.arbitrate cfg).lane p).Orderly cfg p admitted := by
  have hall : ((σ.selectGrants cfg).foldl (drainPort cfg) σ |>.lane p).Orderly cfg p admitted :=
    List.foldlRecOn (motive := fun τ : Crossbar P => (τ.lane p).Orderly cfg p admitted) _ _ h
      fun τ hτ q _ => orderly_drainPort hp hτ
  unfold arbitrate rearm
  split <;> exact hall

/-- No arbitration is overdue, and one is pending for what is queued. -/
structure Armed (σ : Crossbar P) (p : Nat) : Prop where
  late : ∀ t ∈ σ.arbitrationEvent, σ.now ≤ t
  armed : σ.voqs p ≠ [] → σ.arbitrationEvent.isSome = true

theorem armed_arbitrate (hp : p < cfg.nPorts) : (σ.arbitrate cfg).Armed p := by
  refine ⟨?_, fun hv => ?_⟩
  · unfold arbitrate rearm
    split
    · simp
    · simp only [Option.mem_some_iff, forall_eq']
      split <;> omega
  · obtain ⟨t, ht, -⟩ := conserving_rearm _ p hp hv
    exact Option.isSome_iff_exists.mpr ⟨t, ht⟩

end Crossbar

/-! ## Runs -/

/-- A switch beside the packets that each output has admitted. -/
structure CrossbarBook (P : Type) where
  switch : Crossbar P := {}
  admitted : Nat → List P := fun _ => []

namespace CrossbarBook

/-- What an event makes an output admit. -/
def admits (cfg : CrossbarConfig P) (σ : Crossbar P) (p : Nat) : CrossbarAct P → List P
  | .receive targets entry => if p ∈ targets ∧ σ.Admits cfg p then [entry.packet] else []
  | _ => []

/-- One event. -/
def exec (cfg : CrossbarConfig P) (b : CrossbarBook P) (a : CrossbarAct P) :
    Except CrossbarAbort (CrossbarBook P) := do
  let switch ← b.switch.handle cfg a
  .ok { switch, admitted := fun p => b.admitted p ++ admits cfg b.switch p a }

/-- Nothing is sent past the queue of an output, and its link stays up. -/
def Plain (p : Nat) : CrossbarAct P → Prop
  | .sendFrom outPort _ => outPort ≠ p
  | .setLink port _ => port ≠ p
  | _ => True

end CrossbarBook

/-- A switch that has seen no packet, with its book. -/
def crossbarBookMachine (cfg : CrossbarConfig P) :
    Machine (CrossbarBook P) (CrossbarAct P) CrossbarAbort where
  init := (· = {})
  enabled b := b.switch.Enabled
  exec := CrossbarBook.exec cfg

/-- **An output forwards what it admits, in order and once each.** Its queue keeps within its depth, no
packet begins before the one ahead of it is through, and where packets are queued an arbitration is
pending. -/
theorem outputs_inOrder (cfg : CrossbarConfig P) (p : Fin cfg.nPorts) :
    ((crossbarBookMachine cfg).restrict fun _ a => CrossbarBook.Plain p a).Invariant fun b =>
      (b.switch.lane p).Orderly cfg p (b.admitted p) ∧ b.switch.Armed p := by
  refine Machine.Inductive.invariant ⟨?_, ?_⟩
  · rintro b rfl
    exact ⟨by constructor <;> simp [Crossbar.lane], by constructor <;> simp⟩
  · rintro b a b' ⟨h, harmed⟩ ⟨hen, hplain⟩ hex
    obtain ⟨τ, hhandle, heq⟩ := bind_eq_ok.mp hex
    cases heq
    cases a with
    | tick ticks =>
        cases hhandle
        refine ⟨?_, hen, harmed.armed⟩
        show (b.switch.lane p).Orderly cfg p (b.admitted p ++ [])
        rwa [List.append_nil]
    | receive targets entry =>
        obtain ⟨σ, h₁, h₂⟩ := bind_eq_ok.mp hhandle
        have horder := Crossbar.orderly_enqueueAll hen h h₁
        have hkept := Crossbar.enqueueAll_enqueued hen h₁
        cases h₂
        refine ⟨?_, ?_, ?_⟩
        · dsimp only
          split <;> exact horder
        · have hnow := hkept.now
          have hlate := harmed.late
          split
          · simp [Crossbar.scheduleArbitration]
          · simpa [hkept.arbitrationEvent, hnow] using hlate
        · intro _
          split
          · rfl
          · rename_i hsome
            simpa [Option.isNone_iff_eq_none, Option.isSome_iff_ne_none] using hsome
    | sendFrom q packet =>
        cases hhandle
        refine ⟨?_, ?_, ?_⟩
        · simpa [CrossbarBook.admits, Crossbar.lane_forwardPacket_of_ne hplain] using h
        · simpa using harmed.late
        · simpa using harmed.armed
    | arbitrate =>
        cases hhandle
        refine ⟨?_, Crossbar.armed_arbitrate p.2⟩
        simpa [CrossbarBook.admits] using Crossbar.orderly_arbitrate p.2 h
    | setLink port up =>
        cases hhandle
        refine ⟨?_, harmed.late, harmed.armed⟩
        simpa [CrossbarBook.admits, Crossbar.lane, Function.update_of_ne (Ne.symm hplain)] using h

end ProtoBridge.Switch
