import ProtoBridge.Pcie.Credit

/-!
# Time on the links

A transmitter sends one frame or DLLP at a time, and everything it sends takes
the same latency after its last byte. Frames on one link therefore arrive in the
order they were sent: `Clock` bounds the arrivals on a link by the moment its
transmitter is free again, and `Clock.fresh` derives that the next frame arrives
after all of them, or is discarded at the horizon if one of them was.
-/

namespace ProtoBridge.Pcie

open Lib
open Function (update update_of_ne update_self)

/-- A frame on the link of `port`. `due` is its arrival, `none` when the arrival
was discarded at the horizon. -/
structure Flight where
  port : Nat
  due : Option Nat
  frame : Frame

/-- The frame an event brings over a link. -/
def EventKind.flights (due : Option Nat) : EventKind → Multiset Flight
  | .frameArrive p f _ => {⟨p, due, f⟩}
  | _ => 0

/-- The transmitter an event sets free. -/
def EventKind.ends (t : Nat) : EventKind → Multiset (Nat × Nat)
  | .busyEnd p => {(p, t)}
  | _ => 0

/-- The events that concern no transmitter. -/
def EventKind.silent : EventKind → Bool
  | .busyEnd _ => false
  | .frameArrive _ _ _ => false
  | _ => true

variable {k : EventKind} {env : Env} {s s' : Snap}

theorem EventKind.flights_silent (h : k.silent = true) (due : Option Nat) : k.flights due = 0 := by
  cases k <;> first | rfl | cases h

theorem EventKind.ends_silent (h : k.silent = true) (t : Nat) : k.ends t = 0 := by
  cases k <;> first | rfl | cases h

/-- What the calendar knows of the links. -/
structure Wires where
  now : Nat
  latency : Nat
  ports : Nat
  busy : Nat → Bool
  flights : Multiset Flight
  ends : Multiset (Nat × Nat)

namespace Fabric

/-- The links of a fabric. -/
def wires (σ : Fabric) : Wires where
  now := σ.now
  latency := σ.config.linkLatency
  ports := σ.numPorts
  busy p := (σ.ports p).busy
  flights := (σ.events.map fun e => e.kind.flights (some e.time)).sum +
    (σ.dropped.map (EventKind.flights none)).sum
  ends := (σ.events.map fun e => e.kind.ends e.time).sum

variable {σ : Fabric} {i p : Nat} {k : EventKind} {e : Event}

variable {g : Port → Port}

theorem wires_modPort (h : (g (σ.ports p)).busy = (σ.ports p).busy)
    : (σ.modPort p g).wires = σ.wires := by
  have hbusy := funext (modPort_field Port.busy h)
  simp only [wires, hbusy]
  rfl

theorem wires_modPort_busy {b : Bool} (h : (g (σ.ports p)).busy = b) :
    (σ.modPort p g).wires = { σ.wires with busy := update σ.wires.busy p b } := by
  have hbusy : (fun q => ((σ.modPort p g).ports q).busy) =
      update (fun q => (σ.ports q).busy) p b := by
    funext q
    by_cases hq : q = p
    · subst hq
      rw [modPort_ports, update_self, update_self, h]
    · rw [modPort_ports, update_of_ne hq, update_of_ne hq]
  simp only [wires, hbusy]
  rfl

/-- The arrival of a frame scheduled after `delay`, if the horizon allows it. -/
def dueIn (σ : Fabric) (delay : Nat) : Option Nat :=
  if delay < timeMax - σ.now then some (σ.now + delay) else none

theorem wires_schedule_silent {d : Nat} (h : k.silent = true) :
    (σ.schedule d k).wires = σ.wires := by
  simp only [wires, schedule]
  by_cases hd : d < timeMax - σ.now
  · simp [hd, EventKind.flights_silent h, EventKind.ends_silent h]
  · simp [hd, EventKind.flights_silent h]

theorem wires_schedule_frame (σ : Fabric) (d p seq : Nat) (f : Frame) :
    (σ.schedule d (.frameArrive p f seq)).wires =
      { σ.wires with flights := σ.wires.flights + {⟨p, σ.dueIn d, f⟩} } := by
  simp only [wires, schedule, dueIn]
  by_cases hd : d < timeMax - σ.now
  · simp only [hd, ↓reduceIte, List.map_append, List.map_cons, List.map_nil, List.sum_append,
      List.sum_cons, List.sum_nil, add_zero, EventKind.flights, EventKind.ends]
    rw [add_right_comm]
  · simp only [hd, ↓reduceIte, List.map_append, List.map_cons, List.map_nil, List.sum_append,
      List.sum_cons, List.sum_nil, add_zero, EventKind.flights]
    rw [add_assoc]

theorem wires_schedule_busy (σ : Fabric) (d p : Nat) :
    (σ.schedule d (.busyEnd p)).wires =
      { σ.wires with ends := σ.wires.ends + if d < timeMax - σ.now then {(p, σ.now + d)} else 0 } := by
  simp only [wires, schedule]
  by_cases hd : d < timeMax - σ.now
  · simp [hd, EventKind.flights, EventKind.ends]
  · simp [hd, EventKind.flights]

theorem wires_cancel {is : EventKind → Bool} (h : ∀ k, is k = true → k.silent = true)
    : (σ.cancel is).wires = σ.wires := by
  have hf := sum_filter_of_zero (fun e : Event => e.kind.flights (some e.time))
    (fun e => !is e.kind) (l := σ.events)
    (fun e _ he => EventKind.flights_silent (h e.kind (by simpa using he)) _)
  have he := sum_filter_of_zero (fun e : Event => e.kind.ends e.time)
    (fun e => !is e.kind) (l := σ.events)
    (fun e _ he => EventKind.ends_silent (h e.kind (by simpa using he)) _)
  simp only [wires, cancel, hf, he]

theorem flights_popEvent (h : σ.Due i e) :
    (σ.popEvent i e).wires.flights + e.kind.flights (some e.time) = σ.wires.flights := by
  have hsum := sum_eraseIdx_add (fun e : Event => e.kind.flights (some e.time)) h.1
  simp only [wires, popEvent]
  rw [add_right_comm, hsum]

theorem ends_popEvent (h : σ.Due i e) :
    (σ.popEvent i e).wires.ends + e.kind.ends e.time = σ.wires.ends :=
  sum_eraseIdx_add (fun e : Event => e.kind.ends e.time) h.1

theorem wires_popEvent_silent (h : σ.Due i e) (hk : e.kind.silent = true)
    : (σ.popEvent i e).wires = { σ.wires with now := e.time } := by
  have hf := flights_popEvent h
  have he := ends_popEvent h
  rw [EventKind.flights_silent hk, add_zero] at hf
  rw [EventKind.ends_silent hk, add_zero] at he
  show (⟨e.time, _, _, _, (σ.popEvent i e).wires.flights, (σ.popEvent i e).wires.ends⟩ : Wires) = _
  rw [hf, he]
  rfl

/-! ## Operations no link notices -/

@[simp] theorem wires_returnCredit (σ : Fabric) (f : Frame) :
    (σ.returnCredit f).1.wires = σ.wires :=
  returnCredit_keeps wires (fun _ _ _ => wires_modPort rfl) (fun _ _ _ => wires_schedule_silent rfl)
    σ f

@[simp] theorem wires_flushReturn (σ : Fabric) (p : Nat) : (σ.flushReturn p).wires = σ.wires := by
  simp only [flushReturn]
  rw [wires_modPort (by rfl), wires_modPort rfl]

@[simp] theorem wires_pushAck (σ : Fabric) (p : Nat) : (σ.pushAck p).wires = σ.wires := by
  simp only [pushAck]
  rw [wires_modPort (by rfl), wires_modPort rfl]

@[simp] theorem wires_countTlp (σ : Fabric) (p seq : Nat) : (σ.countTlp p seq).wires = σ.wires :=
  wires_modPort rfl

@[simp] theorem wires_takeAck (σ : Fabric) (c : Control) : (σ.takeAck c).wires = σ.wires :=
  wires_modPort rfl

@[simp] theorem wires_takeCredit (σ : Fabric) (c : Control) : (σ.takeCredit c).wires = σ.wires :=
  wires_modPort rfl

@[simp] theorem wires_enqueue (σ : Fabric) (p : Nat) (f : Frame) :
    (σ.enqueue p f).wires = σ.wires :=
  wires_modPort rfl

theorem silent_of_isAck (h : isAck p k = true) : k.silent = true := by
  cases k <;> first | rfl | cases h

theorem silent_of_isWake (h : isWake p k = true) : k.silent = true := by
  cases k <;> first | rfl | cases h

@[simp] theorem wires_armWake (σ : Fabric) (p : Nat) : (σ.armWake p).wires = σ.wires := by
  unfold armWake
  split
  · rfl
  · rw [wires_schedule_silent rfl, wires_cancel fun _ => silent_of_isWake]

@[simp] theorem wires_finish (σ : Fabric) (id : Nat) : (σ.finish id).wires = σ.wires := by
  unfold finish
  cases σ.transfers id with
  | none => rfl
  | some op =>
      dsimp only
      split
      · rfl
      · split
        · rw [wires_schedule_silent rfl]
          rfl
        · rfl

end Fabric

/-! ## Arrivals follow the order of transmission -/

/-- Arrival `a` comes before arrival `b`; a discarded arrival comes last. -/
def Before : Option Nat → Option Nat → Prop
  | some a, some b => a < b
  | none, some _ => False
  | _, none => True

namespace Wires

/-- Nothing on the link of `p` arrives later than its latency after `b`, and
frames were discarded only if that lies past the horizon. -/
def Bounded (w : Wires) (p b : Nat) : Prop :=
  ∀ x ∈ w.flights, x.port = p →
    match x.due with
    | some t => t ≤ b + w.latency
    | none => timeMax ≤ b + w.latency

/-- Every transmitter is free, or knows when it will be, or never will. -/
structure Clock (w : Wires) : Prop where
  inside : ∀ p, w.busy p = true → p < w.ports
  busy : ∀ x ∈ w.ends, w.busy x.1 = true
  single : (w.ends.map Prod.fst).Nodup
  free : ∀ p, w.busy p = false → w.Bounded p w.now
  ends : ∀ x ∈ w.ends, w.Bounded x.1 x.2

variable {w : Wires} {b p : Nat}

theorem Bounded.mono {b' : Nat} (h : w.Bounded p b) (hle : b ≤ b') : w.Bounded p b' := by
  intro x hx hp
  have hold := h x hx hp
  split at hold <;> omega

namespace Clock

variable {w : Wires}

variable {t : Nat}

theorem tick (h : w.Clock) (hle : w.now ≤ t) : Clock { w with now := t } where
  inside := h.inside
  busy := h.busy
  single := h.single
  free p hp := (h.free p hp).mono hle
  ends := h.ends

theorem land (h : w.Clock) {m : Multiset Flight} (hm : m ≤ w.flights) :
    Clock { w with flights := m } where
  inside := h.inside
  busy := h.busy
  single := h.single
  free p hp x hx := h.free p hp x (Multiset.mem_of_le hm hx)
  ends y hy x hx := h.ends y hy x (Multiset.mem_of_le hm hx)

variable {m : Multiset (Nat × Nat)}

theorem done (h : w.Clock) (hm : w.ends = m + {(p, t)}) (hle : w.now ≤ t) :
    Clock { w with now := t, ends := m, busy := update w.busy p false } := by
  have hsub : ∀ x ∈ m, x ∈ w.ends := by
    intro x hx
    rw [hm]
    exact Multiset.mem_add.mpr (.inl hx)
  have hnodup := h.single
  rw [hm, Multiset.map_add, Multiset.map_singleton, Multiset.nodup_add] at hnodup
  have hother : ∀ x ∈ m, x.1 ≠ p := by
    intro x hx heq
    exact Multiset.disjoint_left.mp hnodup.2.2 (Multiset.mem_map_of_mem _ hx)
      (Multiset.mem_singleton.mpr heq)
  refine ⟨?_, ?_, hnodup.1, ?_, fun x hx => h.ends x (hsub x hx)⟩
  · intro q hq
    dsimp only at hq
    by_cases hqp : q = p
    · rw [hqp, update_self] at hq
      cases hq
    · rw [update_of_ne hqp] at hq
      exact h.inside q hq
  · intro x hx
    dsimp only
    rw [update_of_ne (hother x hx)]
    exact h.busy x (hsub x hx)
  · intro q hq
    dsimp only at hq
    by_cases hqp : q = p
    · subst hqp
      have hend : (q, t) ∈ w.ends := by
        rw [hm]
        exact Multiset.mem_add.mpr (.inr (Multiset.mem_singleton_self _))
      exact h.ends _ hend
    · rw [update_of_ne hqp] at hq
      exact Bounded.mono (h.free q hq) hle

/-- A free transmitter starts; `m` is the end of the transmission or nothing. -/
theorem start (h : w.Clock) (hin : p < w.ports) (hp : w.busy p = false) (hm : m = {(p, t)} ∨ m = 0)
    (hle : w.now ≤ t) :
    Clock { w with ends := w.ends + m, busy := update w.busy p true } := by
  have hidle : ∀ x ∈ w.ends, x.1 ≠ p := by
    intro x hx heq
    have := h.busy x hx
    rw [heq, hp] at this
    cases this
  have hmem : ∀ x ∈ m, x = (p, t) := by
    intro x hx
    rcases hm with rfl | rfl
    · exact Multiset.mem_singleton.mp hx
    · exact absurd hx (Multiset.notMem_zero x)
  refine ⟨?_, ?_, ?_, ?_, ?_⟩
  · intro q hq
    dsimp only at hq
    by_cases hqp : q = p
    · exact hqp ▸ hin
    · rw [update_of_ne hqp] at hq
      exact h.inside q hq
  · intro x hx
    dsimp only
    rcases Multiset.mem_add.mp hx with hx | hx
    · rw [update_of_ne (hidle x hx)]
      exact h.busy x hx
    · rw [hmem x hx, update_self]
  -- single: an idle transmitter has no end pending
  · dsimp only
    rw [Multiset.map_add, Multiset.nodup_add]
    refine ⟨h.single, ?_, ?_⟩
    · rcases hm with rfl | rfl
      · exact Multiset.nodup_singleton _
      · exact Multiset.nodup_zero
    · rw [Multiset.disjoint_left]
      intro q hq hq'
      obtain ⟨x, hx, rfl⟩ := Multiset.mem_map.mp hq
      obtain ⟨y, hy, hxy⟩ := Multiset.mem_map.mp hq'
      rw [hmem y hy] at hxy
      exact hidle x hx hxy.symm
  -- free: the other transmitters are as they were
  · intro q hq
    dsimp only at hq
    have hqp : q ≠ p := by
      intro heq
      rw [heq, update_self] at hq
      cases hq
    rw [update_of_ne hqp] at hq
    exact h.free q hq
  · intro x hx
    rcases Multiset.mem_add.mp hx with hx | hx
    · exact h.ends x hx
    · rw [hmem x hx]
      exact Bounded.mono (h.free p hp) hle

end Clock

/-- The arrival of a frame whose transmission ends at `b`. -/
def due (w : Wires) (b : Nat) : Option Nat :=
  if b + w.latency < timeMax then some (b + w.latency) else none

theorem Clock.fresh (h : w.Clock) (hp : w.busy p = false) (hb : w.now < b)
    : ∀ x ∈ w.flights, x.port = p → Before x.due (w.due b) := by
  intro x hx hxp
  have hold := h.free p hp x hx hxp
  unfold due
  split at hold
  · rename_i t ht
    rw [ht]
    split
    · show t < b + w.latency
      omega
    · trivial
  · rename_i hnone
    -- a discarded frame: this one is discarded as well
    rw [hnone, if_neg (by omega)]
    trivial

/-- That frame joins its link. -/
theorem Clock.launch (h : w.Clock) {m : Multiset (Nat × Nat)} {f : Frame} (hin : p < w.ports)
    (hp : w.busy p = false) (hb : w.now ≤ b) (hm : m = {(p, b)} ∨ m = 0) :
    Clock
      { w with
        ends := w.ends + m
        busy := update w.busy p true
        flights := w.flights + {⟨p, w.due b, f⟩} } := by
  have hstart := h.start hin hp hm hb
  have hnew : ∀ x ∈ w.ends + m, x.1 = p → x = (p, b) := by
    intro x hx hxp
    rcases Multiset.mem_add.mp hx with hx | hx
    · have hbusy := h.busy x hx
      rw [hxp, hp] at hbusy
      cases hbusy
    · rcases hm with rfl | rfl
      · exact Multiset.mem_singleton.mp hx
      · exact absurd hx (Multiset.notMem_zero x)
  -- the new flight obeys the bound of its own transmission
  have hdue : ∀ q c, (q = p → c = b) → Wires.Bounded { w with flights := {⟨p, w.due b, f⟩} } q c := by
    intro q c hqc x hx hxq
    rw [Multiset.mem_singleton.mp hx] at hxq ⊢
    have hc := hqc hxq.symm
    subst hc
    dsimp only [due]
    split
    · rename_i t ht
      split at ht <;> cases ht
      exact le_rfl
    · rename_i ht
      split at ht
      · cases ht
      · omega
  have hboth : ∀ q c, Wires.Bounded w q c → (q = p → c = b) →
      ∀ x ∈ w.flights + {⟨p, w.due b, f⟩}, x.port = q →
        match x.due with
        | some t => t ≤ c + w.latency
        | none => timeMax ≤ c + w.latency := by
    intro q c hbound hqc x hx hxq
    rcases Multiset.mem_add.mp hx with hx | hx
    · exact hbound x hx hxq
    · exact hdue q c hqc x hx hxq
  refine ⟨hstart.inside, hstart.busy, hstart.single, ?_, ?_⟩
  · intro q hq
    refine hboth q w.now (hstart.free q hq) fun heq => ?_
    dsimp only at hq
    rw [heq, update_self] at hq
    cases hq
  · intro x hx
    exact hboth x.1 x.2 (hstart.ends x hx) fun heq => congrArg Prod.snd (hnew x hx heq)

end Wires

namespace Fabric

theorem dueIn_addTime (σ : Fabric) (wire : Nat) :
    σ.dueIn (addTime wire σ.config.linkLatency) = σ.wires.due (σ.now + wire) := by
  show (if _ < _ then _ else _) = if σ.now + wire + σ.config.linkLatency < timeMax then _ else _
  by_cases hsat : σ.config.linkLatency > timeMax - wire
  · have hadd : addTime wire σ.config.linkLatency = timeMax := if_pos hsat
    rw [hadd, if_neg (by omega), if_neg (by omega)]
  · have hadd : addTime wire σ.config.linkLatency = wire + σ.config.linkLatency := if_neg hsat
    rw [hadd]
    by_cases hlt : σ.now + wire + σ.config.linkLatency < timeMax
    · rw [if_pos hlt, if_pos (by omega), ← Nat.add_assoc]
      rfl
    · rw [if_neg hlt, if_neg (by omega)]

/-- No pending event lies in the past. -/
def Future (σ : Fabric) : Prop := ∀ e ∈ σ.events, σ.now ≤ e.time

variable {σ : Fabric}

theorem Future.schedule (h : σ.Future) (d : Nat) (k : EventKind) : (σ.schedule d k).Future := by
  intro e he
  rcases mem_schedule he with he | rfl
  · exact h e he
  · exact Nat.le_add_right _ _

theorem Future.cancel (h : σ.Future) (is : EventKind → Bool) : (σ.cancel is).Future :=
  fun e he => h e (List.mem_of_mem_filter he)

theorem Future.popEvent {i : Nat} {e : Event} (h : σ.Due i e) : (σ.popEvent i e).Future :=
  fun e' he' => h.2 e' (List.mem_of_mem_eraseIdx he')

theorem Future.returnCredit (h : σ.Future) (f : Frame) : (σ.returnCredit f).1.Future := by
  unfold Fabric.returnCredit
  cases f.ingress with
  | none => exact h
  | some p =>
      dsimp only
      split
      · exact h
      · exact Future.schedule (by exact h) _ _

theorem Future.sendFrame {σ : Fabric} (h : σ.Future) (env : Env) (p i : Nat) (f : Frame) :
    (σ.sendFrame env p i f).Future := by
  rw [sendFrame_eq]
  refine Future.schedule (Future.schedule ?_ _ _) _ _
  exact Future.returnCredit (by exact h) f

theorem Future.armWake {σ : Fabric} (h : σ.Future) (p : Nat) : (σ.armWake p).Future := by
  unfold Fabric.armWake
  split
  · exact h
  · exact (h.cancel _).schedule _ _

theorem Future.finish {σ : Fabric} (h : σ.Future) (id : Nat) : (σ.finish id).Future := by
  unfold Fabric.finish
  cases σ.transfers id with
  | none => exact h
  | some op =>
      dsimp only
      split
      · exact h
      · split
        · exact Future.schedule (by exact h) _ _
        · exact h

end Fabric

open Fabric

theorem Micro.future (h : Micro env s s') (hf : s.fab.Future) : s'.fab.Future := by
  cases h with
  | addNode h =>
      unfold Fabric.addNode at h
      split at h <;> cases h
      exact hf
  | addLink h =>
      simp only [Fabric.addLink] at h
      repeat' split at h
      all_goals cases h
      exact hf
  | @enter σ r =>
      show (σ.enter (σ.newTransfer r)).Future
      unfold Fabric.enter
      dsimp only
      split <;> exact hf
  | advance _ _ hall => exact hall
  | popBusy hdue | popCredit hdue | popAckDllp hdue | popFrame hdue | popFc hdue | popAckTimer hdue
  | popWake hdue | popRead hdue | popCallback hdue => exact Future.popEvent hdue
  | @popWrite σ i t n f op hdue =>
      exact Future.returnCredit (σ := σ.popEvent i ⟨t, .writeService n f⟩) (.popEvent hdue) f
  | popCompletion hdue =>
      exact Future.returnCredit (by exact Future.popEvent hdue) _
  | retire | pushAck | forward | assign | respond | issueWrite | issueRead | popTransfer | pumping => exact hf
  | cancelAck => exact hf.cancel _
  | armAck => exact hf.schedule _ _
  | sendControl => exact Future.schedule (Future.schedule (by exact hf) _ _) _ _
  | sendFrame => exact hf.sendFrame env _ _ _
  | armWake => exact hf.armWake _
  | holdRead =>
      refine Future.schedule ?_ _ _
      exact Future.returnCredit (by exact hf) _
  | holdWrite => exact Future.schedule (by exact hf) _ _
  | holdCompletion => exact Future.schedule (by exact hf) _ _
  | finish => exact hf.finish _

/-! ## The links during a run -/

/-- What the links see of a transmission of `wire` ticks. -/
def Wires.transmit (w : Wires) (p wire : Nat) : Wires :=
  { w with
    ends := w.ends + if wire < timeMax - w.now then {(p, w.now + wire)} else 0
    busy := update w.busy p true }

namespace Fabric

theorem wires_transmit {σ : Fabric} {p : Nat} {g : Port → Port} (wire : Nat)
    (h : (g (σ.ports p)).busy = true) :
    ((σ.modPort p g).schedule wire (.busyEnd p)).wires = σ.wires.transmit p wire := by
  rw [wires_schedule_busy, wires_modPort_busy h]
  rfl

theorem wires_sendControl (env : Env) (σ : Fabric) (p : Nat) (c : Control) (rest : List Control) :
    (σ.sendControl env p c rest).wires = σ.wires.transmit p (wireTime env dllpWireBytes) := by
  simp only [sendControl]
  rw [wires_schedule_silent rfl, wires_transmit _ rfl]

theorem wires_sendFrame (env : Env) (σ : Fabric) (p i : Nat) (f : Frame) :
    (σ.sendFrame env p i f).wires =
      { σ.wires.transmit p (wireTime env (f.size + tlpLinkBytes)) with
        flights := σ.wires.flights + {⟨p, σ.wires.due (σ.now + wireTime env (f.size + tlpLinkBytes)),
          onLink p f⟩} } := by
  have hdet : (σ.detached p i f).wires = σ.wires := by
    rw [detached, wires_returnCredit, wires_modPort rfl]
  have hnow : (σ.detached p i f).now = σ.now := congrArg Wires.now hdet
  set wire := wireTime env (f.size + tlpLinkBytes) with hwire
  set τ := ((σ.detached p i f).modPort p (transmitted f.header (f.size + tlpLinkBytes))).schedule
    wire (.busyEnd p) with hτ
  have hsent : τ.wires = σ.wires.transmit p wire := by
    rw [hτ, wires_transmit _ rfl, hdet]
  have hdue : τ.dueIn (addTime wire (σ.detached p i f).config.linkLatency) =
      σ.wires.due (σ.now + wire) := by
    have hsame : (σ.detached p i f).config.linkLatency = τ.config.linkLatency := rfl
    rw [hsame, dueIn_addTime, hsent]
    show σ.wires.due ((σ.detached p i f).now + wire) = _
    rw [hnow]
  rw [sendFrame_eq, wires_schedule_frame, hdue, hsent]
  rfl

theorem wires_launch (σ : Fabric) (calls p : Nat) (f : Frame) :
    (σ.launch calls p f).wires = σ.wires := by
  rw [launch, wires_enqueue]
  rfl

theorem wires_issueFrame (env : Env) (σ : Fabric) (n : Nat) (op : Transfer) (p bytes tag : Nat) :
    (issueFrame env σ n op p bytes tag).wires = σ.wires := by
  rw [issueFrame_eq]
  exact wires_launch σ _ p _

theorem wires_respond (σ : Fabric) (n : Nat) (response : Response) (others : List Response)
    (op : Transfer) (p : Nat) :
    (σ.respond n response others op p (completionBytes σ.config response)).wires = σ.wires := by
  rw [respond_eq]
  exact wires_launch σ _ p _

end Fabric

theorem Wires.Clock.transmit {w : Wires} (h : w.Clock) {p : Nat} (wire : Nat)
    (hin : p < w.ports) (hp : w.busy p = false) : (w.transmit p wire).Clock := by
  refine h.start hin hp ?_ (Nat.le_add_right w.now wire)
  split
  · exact .inl rfl
  · exact .inr rfl

theorem Fabric.wires_addLink {σ σ' : Fabric} {a b : Nat} (hc : σ.wires.Clock)
    (h : σ.addLink a b = .ok σ') : σ'.wires = { σ.wires with ports := σ.numPorts + 2 } := by
  obtain ⟨-, heq⟩ := addLink_spec h
  have hports : σ'.ports = linkPorts σ a b := by rw [heq]; rfl
  have hidle : ∀ p, σ.numPorts ≤ p → (σ.ports p).busy = false := by
    intro p hp
    by_contra hbusy
    have := hc.inside p (by simpa [wires] using hbusy)
    exact absurd this (Nat.not_lt.mpr hp)
  have hbusy : ∀ p, (σ'.ports p).busy = (σ.ports p).busy := by
    intro p
    rw [hports, linkPorts]
    by_cases h1 : p = σ.numPorts + 1
    · rw [h1, update_self, hidle _ (by omega)]
    · rw [update_of_ne h1]
      by_cases h0 : p = σ.numPorts
      · rw [h0, update_self, hidle _ le_rfl]
      · rw [update_of_ne h0]
  simp only [wires, hbusy]
  rw [heq]
  rfl

theorem Wires.Clock.addLink {σ σ' : Fabric} {a b : Nat} (hc : σ.wires.Clock)
    (h : σ.addLink a b = .ok σ') : σ'.wires.Clock := by
  rw [wires_addLink hc h]
  exact ⟨fun p hp => Nat.lt_add_right 2 (hc.inside p hp), hc.busy, hc.single, hc.free, hc.ends⟩

/-- Every atomic step keeps the arrivals on the links in order. -/
theorem Micro.clock (h : Micro env s s') (hwf : s.Wf) (hl : Ledger s.fab s.total)
    (hf : s.fab.Future) (hc : s.fab.wires.Clock) : s'.fab.wires.Clock := by
  -- a silent event only moves the clock
  have hpop : ∀ {σ : Fabric} {i : Nat} {e : Event}, σ.Due i e → e.kind.silent = true →
      σ.Future → σ.wires.Clock → (σ.popEvent i e).wires.Clock := by
    intro σ i e hdue hk hf hc
    rw [wires_popEvent_silent hdue hk]
    exact hc.tick (hf e (List.mem_of_getElem? hdue.1))
  cases h with
  | addNode h =>
      unfold Fabric.addNode at h
      split at h <;> cases h
      exact hc
  | addLink h => exact hc.addLink h
  | @enter σ r =>
      show (σ.enter (σ.newTransfer r)).wires.Clock
      unfold Fabric.enter
      dsimp only
      split <;> exact hc
  | advance hle => exact hc.tick hle
  | @popBusy σ i t p hdue =>
      have hends := ends_popEvent hdue
      have hflights := flights_popEvent hdue
      have hdone := hc.done (m := (σ.popEvent i ⟨t, .busyEnd p⟩).wires.ends) hends.symm
        (hf _ (List.mem_of_getElem? hdue.1))
      rw [wires_modPort_busy rfl]
      simp only [EventKind.flights, add_zero] at hflights
      rw [← hflights] at hdone
      exact hdone
  | popCredit hdue =>
      rw [wires_takeCredit]
      exact hpop hdue rfl hf hc
  | popAckDllp hdue =>
      rw [wires_takeAck]
      exact hpop hdue rfl hf hc
  | @popFrame σ i t p f seq hdue =>
      have hends := ends_popEvent hdue
      have hflights := flights_popEvent hdue
      have htick := hc.tick (hf _ (List.mem_of_getElem? hdue.1))
      have hland := htick.land (m := (σ.popEvent i ⟨t, .frameArrive p f seq⟩).wires.flights)
        (Multiset.le_iff_exists_add.mpr ⟨_, hflights.symm⟩)
      rw [wires_countTlp]
      simp only [EventKind.ends, add_zero] at hends
      rw [← hends] at hland
      exact hland
  | popFc hdue =>
      rw [wires_flushReturn]
      exact hpop hdue rfl hf hc
  | popAckTimer hdue | popWake hdue | popRead hdue | popCallback hdue => exact hpop hdue rfl hf hc
  | @popWrite σ i t n f op hdue =>
      show ((σ.popEvent i ⟨t, .writeService n f⟩).returnCredit f).1.wires.Clock
      rw [wires_returnCredit]
      exact hpop hdue rfl hf hc
  | popCompletion hdue =>
      rw [acceptPiece, wires_returnCredit]
      exact hpop hdue rfl hf hc
  | retire => exact hc
  | cancelAck =>
      rw [wires_cancel fun _ => silent_of_isAck]
      exact hc
  | pushAck =>
      rw [wires_pushAck]
      exact hc
  | armAck | holdWrite | holdCompletion =>
      rw [wires_schedule_silent rfl]
      exact hc
  | sendControl hb hctl =>
      rw [wires_sendControl]
      exact hc.transmit _ (hl.control_in _ (by simp [hctl])) hb
  | @sendFrame σ h p i f hb _ hi _ =>
      rw [wires_sendFrame]
      refine hc.launch (hwf.queue_ok (List.mem_of_getElem? hi)).fits.1 hb (Nat.le_add_right σ.now _) ?_
      split
      · exact .inl rfl
      · exact .inr rfl
  | armWake =>
      rw [wires_armWake]
      exact hc
  | forward => exact hc
  | holdRead =>
      rw [wires_schedule_silent rfl]
      show (returnCredit _ _).1.wires.Clock
      rw [wires_returnCredit]
      exact hc
  | @assign σ n i f p =>
      show (σ.enqueue p f).wires.Clock
      rw [wires_enqueue]
      exact hc
  | respond =>
      rw [wires_respond]
      exact hc
  | issueWrite =>
      rw [wires_issueFrame]
      exact hc
  | issueRead =>
      rw [wires_issueFrame]
      exact hc
  | popTransfer => exact hc
  | finish =>
      rw [wires_finish]
      exact hc
  | pumping => exact hc

end ProtoBridge.Pcie
