import Mathlib.Algebra.Order.BigOperators.Group.List
import ProtoBridge.Lib.Window
import ProtoBridge.Pcie.Wire

/-!
# Replay buffers and acknowledgements

Each direction of a link numbers its TLPs and keeps them in the replay buffer until
the other end acknowledges them. `Fabric.window` reads this protocol off a fabric:
the line forth is the link itself, the line back is the reverse link with the queue
in front of it, which the ACKs share with flow control. Every atomic step is one of
the four operations of a `Window`, or none of them (`Micro.lines`).
-/

namespace ProtoBridge.Pcie

open Lib Fabric
open Function (update update_of_ne update_self)

/-! ## What is on a link -/

/-- The link an event brings something over; `rev` turns a link around. -/
def EventKind.link (rev : Nat → Nat) : EventKind → Option Nat
  | .frameArrive p _ _ => some p
  | .controlArrive c => some (rev c.forPort)
  | _ => none

/-- The number of a TLP. -/
def EventKind.tlp : EventKind → Option Nat
  | .frameArrive _ _ seq => some seq
  | _ => none

/-- The number an ACK for `p` names. -/
def Control.ackFor (p : Nat) (c : Control) : Option Nat :=
  if c.ack = true ∧ c.forPort = p then some c.sequence else none

/-- The number of an ACK DLLP for `p`. -/
def EventKind.ackFor (p : Nat) : EventKind → Option Nat
  | .controlArrive c => c.ackFor p
  | _ => none

/-- An event on the link `q`, with its due time. -/
def EventKind.on (rev : Nat → Nat) (q : Nat) (due : Option Nat) (k : EventKind) :
    Option (Option Nat × EventKind) :=
  if k.link rev = some q then some (due, k) else none

/-- The fields of a port that its sequence numbers depend on. -/
def Port.line (port : Port) : Port :=
  { reverse := port.reverse, control := port.control, nextSequence := port.nextSequence,
    receivedSequence := port.receivedSequence, ackCount := port.ackCount,
    replayBytes := port.replayBytes, replay := port.replay }

/-- The replay buffer is charged for what it holds, and has room for it. -/
structure Port.Charged (cap : Nat) (port : Port) : Prop where
  bytes : port.replayBytes = (port.replay.map Prod.snd).sum
  room : port.replayBytes ≤ cap

/-- The links, with what is on each of them in the order of transmission. -/
structure Lines where
  cap : Nat
  port : Nat → Port
  arrivals : Nat → List (Option Nat × EventKind)

/-- The protocol of the direction `p`. -/
def Lines.window (l : Lines) (p : Nat) : Window where
  next := (l.port p).nextSequence
  kept := (l.port p).replay
  flight := (l.arrivals p).filterMap fun x => x.2.tlp
  received := (l.port p).receivedSequence
  pending := (l.port p).ackCount
  acks := (l.arrivals (l.port p).reverse).filterMap (fun x => x.2.ackFor p) ++
    (l.port (l.port p).reverse).control.filterMap (Control.ackFor p)

namespace Fabric

/-- What is on the link `q`, in the order of transmission. What the horizon discarded was sent
last. -/
def arrivals (σ : Fabric) (q : Nat) : List (Option Nat × EventKind) :=
  σ.events.filterMap (fun e => e.kind.on (fun p => (σ.ports p).reverse) q (some e.time)) ++
    σ.dropped.filterMap (EventKind.on (fun p => (σ.ports p).reverse) q none)

def lines (σ : Fabric) : Lines where
  cap := σ.config.replayBufferBytes
  port p := (σ.ports p).line
  arrivals := σ.arrivals

/-- The protocol of the direction `p`. -/
def window (σ : Fabric) (p : Nat) : Window := σ.lines.window p

variable {σ : Fabric} {i p q : Nat} {k : EventKind} {e : Event}

theorem lines_modPort {g : Port → Port} (h : (g (σ.ports p)).line = (σ.ports p).line)
    : (σ.modPort p g).lines = σ.lines := by
  have hline : (fun q => ((σ.modPort p g).ports q).line) = fun q => (σ.ports q).line :=
    funext (modPort_field Port.line h)
  have hrev : (fun q => ((σ.modPort p g).ports q).reverse) = fun q => (σ.ports q).reverse :=
    funext fun q =>
      have same := congrArg Port.reverse (congrFun hline q)
      same
  have harr : (σ.modPort p g).arrivals = σ.arrivals := by
    funext q
    simp only [arrivals, hrev]
    rfl
  simp only [lines, hline, harr]
  rfl

theorem on_none (h : ∀ rev, k.link rev = none) (rev : Nat → Nat) (q : Nat) (due : Option Nat)
    : k.on rev q due = none := by
  unfold EventKind.on
  rw [h rev, if_neg (by simp)]

theorem lines_schedule {d : Nat} (h : ∀ rev, k.link rev = none) :
    (σ.schedule d k).lines = σ.lines := by
  have harr : (σ.schedule d k).arrivals = σ.arrivals := by
    funext q
    simp only [arrivals, schedule]
    split <;> simp [on_none h]
  simp only [lines, harr]
  rfl

theorem lines_cancel {is : EventKind → Bool} (h : ∀ k, is k = true → ∀ rev, k.link rev = none)
    : (σ.cancel is).lines = σ.lines := by
  have harr : (σ.cancel is).arrivals = σ.arrivals := by
    funext q
    simp only [arrivals, cancel, List.filterMap_filter]
    congr 1
    apply List.filterMap_congr
    intro e _
    cases hk : is e.kind with
    | false => rfl
    | true => exact (on_none (h e.kind hk) _ _ _).symm
  simp only [lines, harr]
  rfl

theorem link_of_isAck (h : isAck p k = true) (rev : Nat → Nat) : k.link rev = none := by
  cases k <;> first | rfl | cases h

theorem link_of_isWake (h : isWake p k = true) (rev : Nat → Nat) : k.link rev = none := by
  cases k <;> first | rfl | cases h

theorem events_split (h : σ.Due i e) :
    ∃ u v, σ.events = u ++ e :: v ∧ (σ.popEvent i e).events = u ++ v := by
  obtain ⟨lt, rfl⟩ := List.getElem?_eq_some_iff.1 h.1
  refine ⟨σ.events.take i, σ.events.drop (i + 1), ?_, List.eraseIdx_eq_take_drop_succ ..⟩
  rw [List.getElem_cons_drop, List.take_append_drop]

theorem arrivals_popEvent_ne (h : σ.Due i e)
    (hq : e.kind.link (fun p => (σ.ports p).reverse) ≠ some q) :
    (σ.popEvent i e).arrivals q = σ.arrivals q := by
  obtain ⟨u, v, events, rest⟩ := events_split h
  have off : e.kind.on (fun p => (σ.ports p).reverse) q (some e.time) = none := if_neg hq
  unfold arrivals
  simp only [events, rest, List.filterMap_append, List.filterMap_cons, off]
  rfl

theorem lines_popEvent (h : σ.Due i e) (hk : ∀ rev, e.kind.link rev = none)
    : (σ.popEvent i e).lines = σ.lines := by
  have harr : (σ.popEvent i e).arrivals = σ.arrivals := by
    funext q
    exact arrivals_popEvent_ne h (by rw [hk]; simp)
  simp only [lines, harr]
  rfl

theorem arrivals_popEvent (h : σ.Due i e) (hq : e.kind.link (fun p => (σ.ports p).reverse) = some q)
    (ordered : (σ.arrivals q).Pairwise fun x y => Before x.1 y.1) :
    σ.arrivals q = (some e.time, e.kind) :: (σ.popEvent i e).arrivals q := by
  obtain ⟨u, v, events, rest⟩ := events_split h
  have on : e.kind.on (fun p => (σ.ports p).reverse) q (some e.time) = some (some e.time, e.kind) :=
    if_pos hq
  have first : u.filterMap (fun e => e.kind.on (fun p => (σ.ports p).reverse) q (some e.time)) = [] := by
    rw [List.filterMap_eq_nil_iff]
    intro x hx
    by_contra some
    -- Something sent before `e` is due before `e`.
    obtain ⟨y, hy⟩ := Option.ne_none_iff_exists'.1 some
    have due : y.1 = .some x.time := by
      unfold EventKind.on at hy
      split at hy <;> cases hy
      rfl
    unfold arrivals at ordered
    simp only [events, List.filterMap_append, List.filterMap_cons, on, List.append_assoc] at ordered
    rw [List.pairwise_append] at ordered
    have before := ordered.2.2 y (List.mem_filterMap.2 ⟨x, hx, hy⟩) _ List.mem_cons_self
    rw [due] at before
    have min := h.2 x (by rw [events]; exact List.mem_append_left _ hx)
    exact absurd before (Nat.not_lt.2 min)
  unfold arrivals
  simp only [events, rest, List.filterMap_append, List.filterMap_cons, on]
  rw [first]
  exact congrArg _ (congrArg (· ++ _) (congrArg (· ++ _) first.symm))

theorem arrivals_schedule {d : Nat} (hq : k.link (fun p => (σ.ports p).reverse) = some q)
    (fresh : ∀ x ∈ σ.arrivals q, Before x.1 (σ.dueIn d)) :
    (σ.schedule d k).arrivals =
      update σ.arrivals q (σ.arrivals q ++ [(σ.dueIn d, k)]) := by
  funext q'
  by_cases same : q' = q
  · subst same
    rw [update_self]
    have on : ∀ due, k.on (fun p => (σ.ports p).reverse) q' due = some (due, k) := fun _ => if_pos hq
    by_cases soon : d < timeMax - σ.now
    -- Nothing on this link was discarded, or this would be too.
    · have kept : σ.dropped.filterMap (EventKind.on (fun p => (σ.ports p).reverse) q' none) = [] := by
        rw [List.filterMap_eq_nil_iff]
        intro x hx
        by_contra some
        obtain ⟨y, hy⟩ := Option.ne_none_iff_exists'.1 some
        have before := fresh y (List.mem_append_right _ (List.mem_filterMap.2 ⟨x, hx, hy⟩))
        have due : y.1 = none := by
          unfold EventKind.on at hy
          split at hy <;> cases hy
          rfl
        rw [due, dueIn, if_pos soon] at before
        exact before
      simp only [arrivals, schedule, dueIn, if_pos soon, kept, List.append_nil,
        List.filterMap_append, List.filterMap_cons, on, List.filterMap_nil]
    · simp only [arrivals, schedule, dueIn, if_neg soon, List.filterMap_append,
        List.filterMap_cons, on, List.filterMap_nil, List.append_assoc]
  · rw [update_of_ne same]
    have off : ∀ due, k.on (fun p => (σ.ports p).reverse) q' due = none := by
      intro due
      unfold EventKind.on
      rw [hq, if_neg (by simpa using Ne.symm same)]
    simp only [arrivals, schedule]
    split <;> simp [off]

end Fabric

/-! ## The pace of a link -/

/-- What arrives at most the latency after `b`, or is discarded at the horizon for that. -/
def Late (latency b : Nat) : Option Nat → Prop
  | some t => t ≤ b + latency
  | none => timeMax ≤ b + latency

/-- Everything on a link is due in the order of transmission, and no later than the latency after
its transmitter is free. -/
structure Paced {α : Type} (w : Wires) (a : Nat → List (Option Nat × α)) : Prop where
  free : ∀ q, w.busy q = false → ∀ x ∈ a q, Late w.latency w.now x.1
  ends : ∀ e ∈ w.ends, ∀ x ∈ a e.1, Late w.latency e.2 x.1
  ordered : ∀ q, (a q).Pairwise fun x y => Before x.1 y.1

theorem Late.mono {latency b b' : Nat} {due : Option Nat} (h : Late latency b due) (hle : b ≤ b') :
    Late latency b' due := by
  cases due with
  | none =>
      have : timeMax ≤ b + latency := h
      show timeMax ≤ b' + latency
      omega
  | some t =>
      have : t ≤ b + latency := h
      show t ≤ b' + latency
      omega

theorem Late.before {w : Wires} {b : Nat} {due : Option Nat} (h : Late w.latency w.now due)
    (hb : w.now < b) : Before due (w.due b) := by
  unfold Wires.due
  cases due with
  | none =>
      have : timeMax ≤ w.now + w.latency := h
      rw [if_neg (by omega)]
      trivial
  | some t =>
      have : t ≤ w.now + w.latency := h
      split
      · show t < b + w.latency
        omega
      · trivial

theorem Wires.late_due (w : Wires) (b : Nat) : Late w.latency b (w.due b) := by
  unfold Wires.due
  split
  · exact le_rfl
  · rename_i past
    exact Nat.not_lt.1 past

namespace Paced

variable {α : Type} {w : Wires} {a : Nat → List (Option Nat × α)}

theorem tick (h : Paced w a) {t : Nat} (hle : w.now ≤ t) : Paced { w with now := t } a where
  free q hq x hx := (h.free q hq x hx).mono hle
  ends := h.ends
  ordered := h.ordered

theorem flights (h : Paced w a) (fs : Multiset Flight) : Paced { w with flights := fs } a :=
  ⟨h.free, h.ends, h.ordered⟩

variable {p : Nat}

theorem done (h : Paced w a) {t : Nat} {m : Multiset (Nat × Nat)} (hm : w.ends = m + {(p, t)})
    (hle : w.now ≤ t) :
    Paced { w with now := t, ends := m, busy := update w.busy p false } a := by
  refine ⟨fun q hq x hx => ?_, fun e he => ?_, h.ordered⟩
  · by_cases hqp : q = p
    · subst hqp
      exact h.ends (q, t) (by rw [hm]; simp) x hx
    · dsimp only at hq
      rw [update_of_ne hqp] at hq
      exact (h.free q hq x hx).mono hle
  · exact h.ends e (by rw [hm]; exact Multiset.mem_add.2 (.inl he))

theorem land (h : Paced w a) {q : Nat} {x : Option Nat × α} {rest : List (Option Nat × α)}
    (hq : a q = x :: rest) : Paced w (update a q rest) := by
  have sub : ∀ p, (update a q rest p).Sublist (a p) := by
    intro p
    by_cases hp : p = q
    · subst hp
      rw [update_self, hq]
      exact List.sublist_cons_self _ _
    · rw [update_of_ne hp]
  refine ⟨fun p hp y hy => ?_, fun e he y hy => ?_, fun p => ?_⟩
  · exact h.free p hp y ((sub p).subset hy)
  · exact h.ends e he y ((sub e.1).subset hy)
  · exact (h.ordered p).sublist (sub p)

theorem fresh (h : Paced w a) {b : Nat} (hp : w.busy p = false) (hb : w.now < b) :
    ∀ x ∈ a p, Before x.1 (w.due b) :=
  fun x hx => (h.free p hp x hx).before hb

theorem transmit (h : Paced w a) (clock : w.Clock) {wire : Nat} (hp : w.busy p = false)
    (pos : 0 < wire) (k : α) :
    Paced (w.transmit p wire) (update a p (a p ++ [(w.due (w.now + wire), k)])) := by
  -- The transmitter was free, so only the new transmission will free it.
  have own : ∀ e ∈ (w.transmit p wire).ends, e.1 = p → e.2 = w.now + wire := by
    intro e he hep
    rcases Multiset.mem_add.1 he with old | new
    · have busy := clock.busy e old
      rw [hep, hp] at busy
      cases busy
    · split_ifs at new
      · rw [Multiset.mem_singleton.1 new]
      · exact absurd new (Multiset.notMem_zero e)
  refine ⟨fun q hq x hx => ?_, fun e he x hx => ?_, fun q => ?_⟩
  · have hqp : q ≠ p := by
      rintro rfl
      simp [Wires.transmit] at hq
    rw [update_of_ne hqp] at hx
    refine h.free q ?_ x hx
    simpa [Wires.transmit, hqp] using hq
  · by_cases hep : e.1 = p
    · rw [hep, update_self] at hx
      rw [own e he hep]
      rcases List.mem_append.1 hx with old | new
      · exact (h.free p hp x old).mono (Nat.le_add_right _ _)
      · rw [List.mem_singleton.1 new]
        exact w.late_due _
    · rw [update_of_ne hep] at hx
      rcases Multiset.mem_add.1 he with old | new
      · exact h.ends e old x hx
      · split_ifs at new
        · rw [Multiset.mem_singleton.1 new] at hep
          exact absurd rfl hep
        · exact absurd new (Multiset.notMem_zero e)
  · by_cases hqp : q = p
    · subst hqp
      rw [update_self, List.pairwise_append]
      refine ⟨h.ordered q, List.pairwise_singleton _ _, fun x hx y hy => ?_⟩
      rw [List.mem_singleton.1 hy]
      exact h.fresh hp (by omega) x hx
    · rw [update_of_ne hqp]
      exact h.ordered q

end Paced

/-! ## Reading numbers off a link -/

section Numbers

variable {α β : Type} {a : Nat → List (Option Nat × α)} {f : α → Option β} {q : Nat}

theorem filterMap_land_none {x : Option Nat × α} {rest : List (Option Nat × α)} (hq : a q = x :: rest)
    (hf : f x.2 = none) (p : Nat) :
    (update a q rest p).filterMap (fun y => f y.2) = (a p).filterMap fun y => f y.2 := by
  apply update_same (List.filterMap fun y : Option Nat × α => f y.2)
  simp only [hq, List.filterMap_cons, hf]

theorem filterMap_send_none {due : Option Nat} {k : α} (hf : f k = none) (p : Nat) :
    (update a q (a q ++ [(due, k)]) p).filterMap (fun y => f y.2) =
      (a p).filterMap fun y => f y.2 := by
  apply update_same (List.filterMap fun y : Option Nat × α => f y.2)
  simp only [List.filterMap_append, List.filterMap_cons, hf, List.filterMap_nil, List.append_nil]

theorem filterMap_send_some {due : Option Nat} {k : α} {n : β} (hf : f k = some n) :
    (update a q (a q ++ [(due, k)]) q).filterMap (fun y => f y.2) =
      (a q).filterMap (fun y => f y.2) ++ [n] := by
  simp only [update_self, List.filterMap_append, List.filterMap_cons, hf,
    List.filterMap_nil]

end Numbers

/-! ## The operations on the links -/

namespace Lines

/-- Replace one port. -/
@[simps]
def setPort (l : Lines) (p : Nat) (x : Port) : Lines := { l with port := update l.port p x }

/-- DLLPs are on the reverse of the link they are for. -/
def Routed (l : Lines) : Prop := ∀ q, ∀ c ∈ (l.port q).control, (l.port c.forPort).reverse = q

/-- The links are paced, every direction follows the protocol, and the replay buffers hold what they
are charged for. -/
structure Sound (w : Wires) (l : Lines) : Prop where
  paced : Paced w l.arrivals
  routed : l.Routed
  windows : ∀ p, (l.window p).Sound
  charged : ∀ p, (l.port p).Charged l.cap

variable {l : Lines} {w : Wires} {p q : Nat} {x : Port}

theorem setPort_reverse (hrev : x.reverse = (l.port p).reverse) (q : Nat) :
    ((l.setPort p x).port q).reverse = (l.port q).reverse :=
  update_same Port.reverse hrev q

theorem setPort_control (hctl : x.control = (l.port p).control) (q : Nat) :
    ((l.setPort p x).port q).control = (l.port q).control :=
  update_same Port.control hctl q

theorem window_acks_setPort (hrev : x.reverse = (l.port p).reverse)
    (hctl : x.control = (l.port p).control) (q : Nat) :
    ((l.setPort p x).window q).acks = (l.window q).acks := by
  simp only [window, setPort_reverse hrev, setPort_control hctl]
  rfl

theorem window_setPort_ne (hrev : x.reverse = (l.port p).reverse)
    (hctl : x.control = (l.port p).control) (hq : q ≠ p) :
    (l.setPort p x).window q = l.window q := by
  have same : (l.setPort p x).port q = l.port q := update_of_ne hq _ _
  apply Window.ext
  · exact congrArg Port.nextSequence same
  · exact congrArg Port.replay same
  · rfl
  · exact congrArg Port.receivedSequence same
  · exact congrArg Port.ackCount same
  · exact window_acks_setPort hrev hctl _

theorem window_setPort (hrev : x.reverse = (l.port p).reverse)
    (hctl : x.control = (l.port p).control) :
    (l.setPort p x).window p =
      { l.window p with
        next := x.nextSequence, kept := x.replay, received := x.receivedSequence
        pending := x.ackCount } := by
  have same : (l.setPort p x).port p = x := update_self _ _ _
  apply Window.ext
  · exact congrArg Port.nextSequence same
  · exact congrArg Port.replay same
  · rfl
  · exact congrArg Port.receivedSequence same
  · exact congrArg Port.ackCount same
  · exact window_acks_setPort hrev hctl _

theorem window_control (r : Nat) (cs : List Control) (q : Nat) :
    (l.setPort r { l.port r with control := (l.port r).control ++ cs }).window q =
      { l.window q with
        acks := (l.window q).acks ++
          if (l.port q).reverse = r then cs.filterMap (Control.ackFor q) else [] } := by
  have hrev := @setPort_reverse l r { l.port r with control := (l.port r).control ++ cs } rfl
  apply Window.ext
  · exact update_same Port.nextSequence (by rfl) q
  · exact update_same Port.replay (by rfl) q
  · rfl
  · exact update_same Port.receivedSequence (by rfl) q
  · exact update_same Port.ackCount (by rfl) q
  · simp only [window, hrev]
    by_cases back : (l.port q).reverse = r
    · rw [back, if_pos rfl, setPort_port, update_self, List.filterMap_append, List.append_assoc]
      rfl
    · rw [if_neg back, setPort_port, update_of_ne back, List.append_nil]
      rfl

theorem Routed.setPort (h : l.Routed) (hrev : x.reverse = (l.port p).reverse)
    (hctl : ∀ c ∈ x.control, (l.port c.forPort).reverse = p) : (l.setPort p x).Routed := by
  intro q c hc
  rw [setPort_reverse hrev]
  by_cases hq : q = p
  · subst hq
    rw [setPort_port, update_self] at hc
    exact hctl c hc
  · rw [setPort_port, update_of_ne hq] at hc
    exact h q c hc

theorem all_setPort (P : Port → Prop) (h : ∀ q, P (l.port q)) (hx : P x) (q : Nat) :
    P ((l.setPort p x).port q) :=
  (Function.forall_update_iff l.port fun _ => P).mpr ⟨hx, fun q _ => h q⟩ q

namespace Sound

variable {due : Option Nat} {rest : List (Option Nat × EventKind)}

/-- A TLP arrives: its number is the next. -/
theorem landFrame (h : l.Sound w) {f : Frame} {seq : Nat}
    (hp : l.arrivals p = (due, .frameArrive p f seq) :: rest) :
    seq = (l.port p).receivedSequence + 1 ∧
      (Lines.setPort { l with arrivals := update l.arrivals p rest } p
        { l.port p with receivedSequence := seq, ackCount := (l.port p).ackCount + 1 }).Sound w := by
  have line : (l.window p).flight = seq :: rest.filterMap fun y => y.2.tlp := by
    show (l.arrivals p).filterMap (fun y => y.2.tlp) = _
    rw [hp]
    rfl
  have acks : ∀ q r, (update l.arrivals p rest r).filterMap (fun y => y.2.ackFor q) =
      (l.arrivals r).filterMap fun y => y.2.ackFor q :=
    fun q r => filterMap_land_none hp rfl r
  refine ⟨(h.windows p).first line, h.paced.land hp, h.routed.setPort rfl (h.routed _), fun q => ?_,
    all_setPort (Port.Charged l.cap) h.charged ⟨(h.charged p).bytes, (h.charged p).room⟩⟩
  by_cases hq : q = p
  · subst hq
    rw [window_setPort (by rfl) (by rfl)]
    have arrive : ({ l with arrivals := update l.arrivals q rest }.window q) =
        { l.window q with flight := (l.window q).flight.tail } := by
      apply Window.ext
      · rfl
      · rfl
      · rw [line]
        show (update l.arrivals q rest q).filterMap (fun y => y.2.tlp) = _
        rw [update_self]
        rfl
      · rfl
      · rfl
      · exact congrArg (· ++ _) (acks q _)
    rw [arrive]
    exact (h.windows q).arrive line
  · rw [window_setPort_ne (by rfl) (by rfl) hq]
    have same : ({ l with arrivals := update l.arrivals p rest }.window q) = l.window q := by
      apply Window.ext
      · rfl
      · rfl
      · show (update l.arrivals p rest q).filterMap (fun y => y.2.tlp) = _
        rw [update_of_ne hq]
        rfl
      · rfl
      · rfl
      · exact congrArg (· ++ _) (acks q _)
    rw [same]
    exact h.windows q

theorem landCredit (h : l.Sound w) {c : Control}
    (hq : l.arrivals q = (due, .controlArrive c) :: rest) (credit : c.ack = false)
    : Sound w { l with arrivals := update l.arrivals q rest } := by
  refine ⟨h.paced.land hq, h.routed, fun p => ?_, h.charged⟩
  have same : ({ l with arrivals := update l.arrivals q rest }.window p) = l.window p := by
    apply Window.ext
    · rfl
    · rfl
    · exact filterMap_land_none hq rfl p
    · rfl
    · rfl
    · refine congrArg (· ++ _) (filterMap_land_none hq ?_ _)
      show c.ackFor p = none
      simp [Control.ackFor, credit]
  rw [same]
  exact h.windows p

/-- An ACK arrives: it is news to the transmitter, which keeps what was sent after it. -/
theorem landAck (h : l.Sound w) {c : Control}
    (hq : l.arrivals (l.port c.forPort).reverse = (due, .controlArrive c) :: rest)
    (ack : c.ack = true) {bytes : Nat} (hbytes : bytes =
      (((l.port c.forPort).replay.dropWhile fun x => x.1 ≤ c.sequence).map Prod.snd).sum) :
    (l.window c.forPort).acked < c.sequence ∧
      (l.port c.forPort).nextSequence - 1 -
        ((l.port c.forPort).replay.dropWhile fun x => x.1 ≤ c.sequence).length = c.sequence ∧
      (Lines.setPort
        { l with arrivals := update l.arrivals (l.port c.forPort).reverse rest } c.forPort
        { l.port c.forPort with
          replay := (l.port c.forPort).replay.dropWhile fun x => x.1 ≤ c.sequence
          replayBytes := bytes }).Sound w := by
  have own : EventKind.ackFor c.forPort (.controlArrive c) = some c.sequence :=
    if_pos ⟨ack, rfl⟩
  have line : (l.window c.forPort).acks = c.sequence ::
      (rest.filterMap (fun y => y.2.ackFor c.forPort) ++
        (l.port (l.port c.forPort).reverse).control.filterMap (Control.ackFor c.forPort)) := by
    show (l.arrivals _).filterMap (fun y => y.2.ackFor c.forPort) ++ _ = _
    rw [hq]
    simp only [List.filterMap_cons, own]
    rfl
  have news := (h.windows c.forPort).mem_acks (by rw [line]; exact List.mem_cons_self)
  refine ⟨news.1, ((h.windows c.forPort).acked_learn line).1, h.paced.land hq,
    h.routed.setPort rfl (h.routed _), fun p => ?_,
    all_setPort (Port.Charged l.cap) h.charged ⟨hbytes, ?_⟩⟩
  · by_cases hp : p = c.forPort
    · subst hp
      rw [window_setPort (by rfl) (by rfl)]
      have rest' : ({ l with arrivals := update l.arrivals (l.port c.forPort).reverse rest
          }.window c.forPort) = { l.window c.forPort with acks := (l.window c.forPort).acks.tail } := by
        apply Window.ext
        · rfl
        · rfl
        · exact filterMap_land_none hq rfl _
        · rfl
        · rfl
        · rw [line]
          show (update l.arrivals _ rest _).filterMap (fun y => y.2.ackFor c.forPort) ++ _ = _
          rw [update_self]
          rfl
      rw [rest']
      exact (h.windows c.forPort).learn line
    · rw [window_setPort_ne (by rfl) (by rfl) hp]
      have same : ({ l with arrivals := update l.arrivals (l.port c.forPort).reverse rest
          }.window p) = l.window p := by
        apply Window.ext
        · rfl
        · rfl
        · exact filterMap_land_none hq rfl p
        · rfl
        · rfl
        · refine congrArg (· ++ _) (filterMap_land_none hq ?_ _)
          show c.ackFor p = none
          simp [Control.ackFor, Ne.symm hp]
      rw [same]
      exact h.windows p
  · -- What is let go makes room.
    have kept : ((l.port c.forPort).replay.dropWhile fun x => x.1 ≤ c.sequence).Sublist
        (l.port c.forPort).replay := List.dropWhile_sublist _
    have less := (kept.map Prod.snd).sum_le_sum (by simp)
    rw [← hbytes, ← (h.charged c.forPort).bytes] at less
    exact less.trans (h.charged c.forPort).room

theorem pushCredits (h : l.Sound w) {r : Nat} {cs : List Control}
    (hcs : ∀ c ∈ cs, c.ack = false ∧ (l.port c.forPort).reverse = r) :
    (l.setPort r { l.port r with control := (l.port r).control ++ cs }).Sound w := by
  have routed := h.routed.setPort (x := { l.port r with control := (l.port r).control ++ cs }) rfl fun c hc =>
    (List.mem_append.1 hc).elim (h.routed r c) fun new => (hcs c new).2
  refine ⟨h.paced, routed, fun q => ?_,
    all_setPort (Port.Charged l.cap) h.charged ⟨(h.charged r).bytes, (h.charged r).room⟩⟩
  have none : cs.filterMap (Control.ackFor q) = [] := by
    rw [List.filterMap_eq_nil_iff]
    intro c hc
    simp [Control.ackFor, (hcs c hc).1]
  rw [window_control, none, ite_self, List.append_nil]
  exact h.windows q

theorem pushAck (h : l.Sound w) (some : (l.port p).ackCount ≠ 0) {c : Control} (hack : c.ack = true)
    (hfor : c.forPort = p) (hseq : c.sequence = (l.port p).receivedSequence) :
    (Lines.setPort (l.setPort p { l.port p with ackCount := 0 }) (l.port p).reverse
      { (l.setPort p { l.port p with ackCount := 0 }).port (l.port p).reverse with
        control :=
          ((l.setPort p { l.port p with ackCount := 0 }).port (l.port p).reverse).control ++ [c]
      }).Sound w := by
  set m := l.setPort p { l.port p with ackCount := 0 } with hm
  have reverse : ∀ q, (m.port q).reverse = (l.port q).reverse := setPort_reverse rfl
  have charged : ∀ q, (m.port q).Charged l.cap :=
    all_setPort (Port.Charged l.cap) h.charged ⟨(h.charged p).bytes, (h.charged p).room⟩
  have routed : m.Routed := h.routed.setPort rfl (h.routed _)
  refine ⟨h.paced, ?_, fun q => ?_,
    all_setPort (Port.Charged l.cap) charged ⟨(charged _).bytes, (charged _).room⟩⟩
  · refine routed.setPort rfl fun d hd => ?_
    rcases List.mem_append.1 hd with old | new
    · exact routed _ d old
    · rw [List.mem_singleton.1 new, hfor, reverse]
  · rw [window_control, reverse]
    by_cases hq : q = p
    · subst hq
      have own : [c].filterMap (Control.ackFor q) = [(l.port q).receivedSequence] := by
        simp [Control.ackFor, hack, hfor, hseq]
      rw [if_pos rfl, own, hm, window_setPort (by rfl) (by rfl)]
      exact (h.windows q).acknowledge some
    · have other : [c].filterMap (Control.ackFor q) = [] := by
        simp [Control.ackFor, hfor, Ne.symm hq]
      rw [other, ite_self, List.append_nil, hm, window_setPort_ne (by rfl) (by rfl) hq]
      exact h.windows q

theorem sendControl (h : l.Sound w) (clock : w.Clock) (free : w.busy p = false) {c : Control}
    {cs : List Control} (hctl : (l.port p).control = c :: cs) {wire : Nat} (pos : 0 < wire) :
    (Lines.setPort
      { l with
        arrivals := update l.arrivals p
          (l.arrivals p ++ [(w.due (w.now + wire), .controlArrive c)]) } p
      { l.port p with control := cs }).Sound (w.transmit p wire) := by
  have routed := h.routed p c (by rw [hctl]; exact List.mem_cons_self)
  refine ⟨h.paced.transmit clock free pos _, ?_, fun q => ?_,
    all_setPort (Port.Charged l.cap) h.charged ⟨(h.charged p).bytes, (h.charged p).room⟩⟩
  · exact h.routed.setPort (by rfl) fun d hd => h.routed p d (by rw [hctl]; exact List.mem_cons_of_mem _ hd)
  -- The number of an ACK moves from the queue to the link.
  · have same : (Lines.setPort
        { l with
          arrivals := update l.arrivals p
            (l.arrivals p ++ [(w.due (w.now + wire), .controlArrive c)]) } p
        { l.port p with control := cs }).window q = l.window q := by
      apply Window.ext
      · exact update_same Port.nextSequence (by rfl) q
      · exact update_same Port.replay (by rfl) q
      · exact filterMap_send_none (f := EventKind.tlp) rfl q
      · exact update_same Port.receivedSequence (by rfl) q
      · exact update_same Port.ackCount (by rfl) q
      · show (update l.arrivals p _ (update l.port p _ q).reverse).filterMap
            (fun y => y.2.ackFor q) ++
          (update l.port p _ (update l.port p _ q).reverse).control.filterMap
            (Control.ackFor q) =
          (l.arrivals (l.port q).reverse).filterMap (fun y => y.2.ackFor q) ++
            (l.port (l.port q).reverse).control.filterMap (Control.ackFor q)
        rw [update_same Port.reverse (by rfl) q]
        by_cases back : (l.port q).reverse = p
        · rw [back, update_self (f := l.port), hctl]
          cases own : c.ackFor q with
          | none =>
              have silent : EventKind.ackFor q (.controlArrive c) = none := own
              rw [List.filterMap_cons_none own]
              exact congrArg (· ++ _) (filterMap_send_none silent p)
          | some n =>
              rw [List.filterMap_cons_some own]
              have sent := @filterMap_send_some _ _ l.arrivals (EventKind.ackFor q) p
                (w.due (w.now + wire)) (.controlArrive c) n own
              rw [sent, List.append_assoc]
              rfl
        · rw [update_of_ne back, update_of_ne back]
    rw [same]
    exact h.windows q

/-- A TLP leaves for the link under the next number, and stays in the replay buffer. -/
theorem sendFrame (h : l.Sound w) (clock : w.Clock) (free : w.busy p = false) {f : Frame}
    {size wire : Nat} (pos : 0 < wire) (room : (l.port p).replayBytes + size ≤ l.cap) :
    (Lines.setPort
      { l with
        arrivals := update l.arrivals p
          (l.arrivals p ++ [(w.due (w.now + wire), .frameArrive p f (l.port p).nextSequence)]) } p
      { l.port p with
        nextSequence := (l.port p).nextSequence + 1
        replay := (l.port p).replay ++ [((l.port p).nextSequence, size)]
        replayBytes := (l.port p).replayBytes + size }).Sound (w.transmit p wire) := by
  refine ⟨h.paced.transmit clock free pos _, h.routed.setPort rfl (h.routed _), fun q => ?_,
    all_setPort (Port.Charged l.cap) h.charged ⟨?_, room⟩⟩
  · by_cases hq : q = p
    · subst hq
      rw [window_setPort (by rfl) (by rfl)]
      have sent : ({ l with
          arrivals := update l.arrivals q
            (l.arrivals q ++
              [(w.due (w.now + wire), EventKind.frameArrive q f (l.port q).nextSequence)])
          }.window q) =
          { l.window q with flight := (l.window q).flight ++ [(l.port q).nextSequence] } := by
        apply Window.ext
        · rfl
        · rfl
        · exact filterMap_send_some (f := EventKind.tlp) rfl
        · rfl
        · rfl
        · exact congrArg (· ++ _) (filterMap_send_none (f := EventKind.ackFor q) rfl _)
      rw [sent]
      exact (h.windows q).send size
    · rw [window_setPort_ne (by rfl) (by rfl) hq]
      have same : ({ l with
          arrivals := update l.arrivals p
            (l.arrivals p ++
              [(w.due (w.now + wire), EventKind.frameArrive p f (l.port p).nextSequence)])
          }.window q) = l.window q := by
        apply Window.ext
        · rfl
        · rfl
        · show (update l.arrivals p _ q).filterMap (fun y => y.2.tlp) = _
          rw [update_of_ne hq]
          rfl
        · rfl
        · rfl
        · exact congrArg (· ++ _) (filterMap_send_none (f := EventKind.ackFor q) rfl _)
      rw [same]
      exact h.windows q
  · show (l.port p).replayBytes + size = (((l.port p).replay ++ [(_, size)]).map Prod.snd).sum
    rw [List.map_append, List.sum_append, ← (h.charged p).bytes]
    rfl

end Sound

end Lines

end ProtoBridge.Pcie
