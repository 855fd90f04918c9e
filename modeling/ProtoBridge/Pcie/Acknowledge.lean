import ProtoBridge.Pcie.Numbering
import ProtoBridge.Pcie.Steady

/-!
# The ledger of acknowledgements

`Book` keeps two records beside a fabric: the numbers of the TLPs that arrived over
each direction, and the numbers of the ACKs that came back for it. `replay_ledger`
states what the replay buffer, the counters and the ACK timer of a direction have to
do with these records in every run.
-/

namespace ProtoBridge.Pcie

open Lib Fabric
open Function (update update_of_ne update_self)

/-! ## Acknowledging, seen from outside -/

/-- Whoever waits for an ACK is one of less than `ackEvery`, and a timer runs unless the horizon
took it. -/
def Watch.Timed (v : Watch) (p : Nat) : Prop :=
  v.count p ≠ 0 → v.count p < v.topo.config.ackEvery ∧ (v.armed p = true ∨ v.lapsed p = true)

variable {p : Nat} {σ : Fabric}

theorem Watch.Timed.congr {v v' : Watch} (h : v.Timed p) (hcount : v'.count p = v.count p)
    (hconfig : v'.topo.config = v.topo.config) (harmed : v.armed p = true → v'.armed p = true)
    (hlapsed : v.lapsed p = true → v'.lapsed p = true) : v'.Timed p := by
  intro some
  rw [hcount] at some ⊢
  rw [hconfig]
  obtain ⟨few, timer⟩ := h some
  exact ⟨few, timer.imp harmed hlapsed⟩

variable {i q : Nat} {e : Event}

theorem isAck_eq {k : EventKind} (hp : isAck p k = true) (hq : isAck q k = true) : p = q := by
  cases k with
  | ackEvent r =>
      simp only [isAck, beq_iff_eq] at hp hq
      rw [hp, hq]
  | _ => cases hp

theorem armed_cancel (hq : q ≠ p) :
    (σ.cancel (isAck p)).isPending (isAck q) = σ.isPending (isAck q) := by
  simp only [isPending, cancel, List.any_filter]
  congr 1
  funext e
  cases hk : isAck q e.kind with
  | false => simp
  | true =>
      have other : isAck p e.kind = false := by
        by_contra same
        exact hq (isAck_eq hk (by simpa using same))
      simp [other]

theorem armed_popEvent {σ : Fabric} {i : Nat} {e : Event} (h : σ.Due i e) {q : Nat}
    (hq : isAck q e.kind = false) :
    (σ.popEvent i e).isPending (isAck q) = σ.isPending (isAck q) := by
  obtain ⟨u, v, events, rest⟩ := events_split h
  simp only [isPending, events, rest, List.any_append, List.any_cons, hq, Bool.false_or]

theorem watch_popEvent (h : σ.Due i e) (he : ∀ q, isAck q e.kind = false)
    : (σ.popEvent i e).watch = σ.watch := by
  have armed : ∀ q, (σ.popEvent i e).isPending (isAck q) = σ.isPending (isAck q) :=
    fun q => armed_popEvent h (he q)
  simp only [watch, armed]
  rfl

/-- `SendAck` leaves nothing to acknowledge. -/
theorem watch_sendAck (env : Env) (σ : Fabric) (p : Nat) :
    (sendAck env σ p).watch.topo = σ.watch.topo ∧
      (sendAck env σ p).watch.received = σ.watch.received ∧
      (sendAck env σ p).watch.acked = σ.watch.acked ∧ (sendAck env σ p).watch.count p = 0 ∧
      ∀ q, q ≠ p → (sendAck env σ p).watch.count q = σ.watch.count q ∧
        (sendAck env σ p).watch.armed q = σ.watch.armed q ∧
        (sendAck env σ p).watch.lapsed q = σ.watch.lapsed q := by
  unfold sendAck
  dsimp only
  split
  · rename_i none
    exact ⟨rfl, rfl, rfl, none, fun q hq => ⟨rfl, armed_cancel hq, rfl⟩⟩
  · rw [watch_pumpPort]
    set τ := (σ.cancel (isAck p)).modPort p fun port => { port with ackCount := 0 } with hτ
    have pushed : ((σ.cancel (isAck p)).pushAck p).watch = τ.watch := by
      show (τ.modPort _ _).watch = _
      exact watch_modPort rfl
    rw [pushed]
    have topo : τ.topo = σ.topo := topo_modPort rfl rfl rfl
    have keep : ∀ {β : Type} (F : Port → β) (q : Nat),
        F { σ.ports p with ackCount := 0 } = F (σ.ports p) → F (τ.ports q) = F (σ.ports q) :=
      fun F q hF => modPort_field (σ := σ.cancel (isAck p)) F hF q
    refine ⟨topo, funext fun q => keep Port.receivedSequence q rfl, funext fun q => ?_, ?_,
      fun q hq => ⟨?_, armed_cancel hq, rfl⟩⟩
    · exact keep (fun port => port.nextSequence - 1 - port.replay.length) q rfl
    · show (τ.ports p).ackCount = 0
      rw [hτ, modPort_ports, update_self]
    · show (τ.ports q).ackCount = _
      rw [hτ, modPort_ports, update_of_ne hq]
      rfl

theorem timed_sendAck (env : Env) (h : ∀ q, q ≠ p → σ.watch.Timed q) (q : Nat) :
    (sendAck env σ p).watch.Timed q := by
  obtain ⟨topo, -, -, none, others⟩ := watch_sendAck env σ p
  by_cases hq : q = p
  · subst hq
    intro some
    exact absurd none some
  · obtain ⟨count, armed, lapsed⟩ := others q hq
    exact (h q hq).congr count (by rw [topo]) (by rw [armed]; exact id) (by rw [lapsed]; exact id)

theorem watch_countTlp (σ : Fabric) (p seq : Nat) :
    (σ.countTlp p seq).watch =
      { σ.watch with
        received := update σ.watch.received p seq
        count := update σ.watch.count p (σ.watch.count p + 1) } := by
  have field : ∀ {β : Type} (F : Port → β) (g : Port → Port) (v : β), F (g (σ.ports p)) = v →
      (fun q => F ((σ.modPort p g).ports q)) = update (fun q => F (σ.ports q)) p v := by
    intro β F g v hv
    funext q
    by_cases hq : q = p
    · subst hq
      rw [modPort_ports, update_self, update_self, hv]
    · rw [modPort_ports, update_of_ne hq, update_of_ne hq]
  have topo : (σ.countTlp p seq).topo = σ.topo := topo_modPort rfl rfl rfl
  have received : (fun q => ((σ.countTlp p seq).ports q).receivedSequence) =
      update (fun q => (σ.ports q).receivedSequence) p seq :=
    field Port.receivedSequence _ _ rfl
  have count : (fun q => ((σ.countTlp p seq).ports q).ackCount) =
      update (fun q => (σ.ports q).ackCount) p ((σ.ports p).ackCount + 1) :=
    field Port.ackCount _ _ rfl
  have acked : (fun q => ((σ.countTlp p seq).ports q).nextSequence - 1 -
      ((σ.countTlp p seq).ports q).replay.length) =
      fun q => (σ.ports q).nextSequence - 1 - (σ.ports q).replay.length :=
    funext (modPort_field (fun port => port.nextSequence - 1 - port.replay.length) rfl)
  simp only [watch, topo, received, count, acked]
  rfl

/-- `AckReceivedTlp` notes the number of the TLP, and acknowledges it now or in time. -/
theorem watch_ackReceivedTlp (env : Env) {σ : Fabric} {p seq : Nat} :
    (ackReceivedTlp env σ p seq).watch.received = update σ.watch.received p seq ∧
      (ackReceivedTlp env σ p seq).watch.acked = σ.watch.acked ∧
      ((∀ q, σ.watch.Timed q) → ∀ q, (ackReceivedTlp env σ p seq).watch.Timed q) := by
  have counted := watch_countTlp σ p seq
  set τ := σ.countTlp p seq with hτ
  have others : (∀ q, σ.watch.Timed q) → ∀ q, q ≠ p → τ.watch.Timed q := by
    intro h q hq
    apply (h q).congr
    · rw [counted]
      exact update_of_ne hq _ _
    · rw [counted]
    · rw [counted]
      exact id
    · rw [counted]
      exact id
  have received : τ.watch.received = update σ.watch.received p seq := by rw [counted]
  have acked : τ.watch.acked = σ.watch.acked := by rw [counted]
  simp only [ackReceivedTlp, ← hτ]
  split
  · obtain ⟨-, same, same', -, -⟩ := watch_sendAck env τ p
    exact ⟨same.trans received, same'.trans acked, fun h => timed_sendAck env (others h)⟩
  · rename_i few
    split
    · rename_i pending
      refine ⟨received, acked, fun h q => ?_⟩
      by_cases hq : q = p
      · subst hq
        intro _
        exact ⟨Nat.not_le.1 few, .inl pending⟩
      · exact others h q hq
    · refine ⟨received, acked, fun h q => ?_⟩
      by_cases hq : q = p
      · subst hq
        intro _
        refine ⟨Nat.not_le.1 few, ?_⟩
        simp only [watch, isPending, schedule]
        split <;> simp [isAck]
      · refine (others h q hq).congr (by rfl) (by rfl) ?_ ?_
        · intro armed
          simp only [watch, isPending, schedule] at armed ⊢
          split
          · simp [armed]
          · exact armed
        · intro lapsed
          simp only [watch, schedule] at lapsed ⊢
          split
          · exact lapsed
          · simp [lapsed]

/-! ## What one event does to the numbers -/

/-- The last number received over each direction, after an event. -/
def EventKind.receives (received : Nat → Nat) : EventKind → Nat → Nat
  | .frameArrive p _ seq => update received p seq
  | _ => received

/-- The last number acknowledged in each direction, after an event. -/
def EventKind.acks (acked : Nat → Nat) : EventKind → Nat → Nat
  | .controlArrive c =>
      if c.ack = true then update acked c.forPort c.sequence else acked
  | _ => acked

theorem watch_takeAck {c : Control} (freed : (σ.ports c.forPort).nextSequence - 1 -
      (ackReplay c.sequence (σ.ports c.forPort).replay (σ.ports c.forPort).replayBytes).1.length =
      c.sequence) :
    (σ.takeAck c).watch =
      { σ.watch with acked := update σ.watch.acked c.forPort c.sequence } := by
  have topo : (σ.takeAck c).topo = σ.topo := topo_modPort rfl rfl rfl
  have received : ∀ q, ((σ.takeAck c).ports q).receivedSequence = (σ.ports q).receivedSequence :=
    modPort_field Port.receivedSequence rfl
  have count : ∀ q, ((σ.takeAck c).ports q).ackCount = (σ.ports q).ackCount :=
    modPort_field Port.ackCount rfl
  have acked : (fun q => ((σ.takeAck c).ports q).nextSequence - 1 -
      ((σ.takeAck c).ports q).replay.length) =
      update (fun q => (σ.ports q).nextSequence - 1 - (σ.ports q).replay.length) c.forPort
        c.sequence := by
    funext q
    by_cases hq : q = c.forPort
    · subst hq
      rw [update_self, takeAck, modPort_ports, update_self]
      exact freed
    · rw [update_of_ne hq, takeAck, modPort_ports, update_of_ne hq]
  simp only [watch, topo, received, count, acked]
  rfl

/-- What handling an event does to the numbers and the ACK timers. -/
theorem handle_watch (env : Env) (hdue : σ.Due i e)
    (freed : ∀ c, e.kind = .controlArrive c → c.ack = true →
      (σ.ports c.forPort).nextSequence - 1 -
        (ackReplay c.sequence (σ.ports c.forPort).replay (σ.ports c.forPort).replayBytes).1.length =
        c.sequence) :
    Yields (· = .pumpFuel) ((σ.popEvent i e).handle env e.kind) fun τ =>
      τ.watch.received = e.kind.receives σ.watch.received ∧
        τ.watch.acked = e.kind.acks σ.watch.acked ∧
        ((∀ q, σ.watch.Timed q) → ∀ q, τ.watch.Timed q) := by
  obtain ⟨t, k⟩ := e
  -- Most handlers leave the watched fields alone.
  have steady : (∀ q, isAck q k = false) → k.receives σ.watch.received = σ.watch.received →
      k.acks σ.watch.acked = σ.watch.acked →
      SameWatch (σ.popEvent i ⟨t, k⟩) ((σ.popEvent i ⟨t, k⟩).handle env k) id →
      Yields (· = .pumpFuel) ((σ.popEvent i ⟨t, k⟩).handle env k) fun τ =>
        τ.watch.received = k.receives σ.watch.received ∧ τ.watch.acked = k.acks σ.watch.acked ∧
          ((∀ q, σ.watch.Timed q) → ∀ q, τ.watch.Timed q) := by
    intro timer received acked same
    apply same.mono
    intro τ hτ
    have all : τ.watch = σ.watch := hτ.trans (watch_popEvent hdue timer)
    rw [all, received, acked]
    exact ⟨rfl, rfl, id⟩
  cases k with
  | busyEnd p =>
      apply steady (fun _ => rfl) rfl rfl
      exact .of_eq (watch_modPort rfl) (pumpNode_watch env _ _)
  | controlArrive c =>
      cases hack : c.ack with
      | false =>
          apply steady (fun _ => rfl) rfl (by simp [EventKind.acks, hack])
          show SameWatch _ (controlDone env _ c) id
          unfold controlDone
          simp only [hack, Bool.false_eq_true, ↓reduceIte]
          split_ifs
          · exact .error nofun
          · exact .ok ((watch_pumpPort ..).trans (watch_takeCredit ..))
      | true =>
          show Yields _ (controlDone env _ c) _
          unfold controlDone
          simp only [hack, ↓reduceIte]
          have taken := watch_takeAck (σ := σ.popEvent i ⟨t, .controlArrive c⟩) (freed c rfl hack)
          rw [watch_popEvent hdue fun _ => rfl] at taken
          apply Yields.ok
          rw [watch_pumpPort, taken]
          refine ⟨rfl, ?_, fun h q => (h q).congr rfl rfl id id⟩
          simp only [EventKind.acks, hack, ↓reduceIte]
  | frameArrive p f seq =>
      obtain ⟨received, acked, timed⟩ :=
        @watch_ackReceivedTlp env (σ.popEvent i ⟨t, .frameArrive p f seq⟩) p seq
      rw [watch_popEvent hdue fun _ => rfl] at received acked timed
      apply (receive_watch env (ackReceivedTlp env (σ.popEvent i ⟨t, .frameArrive p f seq⟩) p seq)
        _ f).mono
      intro τ hτ
      have all : τ.watch = _ := hτ
      rw [all, received, acked]
      exact ⟨rfl, rfl, timed⟩
  | fcEvent p =>
      apply steady (fun _ => rfl) rfl rfl
      exact .ok ((watch_pumpPort ..).trans (watch_flushReturn ..))
  | ackEvent p =>
      obtain ⟨-, received, acked, -, -⟩ := watch_sendAck env (σ.popEvent i ⟨t, .ackEvent p⟩) p
      refine Yields.ok ⟨received, acked, fun h => timed_sendAck env fun q hq => ?_⟩
      -- The timer of another direction is still pending.
      refine (h q).congr (by rfl) (by rfl) (fun armed => ?_) id
      have same := @armed_popEvent σ i ⟨t, .ackEvent p⟩ hdue q (by simpa [isAck] using hq)
      exact same.trans armed
  | wake p =>
      exact steady (fun _ => rfl) rfl rfl (pumpNode_watch env _ _)
  | readService n f =>
      apply steady (fun _ => rfl) rfl rfl
      exact .of_eq (watch_modNode rfl rfl) (pumpNode_watch env _ _)
  | writeService n f => exact steady (fun _ => rfl) rfl rfl (writeDone_watch _ f)
  | completionService n f => exact steady (fun _ => rfl) rfl rfl (completionDone_watch env _ n f)
  | callback id => exact steady (fun _ => rfl) rfl rfl (.ok rfl)

/-! ## The two records -/

/-- A fabric with the numbers of the TLPs that have arrived over each direction, and of the ACKs
that have come back for it. -/
structure Book where
  fab : Fabric
  arrived : Nat → List Nat := fun _ => []
  acked : Nat → List Nat := fun _ => []

namespace Book

/-- What is recorded when an event happens. -/
def write (b : Book) : EventKind → Book
  | .frameArrive p _ seq =>
      { b with arrived := update b.arrived p (b.arrived p ++ [seq]) }
  | .controlArrive c =>
      if c.ack = true then
        { b with acked := update b.acked c.forPort (b.acked c.forPort ++ [c.sequence]) }
      else b
  | _ => b

/-- What is recorded of an action. -/
def note (b : Book) : Act → Book
  | .fire i =>
      match b.fab.events[i]? with
      | some e => b.write e.kind
      | none => b
  | _ => b

def exec (env : Env) (b : Book) (a : Act) : Except Abort Book := do
  let fab ← b.fab.exec env a
  return { b.note a with fab }

/-- The runs of a fabric, recorded. -/
def machine (env : Env) : Machine Book Act Abort where
  init b := (Pcie.machine env).init b.fab ∧ (b.arrived = fun _ => []) ∧ b.acked = fun _ => []
  enabled b a := b.fab.enabled a
  exec := exec env

instance (env : Env) (b : Book) (a : Act) : Decidable ((machine env).enabled b a) :=
  inferInstanceAs (Decidable (b.fab.enabled a))

/-- The ACKs sent for `p`: those that have come back, those on the wire or lost past the horizon,
and those in the queue. -/
def sent (b : Book) (p : Nat) : List Nat := b.acked p ++ (b.fab.window p).acks

/-- The records agree with the counters of the fabric. -/
structure Agrees (b : Book) : Prop where
  arrived : ∀ p < b.fab.numPorts, b.arrived p = List.range' 1 (b.fab.watch.received p)
  rising : ∀ p < b.fab.numPorts, (0 :: b.acked p).Pairwise (· < ·)
  acked : ∀ p < b.fab.numPorts, (b.acked p).getLast?.getD 0 = b.fab.watch.acked p
  blank : ∀ p, b.fab.numPorts ≤ p → b.arrived p = [] ∧ b.acked p = []
  timed : ∀ p, b.fab.watch.Timed p

variable {b : Book}

variable {fab : Fabric} {env : Env}

theorem Agrees.congr (h : b.Agrees) (topo : fab.topo = b.fab.topo)
    (received : fab.watch.received = b.fab.watch.received)
    (acked : fab.watch.acked = b.fab.watch.acked) (timed : ∀ p, fab.watch.Timed p) :
    Agrees { b with fab } := by
  have ports : fab.numPorts = b.fab.numPorts := congrArg Topo.numPorts topo
  refine ⟨?_, ?_, ?_, ?_, timed⟩
  · show ∀ p < fab.numPorts, b.arrived p = List.range' 1 (fab.watch.received p)
    rw [ports, received]
    exact h.arrived
  · show ∀ p < fab.numPorts, _
    rw [ports]
    exact h.rising
  · show ∀ p < fab.numPorts, (b.acked p).getLast?.getD 0 = fab.watch.acked p
    rw [ports, acked]
    exact h.acked
  · show ∀ p, fab.numPorts ≤ p → _
    rw [ports]
    exact h.blank

/-- An event is recorded as it is counted. -/
theorem Agrees.write (h : b.Agrees) {k : EventKind} (topo : fab.topo = b.fab.topo)
    (received : fab.watch.received = k.receives b.fab.watch.received)
    (acked : fab.watch.acked = k.acks b.fab.watch.acked) (timed : ∀ p, fab.watch.Timed p)
    (frame : ∀ p f seq, k = .frameArrive p f seq →
      p < b.fab.numPorts ∧ seq = b.fab.watch.received p + 1)
    (ack : ∀ c, k = .controlArrive c → c.ack = true →
      c.forPort < b.fab.numPorts ∧ b.fab.watch.acked c.forPort < c.sequence) :
    Agrees { b.write k with fab } := by
  have ports : fab.numPorts = b.fab.numPorts := congrArg Topo.numPorts topo
  cases k with
  | frameArrive p f seq =>
      obtain ⟨lt, rfl⟩ := frame p f seq rfl
      refine ⟨fun q hq => ?_, ?_, ?_, fun q hq => ?_, timed⟩
      · rw [received]
        show update b.arrived p _ q =
          List.range' 1 (update b.fab.watch.received p _ q)
        by_cases same : q = p
        · subst same
          rw [update_self, update_self, h.arrived q lt, List.range'_concat,
            Nat.one_mul, Nat.add_comm 1]
        · rw [update_of_ne same, update_of_ne same]
          exact h.arrived q (ports ▸ hq)
      · show ∀ q < fab.numPorts, (0 :: b.acked q).Pairwise (· < ·)
        rw [ports]
        exact h.rising
      · show ∀ q < fab.numPorts, (b.acked q).getLast?.getD 0 = fab.watch.acked q
        rw [ports, acked]
        exact h.acked
      · have hq' : b.fab.numPorts ≤ q := ports ▸ hq
        have other : q ≠ p := by omega
        show update b.arrived p _ q = [] ∧ b.acked q = []
        rw [update_of_ne other]
        exact h.blank q hq'
  | controlArrive c =>
      cases hack : c.ack with
      | false =>
          simp only [EventKind.acks, hack, Bool.false_eq_true, ↓reduceIte] at acked
          simp only [Book.write, hack, Bool.false_eq_true, ↓reduceIte]
          exact h.congr topo received acked timed
      | true =>
          obtain ⟨lt, news⟩ := ack c rfl hack
          simp only [EventKind.acks, hack, ↓reduceIte] at acked
          simp only [Book.write, hack, ↓reduceIte]
          refine ⟨?_, fun q hq => ?_, fun q hq => ?_, fun q hq => ?_, timed⟩
          · show ∀ q < fab.numPorts, b.arrived q = List.range' 1 (fab.watch.received q)
            rw [ports, received]
            exact h.arrived
          · by_cases same : q = c.forPort
            · subst same
              show (0 :: update b.acked c.forPort _ c.forPort).Pairwise (· < ·)
              rw [update_self, ← List.cons_append, List.pairwise_append]
              refine ⟨h.rising _ lt, List.pairwise_singleton _ _, fun x hx y hy => ?_⟩
              rw [List.mem_singleton.1 hy]
              have top := Window.le_last (h.rising _ lt) (h.acked _ lt) x hx
              omega
            · show (0 :: update b.acked c.forPort _ q).Pairwise (· < ·)
              rw [update_of_ne same]
              exact h.rising q (ports ▸ hq)
          · rw [acked]
            show (update b.acked c.forPort _ q).getLast?.getD 0 =
              update b.fab.watch.acked c.forPort c.sequence q
            by_cases same : q = c.forPort
            · subst same
              rw [update_self, update_self, List.getLast?_concat]
              rfl
            · rw [update_of_ne same, update_of_ne same]
              exact h.acked q (ports ▸ hq)
          · have hq' : b.fab.numPorts ≤ q := ports ▸ hq
            have other : q ≠ c.forPort := by omega
            show b.arrived q = [] ∧ update b.acked c.forPort _ q = []
            rw [update_of_ne other]
            exact h.blank q hq'
  | busyEnd | fcEvent | ackEvent | wake | readService | writeService | completionService | callback =>
      exact h.congr topo received acked timed

/-- A new link has seen nothing, and the others are as they were. -/
theorem Agrees.addLink {b : Book} {fab : Fabric} {x y : Nat} (h : b.Agrees)
    (added : b.fab.addLink x y = .ok fab) : Agrees { b with fab } := by
  obtain ⟨-, heq⟩ := addLink_spec added
  have ports : fab.ports = linkPorts b.fab x y := by rw [heq]; rfl
  have count : fab.numPorts = b.fab.numPorts + 2 := by rw [heq]; rfl
  have config : fab.config = b.fab.config := by rw [heq]; rfl
  have events : fab.events = b.fab.events := by rw [heq]; rfl
  have dropped : fab.dropped = b.fab.dropped := by rw [heq]; rfl
  have old : ∀ p, p ≠ b.fab.numPorts → p ≠ b.fab.numPorts + 1 → fab.ports p = b.fab.ports p := by
    intro p h0 h1
    rw [ports, linkPorts, update_of_ne h1, update_of_ne h0]
  have fresh : ∀ p, p = b.fab.numPorts ∨ p = b.fab.numPorts + 1 → fab.watch.received p = 0 ∧
      fab.watch.acked p = 0 ∧ fab.watch.count p = 0 := by
    intro p hp
    simp only [watch, ports, linkPorts]
    rcases hp with rfl | rfl
    · rw [update_of_ne (by omega), update_self]
      exact ⟨rfl, rfl, rfl⟩
    · rw [update_self]
      exact ⟨rfl, rfl, rfl⟩
  have kept : ∀ p < b.fab.numPorts, fab.watch.received p = b.fab.watch.received p ∧
      fab.watch.acked p = b.fab.watch.acked p := by
    intro p hp
    simp only [watch, old p (by omega) (by omega), and_self]
  refine ⟨fun p hp => ?_, fun p hp => ?_, fun p hp => ?_, fun p hp => ?_, fun p => ?_⟩
  · by_cases lt : p < b.fab.numPorts
    · show b.arrived p = _
      rw [(kept p lt).1]
      exact h.arrived p lt
    · show b.arrived p = _
      rw [(fresh p (by dsimp only at hp; omega)).1, (h.blank p (by omega)).1]
      rfl
  · by_cases lt : p < b.fab.numPorts
    · exact h.rising p lt
    · show (0 :: b.acked p).Pairwise (· < ·)
      rw [(h.blank p (by omega)).2]
      exact List.pairwise_singleton _ _
  · by_cases lt : p < b.fab.numPorts
    · show (b.acked p).getLast?.getD 0 = _
      rw [(kept p lt).2]
      exact h.acked p lt
    · show (b.acked p).getLast?.getD 0 = _
      rw [(fresh p (by dsimp only at hp; omega)).2.1, (h.blank p (by omega)).2]
      rfl
  · exact h.blank p (by dsimp only at hp; omega)
  · by_cases new : p = b.fab.numPorts ∨ p = b.fab.numPorts + 1
    · intro some
      exact absurd (fresh p new).2.2 some
    · rw [not_or] at new
      apply (h.timed p).congr
      · simp only [watch, old p new.1 new.2]
      · exact config
      · simp only [watch, isPending, events, imp_self]
      · simp only [watch, dropped, imp_self]

theorem Agrees.exec {b' : Book} {a : Act} (wf : Snap.Wf ⟨b.fab, none⟩)
    (hs : Snap.Numbered ⟨b.fab, none⟩) (h : b.Agrees) (en : b.fab.enabled a)
    (ran : b.exec env a = .ok b') : b'.Agrees := by
  obtain ⟨fab, acted, done⟩ := bind_eq_ok.1 ran
  cases done
  cases a with
  | addNode k =>
      obtain ⟨-, rfl⟩ := addNode_spec acted
      exact ⟨h.arrived, h.rising, h.acked, h.blank, fun p => (h.timed p).congr rfl rfl id id⟩
  | addLink x y => exact h.addLink acted
  | submit r =>
      have same : fab.watch = b.fab.watch := (submit_watch env b.fab r).get acted
      exact h.congr (congrArg Watch.topo same) (by rw [same]) (by rw [same]) (by rw [same]; exact h.timed)
  | advance t =>
      cases acted
      exact h.congr rfl rfl rfl h.timed
  | fire i =>
      obtain ⟨e, he, hmin⟩ := en
      have hdue : b.fab.Due i e := ⟨he, hmin⟩
      obtain ⟨frame, ack⟩ := next_number hs wf hdue
      have handled : (b.fab.popEvent i e).handle env e.kind = .ok fab := by
        have := acted
        simp only [Fabric.exec, he] at this
        exact this
      have topo : fab.topo = b.fab.topo := (handle_topo env (b.fab.popEvent i e) e.kind).get handled
      obtain ⟨received, acked, timed⟩ :=
        (handle_watch env hdue fun c kind hack => (ack c kind hack).2.2).get handled
      have noted : b.note (.fire i) = b.write e.kind := by
        simp only [note, he]
      rw [noted]
      exact h.write topo received acked (timed h.timed) frame fun c kind hack =>
        ⟨(ack c kind hack).1, (ack c kind hack).2.1⟩

theorem reachable_agrees (h : (machine env).Reachable b) :
    (Pcie.machine env).Reachable b.fab ∧ b.Agrees := by
  induction h with
  | @init b start =>
      obtain ⟨start, arrived, acked⟩ := start
      refine ⟨.init start, ?_⟩
      obtain ⟨c, -, -, initial⟩ := start
      refine ⟨fun p hp => ?_, fun p hp => ?_, fun p hp => ?_, fun p _ => ?_, fun p some => ?_⟩
      · rw [initial] at hp
        exact absurd hp (Nat.not_lt_zero p)
      · rw [initial] at hp
        exact absurd hp (Nat.not_lt_zero p)
      · rw [initial] at hp
        exact absurd hp (Nat.not_lt_zero p)
      · rw [arrived, acked]
        exact ⟨rfl, rfl⟩
      · rw [initial] at some
        exact absurd rfl some
  | @step b a b' _ en ran ih =>
      obtain ⟨reach, agrees⟩ := ih
      obtain ⟨wf, hs⟩ := numbered_invariant env b.fab reach
      refine ⟨?_, agrees.exec wf hs en ran⟩
      obtain ⟨fab, acted, done⟩ := bind_eq_ok.1 ran
      cases done
      exact .step reach en acted

/-! ## The ledger -/

theorem Agrees.sent (h : b.Agrees) (hs : Snap.Numbered ⟨b.fab, none⟩) (hp : p < b.fab.numPorts) :
    (0 :: b.sent p).Pairwise (· < ·) ∧
      (b.sent p).getLast?.getD 0 + b.fab.watch.count p = b.fab.watch.received p := by
  have sound : (b.fab.window p).Sound := hs.lines.windows p
  have last : (b.acked p).getLast?.getD 0 = (b.fab.window p).acked := h.acked p hp
  have pending := sound.pending
  constructor
  · show (0 :: (b.acked p ++ (b.fab.window p).acks)).Pairwise (· < ·)
    rw [← List.cons_append, List.pairwise_append]
    refine ⟨h.rising p hp, (List.pairwise_cons.1 sound.acks).2, fun x hx y hy => ?_⟩
    have low := Window.le_last (h.rising p hp) last x hx
    have high := (sound.mem_acks hy).1
    omega
  · have joined : (b.sent p).getLast?.getD 0 =
        (b.fab.window p).acks.getLast?.getD (b.fab.window p).acked := by
      show (b.acked p ++ (b.fab.window p).acks).getLast?.getD 0 = _
      rw [List.getLast?_append, ← last]
      cases (b.fab.window p).acks.getLast? <;> rfl
    rw [joined]
    exact pending

/-- **The replay buffer and the ACK ledger.** For every direction of every link of a run: TLPs
arrive in the order of their numbers; the replay buffer holds those sent and not covered by an ACK
that came back, is charged for their sizes, and never exceeds its limit, not even inside an action;
the ACKs sent rise and name TLPs received; and whatever they leave out is counted by `ackCount`,
less than `ackEvery`, with a timer pending. -/
theorem replay_ledger (env : Env) {b : Book} (h : (machine env).Reachable b) {p : Nat}
    (hp : p < b.fab.numPorts) :
    (b.arrived p = List.range' 1 (b.fab.ports p).receivedSequence ∧
      b.arrived p ++ (b.fab.window p).flight =
        List.range' 1 ((b.fab.ports p).nextSequence - 1)) ∧
    ((b.fab.ports p).replay.map Prod.fst =
        (List.range' 1 ((b.fab.ports p).nextSequence - 1)).filter
          (fun n => ∀ a ∈ b.acked p, a < n) ∧
      ∃ first, (b.fab.ports p).replay.map Prod.fst =
        List.range' first (b.fab.ports p).replay.length) ∧
    ((b.fab.ports p).replayBytes = ((b.fab.ports p).replay.map Prod.snd).sum ∧
      ∀ s, Steps env ⟨b.fab, none⟩ s → ∀ q,
        (s.fab.ports q).replayBytes ≤ s.fab.config.replayBufferBytes) ∧
    ((b.sent p).Pairwise (· < ·) ∧ ∀ a ∈ b.sent p, a ∈ b.arrived p) ∧
    (b.fab.ports p).ackCount = ((b.arrived p).filter fun n => ∀ a ∈ b.sent p, a < n).length ∧
    ((∃ n ∈ b.arrived p, ∀ a ∈ b.sent p, a < n) →
      (b.fab.ports p).ackCount < b.fab.config.ackEvery ∧
        ((∀ k ∈ b.fab.dropped, isAck p k = false) → b.fab.isPending (isAck p) = true)) := by
  obtain ⟨reach, agrees⟩ := reachable_agrees h
  obtain ⟨-, hs⟩ := numbered_invariant env b.fab reach
  have sound : (b.fab.window p).Sound := hs.lines.windows p
  have arrived : b.arrived p = List.range' 1 (b.fab.ports p).receivedSequence :=
    agrees.arrived p hp
  have last : (b.acked p).getLast?.getD 0 = (b.fab.window p).acked := agrees.acked p hp
  have total : (b.fab.window p).acked + (b.fab.ports p).replay.length + 1 =
      (b.fab.ports p).nextSequence := sound.acked_add
  have behind : (b.fab.ports p).receivedSequence < (b.fab.ports p).nextSequence := sound.behind
  obtain ⟨rising, covered⟩ := agrees.sent hs hp
  have count : (b.sent p).getLast?.getD 0 + (b.fab.ports p).ackCount =
      (b.fab.ports p).receivedSequence := covered
  have kept : (b.fab.ports p).replay.map Prod.fst =
      List.range' ((b.fab.window p).acked + 1) (b.fab.ports p).replay.length := sound.kept
  have left : ((b.arrived p).filter fun n => ∀ a ∈ b.sent p, a < n) =
      List.range' ((b.sent p).getLast?.getD 0 + 1) (b.fab.ports p).ackCount := by
    rw [arrived, Window.uncovered_eq rising rfl (by omega),
      show (b.fab.ports p).receivedSequence - (b.sent p).getLast?.getD 0 =
        (b.fab.ports p).ackCount by omega]
  refine ⟨⟨arrived, ?_⟩, ⟨?_, _, kept⟩, ⟨(hs.lines.charged p).bytes, fun s within q => ?_⟩,
    ⟨(List.pairwise_cons.1 rising).2, fun a ha => ?_⟩, ?_, fun waits => ?_⟩
  · have flight : (b.fab.window p).flight = List.range' ((b.fab.ports p).receivedSequence + 1)
        ((b.fab.ports p).nextSequence - 1 - (b.fab.ports p).receivedSequence) := sound.flight
    have append := @List.range'_append_1 1 (b.fab.ports p).receivedSequence
      ((b.fab.ports p).nextSequence - 1 - (b.fab.ports p).receivedSequence)
    rw [Nat.add_comm 1, show (b.fab.ports p).receivedSequence +
      ((b.fab.ports p).nextSequence - 1 - (b.fab.ports p).receivedSequence) =
      (b.fab.ports p).nextSequence - 1 by omega] at append
    rw [arrived, flight, append]
  · rw [kept, Window.uncovered_eq (agrees.rising p hp) last (by omega)]
    congr 1
    omega
  · exact ((numbered_within reach within).2.lines.charged q).room
  · have low := List.rel_of_pairwise_cons rising ha
    have high := Window.le_last rising rfl a (List.mem_cons_of_mem 0 ha)
    rw [arrived, List.mem_range'_1]
    omega
  · rw [left, List.length_range']
  · obtain ⟨n, hn, above⟩ := waits
    have mem : n ∈ (b.arrived p).filter fun n => ∀ a ∈ b.sent p, a < n := by
      rw [List.mem_filter, decide_eq_true_eq]
      exact ⟨hn, above⟩
    have some : b.fab.watch.count p ≠ 0 := by
      intro none
      have none' : (b.fab.ports p).ackCount = 0 := none
      rw [left, none'] at mem
      cases mem
    obtain ⟨few, timer⟩ := agrees.timed p some
    refine ⟨few, fun kept => timer.resolve_right ?_⟩
    intro lapsed
    obtain ⟨k, hk, isAck⟩ := List.any_eq_true.1 lapsed
    rw [kept k hk] at isAck
    cases isAck

/-- A read over one link, up to the arrival of its first TLP. -/
def firstTlp : List Act :=
  [.addNode (.endpoint false false), .addNode (.endpoint false false), .addLink 0 1,
    .submit { read := true, requester := 0, target := 1, bytes := 512 }, .fire 0, .fire 0]

theorem firstTlp_waits :
    ((machine tickEnv).runs ⟨{ config := {} }, fun _ => [], fun _ => []⟩ firstTlp).map
      (fun b => (b.fab.numPorts, b.arrived 0, b.sent 0)) = some (2, [1], []) := by
  decide +kernel

/-- The TLP that arrived is counted and waits for less than `ackEvery` others. -/
theorem replay_ledger_firstTlp : ∃ b, (machine tickEnv).Reachable b ∧
    (b.fab.ports 0).ackCount = 1 ∧ (b.fab.ports 0).ackCount < b.fab.config.ackEvery := by
  obtain ⟨b, reach, vals⟩ := Machine.Reachable.exists_of_runs
    (M := machine tickEnv) ⟨⟨_, by constructor <;> decide, rfl, rfl⟩, rfl, rfl⟩ firstTlp_waits
  simp only [Prod.mk.injEq] at vals
  obtain ⟨ports, arrived, sent⟩ := vals
  obtain ⟨-, -, -, -, count, waits⟩ := replay_ledger tickEnv reach (p := 0) (by omega)
  rw [arrived, sent] at count waits
  exact ⟨b, reach, count, (waits ⟨1, by simp, by simp⟩).1⟩

end Book

end ProtoBridge.Pcie
