import Mathlib.Algebra.Order.BigOperators.Group.List
import ProtoBridge.Lib.Outcome
import ProtoBridge.Pcie.Wf

/-!
# What the node pump does, and what it leaves alone

Pumping moves frames between the queues of a node and its links. It never touches a
link itself, what a port has received and acknowledged, or an ACK timer: `Watch`
collects these, and each function of the pump keeps it.

The pump ends. Each round of its loop that makes progress puts a frame into an output
queue of the node. A queue takes no frame beyond `queuePackets`, and its port takes one
off before the link is busy for the rest of the pump. So `pumpBound` rounds are enough,
and no action of the fabric runs the loop out of them (`exec_ends`).
-/

namespace ProtoBridge.Pcie

open Lib Fabric
open Function (update_of_ne update_self)

/-- The links, and what acknowledging depends on: for each direction the last number received, how
many of them wait for an ACK, the last number acknowledged, and whether a timer is pending or was
discarded at the horizon. -/
structure Watch where
  topo : Topo
  received : Nat → Nat
  count : Nat → Nat
  acked : Nat → Nat
  armed : Nat → Bool
  lapsed : Nat → Bool

/-- The fields of a port that `Watch` sees. -/
def Port.watch (port : Port) : (Nat × Nat × Nat) × Nat × Nat × Nat :=
  ((port.src, port.dst, port.reverse), port.receivedSequence, port.ackCount,
    port.nextSequence - 1 - port.replay.length)

namespace Fabric

def watch (σ : Fabric) : Watch where
  topo := σ.topo
  received p := (σ.ports p).receivedSequence
  count p := (σ.ports p).ackCount
  acked p := (σ.ports p).nextSequence - 1 - (σ.ports p).replay.length
  armed p := σ.isPending (isAck p)
  lapsed p := σ.dropped.any (isAck p)

theorem watch_modPort {σ : Fabric} {p : Nat} {g : Port → Port}
    (h : (g (σ.ports p)).watch = (σ.ports p).watch) : (σ.modPort p g).watch = σ.watch := by
  have topo : (σ.modPort p g).topo = σ.topo := by
    simp only [Port.watch, Prod.mk.injEq] at h
    exact topo_modPort h.1.1 h.1.2.1 h.1.2.2
  have field := modPort_field Port.watch h
  have received := fun q => congrArg (fun x => x.2.1) (field q)
  have count := fun q => congrArg (fun x => x.2.2.1) (field q)
  have acked := fun q => congrArg (fun x => x.2.2.2) (field q)
  simp only [Port.watch] at received count acked
  simp only [watch, topo, received, count, acked]
  rfl

theorem watch_modNode {σ : Fabric} {n : Nat} {g : Node → Node}
    (h : (g (σ.nodes n)).ports = (σ.nodes n).ports)
    (hep : (g (σ.nodes n)).endpoint = (σ.nodes n).endpoint) : (σ.modNode n g).watch = σ.watch := by
  unfold watch
  rw [topo_modNode h hep]
  rfl

theorem watch_schedule {σ : Fabric} {d : Nat} {k : EventKind} (h : ∀ p, isAck p k = false) :
    (σ.schedule d k).watch = σ.watch := by
  have armed : ∀ p, (σ.schedule d k).isPending (isAck p) = σ.isPending (isAck p) := by
    intro p
    simp only [isPending, schedule]
    split <;> simp [h p]
  have lapsed : ∀ p, (σ.schedule d k).dropped.any (isAck p) = σ.dropped.any (isAck p) := by
    intro p
    simp only [schedule]
    split <;> simp [h p]
  simp only [watch, armed, lapsed]
  rfl

theorem watch_cancel {σ : Fabric} {is : EventKind → Bool}
    (h : ∀ k, is k = true → ∀ p, isAck p k = false) : (σ.cancel is).watch = σ.watch := by
  have armed : ∀ p, (σ.cancel is).isPending (isAck p) = σ.isPending (isAck p) := by
    intro p
    simp only [isPending, cancel, List.any_filter]
    congr 1
    funext e
    cases hk : is e.kind with
    | false => simp
    | true => simp [h e.kind hk p]
  simp only [watch, armed]
  rfl

@[simp] theorem watch_returnCredit (σ : Fabric) (f : Frame) :
    (σ.returnCredit f).1.watch = σ.watch :=
  returnCredit_keeps watch (fun _ _ _ => watch_modPort rfl)
    (fun _ _ _ => watch_schedule fun _ => rfl) σ f

@[simp] theorem watch_enqueue (σ : Fabric) (p : Nat) (f : Frame) :
    (σ.enqueue p f).watch = σ.watch :=
  watch_modPort rfl

theorem watch_sendFrame (env : Env) (σ : Fabric) (p i : Nat) (f : Frame) :
    (σ.sendFrame env p i f).watch = σ.watch := by
  rw [sendFrame_eq, watch_schedule fun _ => rfl, watch_schedule fun _ => rfl]
  rw [watch_modPort, detached, watch_returnCredit, watch_modPort rfl]
  -- One more number is given away and one more TLP is kept.
  simp only [Port.watch, transmitted, List.length_append, List.length_singleton, Prod.mk.injEq,
    true_and]
  omega

@[simp] theorem watch_pumpPort (env : Env) (σ : Fabric) (p : Nat) :
    (pumpPort env σ p).watch = σ.watch := by
  unfold pumpPort
  repeat' split
  · rfl
  · simp only [sendControl]
    rw [watch_schedule fun _ => rfl, watch_schedule fun _ => rfl, watch_modPort rfl]
  · exact watch_sendFrame ..
  · rfl
  · unfold armWake
    split
    · rfl
    · rw [watch_schedule fun _ => rfl, watch_cancel]
      intro k hk q
      cases k <;> first | rfl | cases hk

theorem watch_flushReturn (σ : Fabric) (p : Nat) : (σ.flushReturn p).watch = σ.watch := by
  simp only [flushReturn]
  rw [watch_modPort (by rfl), watch_modPort rfl]

theorem watch_takeCredit (σ : Fabric) (c : Control) : (σ.takeCredit c).watch = σ.watch :=
  watch_modPort rfl

end Fabric

/-! ## The room left at a node -/

namespace Fabric

/-- The frames a pump can still put into the queue of `p`: its free places, and one more while
the link is idle. -/
def room (σ : Fabric) (p : Nat) : Nat :=
  σ.config.queuePackets - (σ.ports p).queue.length + if (σ.ports p).busy then 0 else 1

/-- The same over all ports of a node. -/
def rooms (σ : Fabric) (n : Nat) : Nat := ((σ.nodes n).ports.map σ.room).sum

theorem rooms_lt_pumpBound (σ : Fabric) (n : Nat) : σ.rooms n < σ.pumpBound n := by
  have each : ∀ r ∈ (σ.nodes n).ports.map σ.room, r ≤ σ.config.queuePackets + 2 := by
    intro r hr
    obtain ⟨p, -, rfl⟩ := List.mem_map.1 hr
    unfold room
    split <;> omega
  have all := List.sum_le_card_nsmul _ _ each
  rw [List.length_map, nsmul_eq_mul] at all
  exact Nat.lt_succ_of_le all

end Fabric

/-- `τ` comes from `σ` by a part of a pump of node `n`: no port gets more room, and when a frame
was `moved` some port of the node has less. -/
structure Fills (n : Nat) (σ τ : Fabric) (moved : Bool) : Prop where
  watch : τ.watch = σ.watch
  room : ∀ p, τ.room p ≤ σ.room p
  less : moved = true → ∃ p ∈ (σ.nodes n).ports, τ.room p < σ.room p

namespace Fills

variable {n p : Nat} {σ τ υ : Fabric} {a b : Bool} {f : Frame}

theorem ports (h : Fills n σ τ a) : (τ.nodes n).ports = (σ.nodes n).ports :=
  congrFun (congrArg (fun w => w.topo.ports) h.watch) n

theorem same (watch : τ.watch = σ.watch) (ports : τ.ports = σ.ports) : Fills n σ τ false := by
  refine ⟨watch, fun p => ?_, nofun⟩
  have config : τ.config = σ.config := congrArg (fun w => w.topo.config) watch
  unfold Fabric.room
  rw [ports, config]

theorem refl : Fills n σ σ false := same rfl rfl

theorem trans (h : Fills n σ τ a) (h' : Fills n τ υ b) : Fills n σ υ (a || b) where
  watch := h'.watch.trans h.watch
  room p := (h'.room p).trans (h.room p)
  less := by
    intro moved
    rcases Bool.or_eq_true_iff.1 moved with first | second
    · obtain ⟨p, hp, lt⟩ := h.less first
      exact ⟨p, hp, (h'.room p).trans_lt lt⟩
    · obtain ⟨p, hp, lt⟩ := h'.less second
      exact ⟨p, h.ports ▸ hp, lt.trans_le (h.room p)⟩

theorem rooms_lt (h : Fills n σ τ true) : τ.rooms n < σ.rooms n := by
  unfold rooms
  rw [h.ports]
  exact List.sum_lt_sum _ _ (fun p _ => h.room p) (h.less rfl)

theorem enqueue (hp : p ∈ (σ.nodes n).ports) (hs : σ.space p = true) :
    Fills n σ (σ.enqueue p f) true := by
  have lt : (σ.enqueue p f).room p < σ.room p := by
    simp only [space, decide_eq_true_eq] at hs
    simp only [Fabric.room, Fabric.enqueue, modPort_ports, modPort_config, Function.update_self,
      List.length_append, List.length_singleton]
    omega
  refine ⟨watch_enqueue .., fun q => ?_, fun _ => ⟨p, hp, lt⟩⟩
  by_cases hq : q = p
  · subst hq
    exact lt.le
  · simp [Fabric.room, Fabric.enqueue, hq]

theorem launch {calls : Nat} (hp : p ∈ (σ.nodes n).ports) (hs : σ.space p = true) :
    Fills n σ (σ.launch calls p f) true :=
  (same (σ := σ) (τ := { σ with
    nextOrder := σ.nextOrder + 1
    calls := calls
    trace := σ.trace ++ [.created f] }) rfl rfl).trans (enqueue hp hs)

end Fills

/-! ## The links -/

theorem returnCredit_busy (σ : Fabric) (f : Frame) (q : Nat) :
    ((σ.returnCredit f).1.ports q).busy = (σ.ports q).busy :=
  returnCredit_keeps (fun σ => (σ.ports q).busy) (fun _ _ _ => modPort_field Port.busy rfl q)
    (fun _ _ _ => rfl) σ f

theorem room_sendFrame (env : Env) {σ : Fabric} {p i : Nat} {f : Frame} (q : Nat)
    (idle : (σ.ports p).busy = false) : (σ.sendFrame env p i f).room q ≤ σ.room q := by
  have core := core_sendFrame σ env p i f
  have config : (σ.sendFrame env p i f).config = σ.config :=
    show (σ.sendFrame env p i f).core.config = σ.core.config by
      rw [core]
      rfl
  have queue : ((σ.sendFrame env p i f).ports q).queue =
      ((σ.modPort p fun port => { port with queue := port.queue.eraseIdx i }).ports q).queue :=
    show ((σ.sendFrame env p i f).core.ports q).queue = _ by
      rw [core]
      rfl
  unfold room
  rw [config, queue]
  by_cases hq : q = p
  · subst hq
    have busy : ((σ.sendFrame env q i f).ports q).busy = true := by
      rw [sendFrame_eq]
      simp [transmitted]
    have shorter : (σ.ports q).queue.length ≤ ((σ.ports q).queue.eraseIdx i).length + 1 := by
      rw [List.length_eraseIdx]
      split <;> omega
    rw [busy, idle, modPort_ports, Function.update_self]
    simp only [Bool.false_eq_true, ↓reduceIte]
    omega
  · have busy : ((σ.sendFrame env p i f).ports q).busy = (σ.ports q).busy := by
      rw [sendFrame_eq]
      simp [hq, detached, returnCredit_busy]
    rw [busy, modPort_ports, Function.update_of_ne hq]

theorem pumpPort_fills (env : Env) (n : Nat) (σ : Fabric) (p : Nat) :
    Fills n σ (pumpPort env σ p) false := by
  refine ⟨watch_pumpPort .., fun q => ?_, nofun⟩
  unfold pumpPort
  cases idle : (σ.ports p).busy with
  | true => exact le_rfl
  | false =>
      simp only [Bool.false_eq_true, ↓reduceIte]
      split
      · by_cases hq : q = p
        · subst hq
          simp [sendControl, room, idle]
        · simp [sendControl, room, hq]
      · split
        · split
          · exact room_sendFrame env q idle
          · exact le_rfl
        · unfold armWake
          split <;> exact le_rfl

theorem pumpPorts_fills (env : Env) (n : Nat) (ps : List Nat) (σ : Fabric) :
    Fills n σ (ps.foldl (pumpPort env) σ) false := by
  induction ps generalizing σ with
  | nil => exact .refl
  | cons p ps ih => exact (pumpPort_fills env n σ p).trans (ih _)

/-! ## The pump -/

/-- `x` never runs out of rounds, and it leaves the watched fields alone when it returns. -/
def SameWatch (σ : Fabric) {α : Type} (x : Except Abort α) (fab : α → Fabric) : Prop :=
  Yields (· = .pumpFuel) x fun a => (fab a).watch = σ.watch

namespace SameWatch

variable {σ τ : Fabric} {α : Type} {x : Except Abort α} {fab : α → Fabric}

theorem ok {a : α} (h : (fab a).watch = σ.watch) : SameWatch σ (.ok a) fab := h

theorem error {e : Abort} (h : e ≠ .pumpFuel) : SameWatch σ (.error e : Except Abort α) fab := h

theorem of_eq (h : τ.watch = σ.watch) (hx : SameWatch τ x fab) : SameWatch σ x fab :=
  hx.mono fun _ ha => ha.trans h

theorem topo (h : SameWatch σ x fab) : Yields (· = .pumpFuel) x fun a => (fab a).topo = σ.topo :=
  h.mono fun _ ha => congrArg Watch.topo ha

end SameWatch

/-! ## The rounds -/

/-- `x` never runs out of rounds, and what it returns is a part of a pump of node `n` from `σ`. -/
def Pumps (n : Nat) (σ : Fabric) (x : Except Abort (Fabric × Bool)) : Prop :=
  Yields (· = .pumpFuel) x fun r => Fills n σ r.1 r.2

section Pumps

variable {n : Nat} {σ : Fabric}

theorem route_pumps {target : Nat} {β : Type} {f : Nat → Except Abort β} {Q : β → Prop}
    (hf : ∀ p ∈ (σ.nodes n).ports, Yields (· = .pumpFuel) (f p) Q) :
    Yields (· = .pumpFuel) (σ.route n target >>= f) Q := by
  unfold route
  cases found : σ.topo.route n target with
  | none => exact .error nofun
  | some p => exact hf p (Topo.route_mem found)

theorem resolve_pumps {address : Nat} {β : Type} {f : Nat → Except Abort β} {Q : β → Prop}
    (hf : ∀ target, Yields (· = .pumpFuel) (f target) Q) :
    Yields (· = .pumpFuel) (σ.resolve address >>= f) Q := by
  unfold resolve
  dsimp only
  split_ifs
  · exact .error nofun
  · exact hf _

theorem scanWaiting_pumps (k i : Nat) (τ : Fabric) (b : Bool) (h : Fills n σ τ b) :
    Pumps n σ (scanWaiting n k i τ b) := by
  induction k generalizing i τ b with
  | zero => exact .ok h
  | succ k ih =>
      unfold scanWaiting
      cases (τ.nodes n).waiting[i]? with
      | none => exact .ok h
      | some f =>
          refine route_pumps fun p hp => ?_
          by_cases full : τ.space p = false
          · rw [if_pos full]
            exact ih (i + 1) τ b h
          · rw [if_neg full]
            refine ih i _ true ?_
            have moved := h.trans (Fills.enqueue (f := f) hp (Bool.not_eq_false _ ▸ full))
            rw [Bool.or_true] at moved
            exact moved.trans (.same (watch_modNode rfl rfl) rfl)

theorem issueResponse_pumps (σ : Fabric) : Pumps n σ (issueResponse σ n) := by
  unfold issueResponse
  cases (σ.nodes n).responses with
  | nil => exact .ok .refl
  | cons response others =>
      refine route_pumps fun p hp => ?_
      by_cases full : σ.space p = false
      · rw [if_pos full]
        exact .ok .refl
      · rw [if_neg full]
        cases σ.transfers response.request.transaction with
        | none => exact .error nofun
        | some op =>
            dsimp only
            split_ifs
            · exact .error nofun
            · refine .ok ?_
              rw [respond_eq]
              exact (Fills.launch hp (Bool.not_eq_false _ ▸ full)).trans
                (.same (watch_modNode rfl rfl) rfl)

theorem issueFrame_fills (env : Env) (op : Transfer) {p : Nat} (bytes tag : Nat)
    (hp : p ∈ (σ.nodes n).ports) (hs : σ.space p = true) :
    Fills n σ (issueFrame env σ n op p bytes tag) true := by
  rw [issueFrame_eq]
  exact (Fills.launch hp hs).trans (.same rfl rfl)

theorem issueTransfer_pumps (env : Env) (σ : Fabric) (op : Transfer) :
    Pumps n σ (issueTransfer env σ n op) := by
  unfold issueTransfer
  by_cases all : op.next = op.bytes
  · rw [if_pos all]
    exact .ok .refl
  · rw [if_neg all]
    refine resolve_pumps fun target => route_pumps fun p hp => ?_
    by_cases full : σ.space p = false
    · rw [if_pos full]
      exact .ok .refl
    · rw [if_neg full]
      have space : σ.space p = true := Bool.not_eq_false _ ▸ full
      dsimp only
      split_ifs
      · exact .ok .refl
      · -- Opening the read touches no port.
        have opened : ∀ bytes tag, Fills n σ (σ.openRead n op bytes tag) false :=
          fun _ _ => .same (watch_modNode rfl rfl) rfl
        exact .ok ((opened _ _).trans
          (issueFrame_fills env op _ _ ((opened _ _).ports ▸ hp) space))
      · exact .ok (issueFrame_fills env op _ _ hp space)

theorem popTransfer_fills (σ : Fabric) (rd : Bool) : Fills n σ (σ.popTransfer n rd) false := by
  refine .same (watch_modNode ?_ ?_) rfl <;> cases rd <;> rfl

theorem pumpQueue_pumps (env : Env) (σ : Fabric) (rd : Bool) :
    Pumps n σ (pumpQueue env σ n rd) := by
  unfold pumpQueue
  cases σ.injection n rd with
  | nil => exact .ok .refl
  | cons id rest =>
      dsimp only
      cases σ.transfers id with
      | none => exact .ok (popTransfer_fills σ rd)
      | some op =>
          apply (issueTransfer_pumps env σ op).bind
          rintro ⟨τ, moved⟩ issued
          have popped := issued.trans (popTransfer_fills τ rd)
          rw [Bool.or_false] at popped
          dsimp only
          cases τ.transfers id with
          | none => exact .ok popped
          | some op' =>
              apply Yields.ok
              dsimp only
              split_ifs
              · exact popped
              · exact issued

/-- **A round that makes progress leaves less room at the node.** -/
theorem pumpRound_pumps (env : Env) (σ : Fabric) : Pumps n σ (pumpRound env σ n) := by
  apply (scanWaiting_pumps _ 0 σ false .refl).bind
  rintro ⟨σ₁, moved⟩ h₁
  apply (issueResponse_pumps σ₁).bind
  rintro ⟨σ₂, responded⟩ h₂
  apply (pumpQueue_pumps env σ₂ false).bind
  rintro ⟨σ₃, wrote⟩ h₃
  apply (pumpQueue_pumps env σ₃ true).bind
  rintro ⟨σ₄, issued⟩ h₄
  have round := (((h₁.trans h₂).trans h₃).trans h₄).trans (pumpPorts_fills env n (σ₄.nodes n).ports σ₄)
  rw [Bool.or_false] at round
  exact .ok round

end Pumps

theorem pumpLoop_watch (env : Env) (n fuel : Nat) (σ : Fabric) (enough : σ.rooms n < fuel) :
    SameWatch σ (pumpLoop env n fuel σ) id := by
  induction fuel generalizing σ with
  | zero => omega
  | succ fuel ih =>
      apply (pumpRound_pumps env σ).bind
      rintro ⟨τ, progress⟩ round
      cases progress with
      | true =>
          exact SameWatch.of_eq round.watch (ih τ (round.rooms_lt.trans_le (Nat.le_of_lt_succ enough)))
      | false => exact .ok round.watch

/-- **`PumpNode` ends**, and it leaves the watched fields alone. -/
theorem pumpNode_watch (env : Env) (σ : Fabric) (n : Nat) : SameWatch σ (pumpNode env σ n) id := by
  unfold pumpNode
  split_ifs
  · exact .ok rfl
  · apply SameWatch.of_eq (watch_modNode (n := n) (g := fun m => { m with pumping := true }) rfl rfl)
    apply (pumpLoop_watch env n _ _ (rooms_lt_pumpBound _ n)).bind
    intro σ' same
    exact .ok ((watch_modNode rfl rfl).trans same)

theorem finish_watch (σ : Fabric) (id : Nat) : (σ.finish id).watch = σ.watch := by
  unfold Fabric.finish
  cases σ.transfers id with
  | none => rfl
  | some op =>
      dsimp only
      split_ifs
      · rfl
      · exact watch_schedule fun _ => rfl
      · rfl

theorem retireRead_watch (σ : Fabric) (n : Nat) (r : ReadState) (op : Transfer) :
    (σ.retireRead n r op).watch = σ.watch := by
  exact watch_modNode (σ := σ) (n := n) (g := fun m =>
    { m with
      readBytes := wsub 64 m.readBytes r.bytes
      reads := m.reads.filter fun r' => r'.tag != r.tag }) rfl rfl

theorem receive_watch (env : Env) (σ : Fabric) (n : Nat) (f : Frame) :
    SameWatch σ (receive env σ n f) id := by
  unfold receive
  split_ifs
  · apply SameWatch.of_eq _ (pumpNode_watch env _ _)
    exact watch_modNode rfl rfl
  · cases f.header.type with
    | read =>
        apply SameWatch.ok
        exact (watch_schedule fun _ => rfl).trans (watch_returnCredit (σ.observe (.received f)) f)
    | write => exact .ok (watch_schedule fun _ => rfl)
    | completion => exact .ok (watch_schedule fun _ => rfl)

theorem completionDone_watch (env : Env) (σ : Fabric) (n : Nat) (f : Frame) :
    SameWatch σ (completionDone env σ n f) id := by
  unfold completionDone
  have accepts : ∀ r, (σ.acceptPiece n f r).watch = σ.watch := by
    intro r
    rw [show (σ.acceptPiece n f r).watch = _ from watch_returnCredit _ f]
    exact watch_modNode (σ := σ) (n := n) (g := fun m =>
      { m with reads := m.reads.map fun r' => if r'.tag == r.tag then r else r' }) rfl rfl
  cases (σ.nodes n).reads.find? fun r => r.tag == f.header.tag with
  | none => exact .error nofun
  | some r =>
      dsimp only
      split_ifs
      · exact .error nofun
      · exact .error nofun
      · cases (σ.acceptPiece n f (accepted r f)).transfers (accepted r f).transaction with
        | none => exact .error nofun
        | some op =>
            dsimp only
            split_ifs
            · exact .error nofun
            · apply SameWatch.of_eq _ (pumpNode_watch env _ _)
              rw [finish_watch, retireRead_watch]
              exact accepts _
      · exact .ok (accepts _)


theorem writeDone_watch (σ : Fabric) (f : Frame) : SameWatch σ (writeDone σ f) id := by
  unfold writeDone
  cases σ.transfers f.transaction with
  | none => exact .error nofun
  | some op =>
      dsimp only
      split_ifs
      · exact .error nofun
      · exact .ok ((finish_watch ..).trans (watch_returnCredit σ f))

theorem submit_watch (env : Env) (σ : Fabric) (r : Request) : SameWatch σ (σ.submit env r) id := by
  unfold submit
  split_ifs
  · exact .error nofun
  · exact .error nofun
  · apply SameWatch.of_eq _ (pumpNode_watch env _ _)
    rw [enter_eq]
    show (σ.modNode _ _).watch = σ.watch
    exact watch_modNode (queueTransfer_ports ..) (queueTransfer_endpoint ..)

/-! ## Only construction changes the topology -/

theorem handle_topo (env : Env) (σ : Fabric) (k : EventKind) :
    Yields (· = .pumpFuel) (σ.handle env k) fun τ => τ.topo = σ.topo := by
  cases k with
  | busyEnd p => exact (SameWatch.of_eq (watch_modPort rfl) (pumpNode_watch env _ _)).topo
  | controlArrive c =>
      show Yields _ (controlDone env σ c) _
      unfold controlDone
      dsimp only
      split_ifs
      · exact .ok ((topo_pumpPort ..).trans (topo_of_core (core_takeAck ..)))
      · exact .error nofun
      · exact .ok ((topo_pumpPort ..).trans (topo_of_core (core_takeCredit ..)))
  | frameArrive p f seq =>
      apply (receive_watch env (ackReceivedTlp env σ p seq) (σ.ports p).dst f).topo.mono
      intro τ same
      exact same.trans (topo_ackReceivedTlp ..)
  | fcEvent p => exact .ok ((topo_pumpPort ..).trans (topo_of_core (core_flushReturn ..)))
  | ackEvent p =>
      apply Yields.ok
      show (sendAck env σ p).topo = σ.topo
      unfold sendAck
      dsimp only
      split_ifs
      · rfl
      · rw [topo_pumpPort]
        exact topo_of_core (core_pushAck ..)
  | wake p => exact (pumpNode_watch env _ _).topo
  | readService n f =>
      exact (SameWatch.of_eq (watch_modNode rfl rfl) (pumpNode_watch env _ _)).topo
  | writeService n f => exact (writeDone_watch σ f).topo
  | completionService n f => exact (completionDone_watch env σ n f).topo
  | callback id => exact .ok rfl

/-- **Traffic never touches a link.** -/
theorem exec_topo (env : Env) (σ : Fabric) (a : Act) (hnode : ∀ k, a ≠ .addNode k)
    (hlink : ∀ x y, a ≠ .addLink x y) :
    Yields (· = .pumpFuel) (σ.exec env a) fun τ => τ.topo = σ.topo := by
  cases a with
  | addNode k => exact absurd rfl (hnode k)
  | addLink x y => exact absurd rfl (hlink x y)
  | submit r => exact (submit_watch env σ r).topo
  | advance t => exact .ok rfl
  | fire i =>
      simp only [exec]
      cases σ.events[i]? with
      | none => exact .ok rfl
      | some e => exact handle_topo env (σ.popEvent i e) e.kind

/-- **No action of the fabric runs a pump loop out of its rounds.** -/
theorem exec_ends (env : Env) (σ : Fabric) (a : Act) : σ.exec env a ≠ .error .pumpFuel := by
  intro stuck
  have ends := exec_topo env σ a
  rw [stuck] at ends
  cases a with
  | addNode k =>
      simp only [exec, addNode] at stuck
      split at stuck <;> cases stuck
  | addLink x y =>
      simp only [exec, addLink] at stuck
      repeat' split at stuck
      all_goals cases stuck
  | submit | advance | fire => exact ends (by simp) (by simp) rfl

end ProtoBridge.Pcie
