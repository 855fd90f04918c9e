import ProtoBridge.Lib.Bag
import ProtoBridge.Pcie.Fabric

/-!
# Atomic steps of the fabric

Every action is a chain of atomic steps: one event leaves the calendar, one
frame changes place, one DLLP is queued or sent. `Micro` lists them with all the
guards under which the source takes them, and `exec_leads` shows that an action
is such a chain, ending either in the resulting state or in a state where the
abort condition of `Fails` holds. Invariants are then proved step by step, once
for each entry of the list, and never unfold the pump loops again.
-/

namespace ProtoBridge.Pcie

open Lib Relation

/-- A fabric in the middle of an action. `hand` is the frame that the closure of
a reception holds, with the port it arrived on. -/
structure Snap where
  fab : Fabric
  hand : Option (Nat × Frame) := none

namespace Fabric

/-- Event `e` at position `i` may fire: no pending event is earlier. -/
def Due (σ : Fabric) (i : Nat) (e : Event) : Prop :=
  σ.events[i]? = some e ∧ ∀ e' ∈ σ.events, e.time ≤ e'.time

/-- The guards of `Submit`. -/
structure Accepts (σ : Fabric) (r : Request) : Prop where
  requester_lt : r.requester < σ.numNodes
  target_lt : r.target < σ.numNodes
  requester_ep : (σ.nodes r.requester).endpoint = true
  target_ep : (σ.nodes r.target).endpoint = true
  distinct : r.requester ≠ r.target
  bytes_pos : 0 < r.bytes
  offset_lt : r.offset < window
  bytes_le : r.bytes ≤ window - r.offset

/-- The guards of `IssueTransfer` shared by reads and writes. -/
structure Issues (σ : Fabric) (node : Nat) (op : Transfer) (id p : Nat) : Prop where
  front : ∃ rd rest, σ.injection node rd = id :: rest
  live : σ.transfers id = some op
  more : op.next ≠ op.bytes
  resolved : σ.resolve op.address = .ok (op.address / window - 1)
  route : σ.topo.route node (op.address / window - 1) = some p
  space : σ.space p = true

end Fabric

open Fabric

/-- The atomic steps. -/
inductive Micro (env : Env) : Snap → Snap → Prop
  | addNode {σ σ' k} : σ.addNode k = .ok σ' → Micro env ⟨σ, none⟩ ⟨σ', none⟩
  | addLink {σ σ' a b} : σ.addLink a b = .ok σ' → Micro env ⟨σ, none⟩ ⟨σ', none⟩
  | enter {σ r} : σ.Accepts r → Micro env ⟨σ, none⟩ ⟨σ.enter (σ.newTransfer r), none⟩
  | advance {σ t} : σ.now ≤ t → t ≤ timeMax → (∀ e ∈ σ.events, t ≤ e.time) →
      Micro env ⟨σ, none⟩ ⟨{ σ with now := t }, none⟩
  | popBusy {σ i t p} : σ.Due i ⟨t, .busyEnd p⟩ →
      Micro env ⟨σ, none⟩
        ⟨(σ.popEvent i ⟨t, .busyEnd p⟩).modPort p fun port => { port with busy := false }, none⟩
  | popCredit {σ i t c} : σ.Due i ⟨t, .controlArrive c⟩ → c.ack = false →
      Micro env ⟨σ, none⟩ ⟨(σ.popEvent i ⟨t, .controlArrive c⟩).takeCredit c, none⟩
  | popAckDllp {σ i t c} : σ.Due i ⟨t, .controlArrive c⟩ → c.ack = true →
      Micro env ⟨σ, none⟩ ⟨(σ.popEvent i ⟨t, .controlArrive c⟩).takeAck c, none⟩
  | popFrame {σ i t p f seq} : σ.Due i ⟨t, .frameArrive p f seq⟩ →
      Micro env ⟨σ, none⟩
        ⟨(σ.popEvent i ⟨t, .frameArrive p f seq⟩).countTlp p seq, some (p, f)⟩
  | popFc {σ i t p} : σ.Due i ⟨t, .fcEvent p⟩ →
      Micro env ⟨σ, none⟩ ⟨(σ.popEvent i ⟨t, .fcEvent p⟩).flushReturn p, none⟩
  | popAckTimer {σ i t p} : σ.Due i ⟨t, .ackEvent p⟩ →
      Micro env ⟨σ, none⟩ ⟨σ.popEvent i ⟨t, .ackEvent p⟩, none⟩
  | popWake {σ i t p} : σ.Due i ⟨t, .wake p⟩ →
      Micro env ⟨σ, none⟩ ⟨σ.popEvent i ⟨t, .wake p⟩, none⟩
  | popRead {σ i t n f} : σ.Due i ⟨t, .readService n f⟩ →
      Micro env ⟨σ, none⟩
        ⟨(σ.popEvent i ⟨t, .readService n f⟩).modNode n
          fun m => { m with responses := m.responses ++ [⟨f, 0⟩] }, none⟩
  | popWrite {σ i t n f op} : σ.Due i ⟨t, .writeService n f⟩ →
      σ.transfers f.transaction = some op → op.pending ≠ 0 →
      Micro env ⟨σ, none⟩ ⟨(σ.popEvent i ⟨t, .writeService n f⟩).landWrite f op, none⟩
  | popCompletion {σ i t n f r} : σ.Due i ⟨t, .completionService n f⟩ →
      (σ.nodes n).reads.find? (fun r => r.tag == f.header.tag) = some r →
      mismatch r f = false → overlaps r.pieces f.offset f.header.bytes = false →
      Micro env ⟨σ, none⟩
        ⟨(σ.popEvent i ⟨t, .completionService n f⟩).acceptPiece n f (accepted r f), none⟩
  | retire {σ n r op} : (σ.nodes n).reads.find? (fun r' => r'.tag == r.tag) = some r →
      r.received = r.bytes → σ.transfers r.transaction = some op → op.pending ≠ 0 →
      Micro env ⟨σ, none⟩ ⟨σ.retireRead n r op, none⟩
  | popCallback {σ i t id} : σ.Due i ⟨t, .callback id⟩ →
      Micro env ⟨σ, none⟩ ⟨σ.popEvent i ⟨t, .callback id⟩, none⟩
  | cancelAck {σ h p} : Micro env ⟨σ, h⟩ ⟨σ.cancel (isAck p), h⟩
  | pushAck {σ h p} : (σ.ports p).ackCount ≠ 0 → Micro env ⟨σ, h⟩ ⟨σ.pushAck p, h⟩
  | armAck {σ h p} : (σ.ports p).ackCount ≠ 0 → σ.isPending (isAck p) = false →
      Micro env ⟨σ, h⟩ ⟨σ.schedule σ.config.ackDelay (.ackEvent p), h⟩
  | sendControl {σ h p c rest} : (σ.ports p).busy = false → (σ.ports p).control = c :: rest →
      Micro env ⟨σ, h⟩ ⟨σ.sendControl env p c rest, h⟩
  | sendFrame {σ h p i f} : (σ.ports p).busy = false → (σ.ports p).control = [] →
      (σ.ports p).queue[i]? = some f → σ.eligible p f = true →
      Micro env ⟨σ, h⟩ ⟨σ.sendFrame env p i f, h⟩
  | armWake {σ h p} : (σ.ports p).busy = false → (σ.ports p).control = [] → σ.pick p = none →
      Micro env ⟨σ, h⟩ ⟨σ.armWake p, h⟩
  | forward {σ p f} : (σ.ports p).dst ≠ f.destination →
      Micro env ⟨σ, some (p, f)⟩ ⟨σ.forward (σ.ports p).dst f, none⟩
  | holdRead {σ p f calls delay} : (σ.ports p).dst = f.destination → f.header.type = .read →
      Micro env ⟨σ, some (p, f)⟩
        ⟨({ ((σ.observe (.received f)).returnCredit f).1 with calls }).schedule delay
          (.readService f.destination ((σ.observe (.received f)).returnCredit f).2), none⟩
  | holdWrite {σ p f calls delay} : (σ.ports p).dst = f.destination → f.header.type = .write →
      Micro env ⟨σ, some (p, f)⟩
        ⟨({ σ.observe (.received f) with calls }).schedule delay
          (.writeService f.destination f), none⟩
  | holdCompletion {σ p f calls delay} : (σ.ports p).dst = f.destination →
      f.header.type = .completion →
      Micro env ⟨σ, some (p, f)⟩
        ⟨({ σ.observe (.received f) with calls }).schedule delay
          (.completionService f.destination f), none⟩
  | assign {σ n i f p} : (σ.nodes n).waiting[i]? = some f →
      σ.topo.route n f.destination = some p → σ.space p = true →
      (∀ j g, j < i → (σ.nodes n).waiting[j]? = some g →
        σ.topo.route n g.destination ≠ some p) →
      Micro env ⟨σ, none⟩
        ⟨(σ.enqueue p f).modNode n fun m => { m with waiting := m.waiting.eraseIdx i }, none⟩
  | respond {σ n response others op p} : (σ.nodes n).responses = response :: others →
      σ.topo.route n response.request.header.requester = some p → σ.space p = true →
      σ.transfers response.request.transaction = some op →
      completionBytes σ.config response ≠ 0 →
      Micro env ⟨σ, none⟩
        ⟨σ.respond n response others op p (completionBytes σ.config response), none⟩
  | issueWrite {σ n op id p} : σ.Issues n op id p → op.read = false →
      Micro env ⟨σ, none⟩ ⟨issueFrame env σ n op p (requestBytes σ.config op) 0, none⟩
  | issueRead {σ n op id p} : σ.Issues n op id p → op.read = true →
      windowFull σ.config (σ.nodes n) (requestBytes σ.config op) = false →
      Micro env ⟨σ, none⟩
        ⟨issueFrame env
          (σ.openRead n op (requestBytes σ.config op) (freeTag (σ.nodes n).reads σ.config.tags 0))
          n op p (requestBytes σ.config op) (freeTag (σ.nodes n).reads σ.config.tags 0), none⟩
  | popTransfer {σ n rd id rest} : σ.injection n rd = id :: rest →
      (∀ op, σ.transfers id = some op → op.next = op.bytes) →
      Micro env ⟨σ, none⟩ ⟨σ.popTransfer n rd, none⟩
  | finish {σ id op} : σ.transfers id = some op → op.next = op.bytes → op.pending = 0 →
      Micro env ⟨σ, none⟩ ⟨σ.finish id, none⟩
  | pumping {σ n b} : Micro env ⟨σ, none⟩ ⟨σ.modNode n fun m => { m with pumping := b }, none⟩

/-- Chains of atomic steps. -/
abbrev Steps (env : Env) : Snap → Snap → Prop := ReflTransGen (Micro env)

/-- The condition under which the source raises each abort of a running fabric. -/
def Fails : Abort → Fabric → Prop
  | .creditOverflow, σ => ∃ i t c, σ.Due i ⟨t, .controlArrive c⟩ ∧ c.ack = false ∧
      ∃ k, σ.config.credits k < wadd 32 ((σ.ports c.forPort).available k) (c.credits k)
  | .unknownWrite, σ => ∃ i t n f, σ.Due i ⟨t, .writeService n f⟩ ∧
      ∀ op, σ.transfers f.transaction = some op → op.pending = 0
  | .noLiveTag, σ => ∃ i t n f, σ.Due i ⟨t, .completionService n f⟩ ∧
      ∀ r ∈ (σ.nodes n).reads, r.tag ≠ f.header.tag
  | .completionMismatch, σ => ∃ i t n f r, σ.Due i ⟨t, .completionService n f⟩ ∧
      (σ.nodes n).reads.find? (fun r => r.tag == f.header.tag) = some r ∧ mismatch r f = true
  | .overlappingCompletion, σ => ∃ i t n f r, σ.Due i ⟨t, .completionService n f⟩ ∧
      (σ.nodes n).reads.find? (fun r => r.tag == f.header.tag) = some r ∧
      overlaps r.pieces f.offset f.header.bytes = true
  | .unknownRead, σ => ∃ n, ∃ r ∈ (σ.nodes n).reads,
      ∀ op, σ.transfers r.transaction = some op → op.pending = 0
  | .lostTransaction, σ => ∃ n response others, (σ.nodes n).responses = response :: others ∧
      σ.transfers response.request.transaction = none
  | .splitNoProgress, σ => ∃ n response others, (σ.nodes n).responses = response :: others ∧
      completionBytes σ.config response = 0
  | _, _ => True

/-! ## What the link layer leaves alone -/

/-- The fields of a port that outlive one link transaction. -/
def Port.core (port : Port) : Port :=
  { src := port.src, dst := port.dst, reverse := port.reverse, queue := port.queue }

namespace Fabric

/-- The state without clock, calendar and link-level bookkeeping. Credits,
acknowledgements and timers never touch it. -/
def core (σ : Fabric) : Fabric :=
  { σ with ports := fun p => (σ.ports p).core, events := [], dropped := [], now := 0 }

variable {σ : Fabric} {p : Nat} {g : Port → Port}

variable {α : Type*} {n : Nat}

theorem modPort_field (F : Port → α) (h : F (g (σ.ports p)) = F (σ.ports p)) (q : Nat) :
    F ((σ.modPort p g).ports q) = F (σ.ports q) :=
  update_same F h q

theorem modNode_field (F : Node → α) {g : Node → Node} (h : F (g (σ.nodes n)) = F (σ.nodes n))
    (m : Nat) : F ((σ.modNode n g).nodes m) = F (σ.nodes m) :=
  update_same F h m

theorem core_modPort (h : (g (σ.ports p)).core = (σ.ports p).core)
    : (σ.modPort p g).core = σ.core := by
  have hports : (fun q => ((σ.modPort p g).ports q).core) = fun q => (σ.ports q).core :=
    funext (modPort_field Port.core h)
  unfold core
  rw [hports]
  rfl

theorem mem_schedule {d : Nat} {k : EventKind} {e : Event} (h : e ∈ (σ.schedule d k).events)
    : e ∈ σ.events ∨ e = ⟨σ.now + d, k⟩ := by
  rw [schedule_events] at h
  split at h
  · simpa using h
  · exact .inl h

@[simp] theorem core_schedule (σ : Fabric) (d : Nat) (k : EventKind) :
    (σ.schedule d k).core = σ.core := rfl

@[simp] theorem core_cancel (σ : Fabric) (is : EventKind → Bool) : (σ.cancel is).core = σ.core := rfl

@[simp] theorem core_popEvent (σ : Fabric) (i : Nat) (e : Event) :
    (σ.popEvent i e).core = σ.core := rfl

/-- What neither the credits to return nor the UpdateFC timer touch stays when a frame's credits are
returned. -/
theorem returnCredit_keeps (F : Fabric → α)
    (credit : ∀ σ p (pending : Port → Fin 6 → Nat),
      F (modPort σ p fun port => { port with pendingReturn := pending port }) = F σ)
    (timer : ∀ σ d p, F (schedule σ d (.fcEvent p)) = F σ) (σ : Fabric) (f : Frame) :
    F (σ.returnCredit f).1 = F σ := by
  unfold returnCredit
  cases f.ingress with
  | none => rfl
  | some p =>
      dsimp only
      split
      · exact credit ..
      · rw [timer]
        exact credit ..

@[simp] theorem core_returnCredit (σ : Fabric) (f : Frame) : (σ.returnCredit f).1.core = σ.core :=
  returnCredit_keeps core (fun _ _ _ => core_modPort rfl) (fun _ _ _ => rfl) σ f

@[simp] theorem core_flushReturn (σ : Fabric) (p : Nat) : (σ.flushReturn p).core = σ.core := by
  unfold flushReturn
  dsimp only
  rw [core_modPort (by rfl), core_modPort rfl]

@[simp] theorem core_pushAck (σ : Fabric) (p : Nat) : (σ.pushAck p).core = σ.core := by
  unfold pushAck
  dsimp only
  rw [core_modPort (by rfl), core_modPort rfl]

@[simp] theorem core_countTlp (σ : Fabric) (p seq : Nat) : (σ.countTlp p seq).core = σ.core :=
  core_modPort rfl

@[simp] theorem core_takeAck (σ : Fabric) (c : Control) : (σ.takeAck c).core = σ.core :=
  core_modPort rfl

@[simp] theorem core_takeCredit (σ : Fabric) (c : Control) : (σ.takeCredit c).core = σ.core :=
  core_modPort rfl

@[simp] theorem core_sendControl (σ : Fabric) (env : Env) (p : Nat) (c : Control)
    (rest : List Control) : (σ.sendControl env p c rest).core = σ.core := by
  simp only [sendControl, core_schedule]
  exact core_modPort rfl

@[simp] theorem core_armWake (σ : Fabric) (p : Nat) : (σ.armWake p).core = σ.core := by
  unfold armWake
  split <;> rfl

theorem core_sendFrame (σ : Fabric) (env : Env) (p i : Nat) (f : Frame) :
    (σ.sendFrame env p i f).core =
      (σ.modPort p fun port => { port with queue := port.queue.eraseIdx i }).core := by
  simp only [sendFrame, core_schedule]
  rw [core_modPort (by rfl), core_returnCredit]

/-! ## Links never change while traffic runs -/

theorem topo_of_core {σ' : Fabric} (h : σ'.core = σ.core) : σ'.topo = σ.topo :=
  show σ'.core.topo = σ.core.topo by rw [h]

theorem topo_modPort (hsrc : (g (σ.ports p)).src = (σ.ports p).src)
    (hdst : (g (σ.ports p)).dst = (σ.ports p).dst)
    (hrev : (g (σ.ports p)).reverse = (σ.ports p).reverse) : (σ.modPort p g).topo = σ.topo := by
  have h1 := funext (modPort_field Port.src hsrc)
  have h2 := funext (modPort_field Port.dst hdst)
  have h3 := funext (modPort_field Port.reverse hrev)
  unfold topo
  rw [h1, h2, h3]
  rfl

theorem topo_modNode {g : Node → Node} (h : (g (σ.nodes n)).ports = (σ.nodes n).ports)
    (hep : (g (σ.nodes n)).endpoint = (σ.nodes n).endpoint) : (σ.modNode n g).topo = σ.topo := by
  have h1 := funext (modNode_field Node.ports h)
  have h2 := funext (modNode_field Node.endpoint hep)
  unfold topo
  rw [h1, h2]
  rfl

@[simp] theorem topo_enqueue (σ : Fabric) (p : Nat) (f : Frame) :
    (σ.enqueue p f).topo = σ.topo :=
  topo_modPort rfl rfl rfl

@[simp] theorem topo_sendFrame (σ : Fabric) (env : Env) (p i : Nat) (f : Frame) :
    (σ.sendFrame env p i f).topo = σ.topo :=
  (topo_of_core (core_sendFrame σ env p i f)).trans (topo_modPort rfl rfl rfl)

@[simp] theorem topo_returnCredit (σ : Fabric) (f : Frame) :
    (σ.returnCredit f).1.topo = σ.topo :=
  topo_of_core (core_returnCredit σ f)

@[simp] theorem topo_pumpPort (env : Env) (σ : Fabric) (p : Nat) :
    (pumpPort env σ p).topo = σ.topo := by
  unfold pumpPort
  repeat' split
  · rfl
  · exact topo_of_core (core_sendControl ..)
  · exact topo_sendFrame ..
  · rfl
  · exact topo_of_core (core_armWake ..)

@[simp] theorem topo_ackReceivedTlp (env : Env) (σ : Fabric) (p seq : Nat) :
    (ackReceivedTlp env σ p seq).topo = σ.topo := by
  simp only [ackReceivedTlp, sendAck]
  repeat' split
  · exact topo_of_core (by simp)
  · rw [topo_pumpPort]
    exact topo_of_core (by simp)
  · exact topo_of_core (by simp)
  · exact topo_of_core (by simp)

end Fabric

/-! ## Actions are chains of atomic steps -/

/-- The computation `r`, started in `s`, performs a chain of atomic steps that
ends in its result or in a state where its abort condition holds. -/
def Leads (env : Env) (s : Snap) {α : Type} (r : Except Abort α) (fab : α → Fabric) : Prop :=
  match r with
  | .ok a => Steps env s ⟨fab a, none⟩
  | .error e => ∃ s', Steps env s s' ∧ Fails e s'.fab

variable {env : Env} {β : Type} {σ : Fabric}

variable {s : Snap} {α : Type} {n p src target : Nat} {r : ReadState}

theorem Leads.bind {x : Except Abort α} {fab : α → Fabric} {f : α → Except Abort β}
    {fab' : β → Fabric} (hx : Leads env s x fab)
    (hf : ∀ a, x = .ok a → Leads env ⟨fab a, none⟩ (f a) fab') : Leads env s (x >>= f) fab' := by
  cases x with
  | error e => exact hx
  | ok a =>
      have ha := hf a rfl
      show Leads env s (f a) fab'
      revert ha
      cases f a with
      | error e =>
          rintro ⟨s', hs, he⟩
          exact ⟨s', .trans hx hs, he⟩
      | ok b => exact fun hs => .trans hx hs

theorem Leads.step {env : Env} {s s' : Snap} {α : Type} {x : Except Abort α} {fab : α → Fabric}
    (hs : Steps env s s') (hx : Leads env s' x fab) : Leads env s x fab := by
  cases x with
  | error e => exact hx.imp fun _ h => ⟨hs.trans h.1, h.2⟩
  | ok a => exact hs.trans hx

theorem Leads.error {e : Abort} {fab : α → Fabric} (h : Fails e s.fab)
    : Leads env s (.error e) fab := ⟨s, .refl, h⟩

theorem Fabric.pick_spec {i : Nat} (h : σ.pick p = some i) :
    ∃ f, (σ.ports p).queue[i]? = some f ∧ σ.eligible p f = true := by
  have key : ∀ cls, σ.pickClass p cls = some i →
      ∃ f, (σ.ports p).queue[i]? = some f ∧ σ.eligible p f = true := by
    intro cls hc
    obtain ⟨hlt, hp, -⟩ := List.findIdx?_eq_some_iff_getElem.mp hc
    refine ⟨_, List.getElem?_eq_getElem hlt, ?_⟩
    simp only [Bool.and_eq_true] at hp
    exact hp.2
  simp only [pick, Option.or_eq_some_iff] at h
  rcases h with h | ⟨-, h | ⟨-, h⟩⟩ <;> exact key _ h

theorem pumpPort_steps (env : Env) (σ : Fabric) (p : Nat) (h : Option (Nat × Frame)) :
    Steps env ⟨σ, h⟩ ⟨pumpPort env σ p, h⟩ := by
  unfold pumpPort
  cases hb : (σ.ports p).busy with
  | true => simpa using ReflTransGen.refl
  | false =>
      simp only [Bool.false_eq_true, ↓reduceIte]
      cases hc : (σ.ports p).control with
      | cons c rest => exact .single (.sendControl hb hc)
      | nil =>
          cases hk : σ.pick p with
          | none => exact .single (.armWake hb hc hk)
          | some i =>
              obtain ⟨f, hf, he⟩ := pick_spec hk
              simp only [hf]
              exact .single (.sendFrame hb hc hf he)

theorem sendAck_steps (env : Env) (σ : Fabric) (p : Nat) (h : Option (Nat × Frame)) :
    Steps env ⟨σ, h⟩ ⟨sendAck env σ p, h⟩ := by
  unfold sendAck
  refine .trans (.single (.cancelAck (p := p))) ?_
  by_cases h0 : (σ.ports p).ackCount = 0
  · simpa [h0] using ReflTransGen.refl
  · simp only [cancel_ports, h0, ↓reduceIte]
    exact .trans (.single (.pushAck (p := p) (by simpa using h0))) (pumpPort_steps env _ _ h)

theorem pumpPorts_steps (env : Env) (ps : List Nat) (σ : Fabric) :
    Steps env ⟨σ, none⟩ ⟨ps.foldl (pumpPort env) σ, none⟩ := by
  induction ps generalizing σ with
  | nil => exact .refl
  | cons p ps ih => exact .trans (pumpPort_steps env σ p none) (ih _)

theorem Fabric.route_eq_ok : σ.route src target = .ok p ↔ σ.topo.route src target = some p := by
  unfold route
  cases σ.topo.route src target <;> simp

theorem route_leads {f : Nat → Except Abort β} {fab' : β → Fabric}
    (hf : ∀ p, σ.topo.route src target = some p → Leads env ⟨σ, none⟩ (f p) fab') :
    Leads env ⟨σ, none⟩ (σ.route src target >>= f) fab' := by
  unfold route
  cases h : σ.topo.route src target with
  | none => exact Leads.error trivial
  | some p => exact hf p h

theorem resolve_leads {address : Nat} {f : Nat → Except Abort β} {fab' : β → Fabric}
    (hf : σ.resolve address = .ok (address / window - 1) →
      Leads env ⟨σ, none⟩ (f (address / window - 1)) fab') :
    Leads env ⟨σ, none⟩ (σ.resolve address >>= f) fab' := by
  cases h : σ.resolve address with
  | error e =>
      simp only [resolve] at h
      split at h <;> cases h
      exact Leads.error trivial
  | ok target =>
      have htarget : target = address / window - 1 := by
        simp only [resolve] at h
        split at h <;> cases h
        rfl
      subst htarget
      exact hf h

/-- A pass over the waiting list moves frames one by one; those it has left
behind all have a full output queue, so no later frame overtakes them. -/
theorem scanWaiting_leads (env : Env) (n : Nat) : ∀ (k i : Nat) (σ : Fabric) (b : Bool),
    (∀ j g, j < i → (σ.nodes n).waiting[j]? = some g →
      ∃ q, σ.topo.route n g.destination = some q ∧ σ.space q = false) →
    Leads env ⟨σ, none⟩ (scanWaiting n k i σ b) Prod.fst := by
  intro k
  induction k with
  | zero => intro i σ b _; exact .refl
  | succ k ih =>
      intro i σ b hleft
      unfold scanWaiting
      cases hw : (σ.nodes n).waiting[i]? with
      | none => exact .refl
      | some f =>
          refine route_leads fun p hp => ?_
          cases hs : σ.space p with
          | false =>
              refine ih (i + 1) σ b fun j g hj hg => ?_
              rcases Nat.lt_succ_iff_lt_or_eq.mp hj with hj | rfl
              · exact hleft j g hj hg
              · rw [hw] at hg
                cases hg
                exact ⟨p, hp, hs⟩
          | true =>
              simp only [Bool.true_eq_false, ↓reduceIte]
              refine .step (.single (.assign hw hp hs fun j g hj hg hr => ?_)) (ih i _ true ?_)
              · obtain ⟨q, hq, hfull⟩ := hleft j g hj hg
                rw [hr] at hq
                cases hq
                rw [hs] at hfull
                cases hfull
              · intro j g hj hg
                rw [topo_modNode (σ := σ.enqueue p f) rfl rfl, topo_enqueue]
                rw [modNode_nodes, Function.update_self, List.getElem?_eraseIdx_of_lt hj] at hg
                obtain ⟨q, hq, hfull⟩ := hleft j g hj hg
                refine ⟨q, hq, ?_⟩
                by_cases hqp : q = p
                · subst hqp
                  rw [hs] at hfull
                  cases hfull
                · simpa [space, enqueue, hqp] using hfull

theorem issueResponse_leads (env : Env) (σ : Fabric) (n : Nat) :
    Leads env ⟨σ, none⟩ (issueResponse σ n) Prod.fst := by
  unfold issueResponse
  cases hr : (σ.nodes n).responses with
  | nil => exact .refl
  | cons response others =>
      refine route_leads fun p hp => ?_
      cases hs : σ.space p with
      | false => exact .refl
      | true =>
          cases ht : σ.transfers response.request.transaction with
          | none => exact Leads.error ⟨n, response, others, hr, ht⟩
          | some op =>
              simp only [Bool.true_eq_false, ↓reduceIte]
              split
              · rename_i h0
                exact Leads.error ⟨n, response, others, hr, h0⟩
              · rename_i h0
                exact .single (.respond hr hp hs ht h0)

theorem issueTransfer_leads (env : Env) (σ : Fabric) (n : Nat) (op : Transfer) (rd : Bool)
    (id : Nat) (rest : List Nat) (hq : σ.injection n rd = id :: rest)
    (ht : σ.transfers id = some op) :
    Leads env ⟨σ, none⟩ (issueTransfer env σ n op) Prod.fst := by
  unfold issueTransfer
  split
  · exact .refl
  · rename_i hmore
    refine resolve_leads fun hres => route_leads fun p hp => ?_
    cases hs : σ.space p with
    | false => exact .refl
    | true =>
        have hissue : σ.Issues n op id p := ⟨⟨rd, rest, hq⟩, ht, hmore, hres, hp, hs⟩
        cases hrd : op.read with
        | false => exact .single (.issueWrite hissue hrd)
        | true =>
            simp only [Bool.true_eq_false, ↓reduceIte]
            cases hw : windowFull σ.config (σ.nodes n) (requestBytes σ.config op) with
            | true => exact .refl
            | false => exact .single (.issueRead hissue hrd hw)

theorem issueTransfer_ok_injection {σ' : Fabric} {op : Transfer} {b rd : Bool}
    (h : issueTransfer env σ n op = .ok (σ', b)) : σ'.injection n rd = σ.injection n rd := by
  unfold issueTransfer at h
  split at h
  · cases h; rfl
  · simp only [bind_eq_ok] at h
    obtain ⟨target, -, p, -, h⟩ := h
    split at h
    · cases h; rfl
    · split at h
      · split at h
        · cases h; rfl
        · cases h
          show (issueFrame env _ n op p _ _).injection n rd = σ.injection n rd
          cases rd <;> simp [injection, issueFrame, makeFrame, callService, enqueue, openRead]
      · cases h
        rfl

theorem pumpQueue_leads (env : Env) (σ : Fabric) (n : Nat) (rd : Bool) :
    Leads env ⟨σ, none⟩ (pumpQueue env σ n rd) Prod.fst := by
  unfold pumpQueue
  cases hq : σ.injection n rd with
  | nil => exact .refl
  | cons id rest =>
      cases ht : σ.transfers id with
      | none =>
          simp only [ht]
          exact ReflTransGen.single (.popTransfer hq (by simp [ht]))
      | some op =>
          simp only [ht]
          refine (issueTransfer_leads env σ n op rd id rest hq ht).bind ?_
          rintro ⟨σ', b⟩ hok
          have hq' : σ'.injection n rd = id :: rest := (issueTransfer_ok_injection hok).trans hq
          cases ht' : σ'.transfers id with
          | none =>
              exact ReflTransGen.single (.popTransfer hq' (by simp [ht']))
          | some op' =>
              by_cases hdone : op'.next = op'.bytes
              · simp only [hdone, ↓reduceIte]
                exact ReflTransGen.single (.popTransfer hq' (by simp [ht', hdone]))
              · simp only [hdone, ↓reduceIte]
                exact ReflTransGen.refl

theorem pumpRound_leads (env : Env) (σ : Fabric) (n : Nat) :
    Leads env ⟨σ, none⟩ (pumpRound env σ n) Prod.fst := by
  refine (scanWaiting_leads env n _ 0 σ false (by simp)).bind ?_
  rintro ⟨σ₁, moved⟩ -
  refine (issueResponse_leads env σ₁ n).bind ?_
  rintro ⟨σ₂, responded⟩ -
  refine (pumpQueue_leads env σ₂ n false).bind ?_
  rintro ⟨σ₃, wrote⟩ -
  refine (pumpQueue_leads env σ₃ n true).bind ?_
  rintro ⟨σ₄, issued⟩ -
  exact pumpPorts_steps env _ σ₄

theorem pumpLoop_leads (env : Env) (n : Nat) : ∀ (fuel : Nat) (σ : Fabric),
    Leads env ⟨σ, none⟩ (pumpLoop env n fuel σ) id := by
  intro fuel
  induction fuel with
  | zero => intro σ; exact Leads.error trivial
  | succ fuel ih =>
      intro σ
      refine (pumpRound_leads env σ n).bind ?_
      rintro ⟨σ', progress⟩ -
      cases progress with
      | true => exact ih σ'
      | false => exact .refl

theorem pumpNode_leads (env : Env) (σ : Fabric) (n : Nat) :
    Leads env ⟨σ, none⟩ (pumpNode env σ n) id := by
  unfold pumpNode
  split
  · exact .refl
  · refine .step (.single (.pumping (n := n) (b := true))) ?_
    refine (pumpLoop_leads env n _ _).bind ?_
    rintro σ' -
    exact .single .pumping

theorem finish_steps (env : Env) (σ : Fabric) (id : Nat) :
    Steps env ⟨σ, none⟩ ⟨σ.finish id, none⟩ := by
  cases ht : σ.transfers id with
  | none => simpa [Fabric.finish, ht] using ReflTransGen.refl
  | some op =>
      by_cases hd : op.next = op.bytes ∧ op.pending = 0
      · exact .single (.finish ht hd.1 hd.2)
      · have : op.next ≠ op.bytes ∨ op.pending ≠ 0 := by omega
        simpa only [Fabric.finish, ht, this, ↓reduceIte] using ReflTransGen.refl

theorem receive_leads (env : Env) (σ : Fabric) (p : Nat) (f : Frame) :
    Leads env ⟨σ, some (p, f)⟩ (receive env σ (σ.ports p).dst f) id := by
  unfold receive
  by_cases hd : (σ.ports p).dst = f.destination
  · simp only [ne_eq, hd, not_true_eq_false, ↓reduceIte]
    cases ht : f.header.type with
    | read => exact ReflTransGen.single (.holdRead hd ht)
    | write => exact ReflTransGen.single (.holdWrite hd ht)
    | completion => exact ReflTransGen.single (.holdCompletion hd ht)
  · simp only [ne_eq, hd, not_false_eq_true, ↓reduceIte]
    exact .step (.single (.forward hd)) (pumpNode_leads env _ _)

theorem ackReceivedTlp_steps (env : Env) (σ : Fabric) (p seq : Nat) (h : Option (Nat × Frame)) :
    Steps env ⟨σ.countTlp p seq, h⟩ ⟨ackReceivedTlp env σ p seq, h⟩ := by
  simp only [ackReceivedTlp]
  split
  · exact sendAck_steps env _ p h
  · split
    · exact .refl
    · rename_i hpend
      exact .single (.armAck (by simp [countTlp]) (by simpa using hpend))

@[simp] theorem Fabric.returnCredit_nodes (σ : Fabric) (f : Frame) :
    (σ.returnCredit f).1.nodes = σ.nodes :=
  show (σ.returnCredit f).1.core.nodes = σ.core.nodes by rw [core_returnCredit]

theorem find?_replaceTag {l : List ReadState} {t : Nat} {x : ReadState}
    (hr : l.find? (fun r => r.tag == t) = some r) (hx : x.tag = t) :
    (l.map fun r' => if r'.tag == t then x else r').find? (fun r' => r'.tag == t) = some x := by
  induction l with
  | nil => simp at hr
  | cons a l ih =>
      by_cases ha : a.tag = t
      · simp [ha, hx]
      · simp only [List.map_cons, beq_iff_eq, ha, ↓reduceIte]
        rw [List.find?_cons_of_neg (by simpa using ha)] at hr ⊢
        simpa using ih hr

theorem find?_acceptPiece {f : Frame}
    (hr : (σ.nodes n).reads.find? (fun r => r.tag == f.header.tag) = some r) :
    ((σ.acceptPiece n f (accepted r f)).nodes n).reads.find?
      (fun r' => r'.tag == (accepted r f).tag) = some (accepted r f) := by
  have htag : r.tag = f.header.tag := by simpa using List.find?_some hr
  have hacc : (accepted r f).tag = f.header.tag := htag
  simp only [acceptPiece, returnCredit_nodes, observe_nodes, modNode_nodes, Function.update_self,
    hacc]
  exact find?_replaceTag hr hacc

theorem completion_leads (env : Env) (σ : Fabric) (n : Nat) (r : ReadState)
    (hr : (σ.nodes n).reads.find? (fun r' => r'.tag == r.tag) = some r) :
    Leads env ⟨σ, none⟩
      (if r.received = r.bytes then
        match σ.transfers r.transaction with
        | none => .error .unknownRead
        | some op =>
            if op.pending = 0 then .error .unknownRead
            else pumpNode env ((σ.retireRead n r op).finish r.transaction) n
      else .ok σ) id := by
  split
  · rename_i hfull
    have hmem := List.mem_of_find?_eq_some hr
    cases ht : σ.transfers r.transaction with
    | none => exact Leads.error ⟨n, r, hmem, by simp [ht]⟩
    | some op =>
        dsimp only
        split
        · rename_i h0
          exact Leads.error ⟨n, r, hmem, by simp [ht, h0]⟩
        · rename_i h0
          exact .step (.trans (.single (.retire hr hfull ht h0)) (finish_steps env _ _))
            (pumpNode_leads env _ _)
  · exact ReflTransGen.refl

/-- Every pending event is handled by a chain of atomic steps. -/
theorem handle_leads (env : Env) (σ : Fabric) (i : Nat) (e : Event) (hdue : σ.Due i e) :
    Leads env ⟨σ, none⟩ ((σ.popEvent i e).handle env e.kind) id := by
  obtain ⟨t, k⟩ := e
  cases k with
  | busyEnd p => exact .step (.single (.popBusy hdue)) (pumpNode_leads env _ _)
  | controlArrive c =>
      show Leads env _ (controlDone env _ c) id
      unfold controlDone
      cases hack : c.ack with
      | true => exact .trans (.single (.popAckDllp hdue hack)) (pumpPort_steps env _ _ none)
      | false =>
          simp only [Bool.false_eq_true, ↓reduceIte]
          split
          · rename_i hover
            obtain ⟨k, -, hk⟩ := List.any_eq_true.mp hover
            refine Leads.error ⟨i, t, c, hdue, hack, k, ?_⟩
            simpa [takeCredit] using hk
          · exact .trans (.single (.popCredit hdue hack)) (pumpPort_steps env _ _ none)
  | frameArrive p f seq =>
      have hack := ackReceivedTlp_steps env (σ.popEvent i ⟨t, .frameArrive p f seq⟩) p seq
        (some (p, f))
      refine .step (.trans (.single (.popFrame hdue)) hack) ?_
      have hdst : ((ackReceivedTlp env (σ.popEvent i ⟨t, .frameArrive p f seq⟩) p seq).ports p).dst
          = (σ.ports p).dst :=
        congrFun (congrArg Topo.dst (topo_ackReceivedTlp env _ p seq)) p
      show Leads env _ (receive env _ (σ.ports p).dst f) id
      rw [← hdst]
      exact receive_leads env _ p f
  | fcEvent p => exact .trans (.single (.popFc hdue)) (pumpPort_steps env _ _ none)
  | ackEvent p => exact .trans (.single (.popAckTimer hdue)) (sendAck_steps env _ p none)
  | wake p => exact .step (.single (.popWake hdue)) (pumpNode_leads env _ _)
  | readService n f => exact .step (.single (.popRead hdue)) (pumpNode_leads env _ _)
  | writeService n f =>
      show Leads env _ (writeDone _ f) id
      unfold writeDone
      cases ht : σ.transfers f.transaction with
      | none =>
          simp only [popEvent_transfers, ht]
          exact Leads.error ⟨i, t, n, f, hdue, by simp [ht]⟩
      | some op =>
          simp only [popEvent_transfers, ht]
          split
          · rename_i h0
            exact Leads.error ⟨i, t, n, f, hdue, by simp [ht, h0]⟩
          · rename_i h0
            exact .trans (.single (.popWrite hdue ht h0)) (finish_steps env _ _)
  | completionService n f =>
      show Leads env _ (completionDone env _ n f) id
      unfold completionDone
      simp only [popEvent_nodes]
      cases hr : (σ.nodes n).reads.find? fun r => r.tag == f.header.tag with
      | none =>
          refine Leads.error ⟨i, t, n, f, hdue, fun r hmem => ?_⟩
          simpa using List.find?_eq_none.mp hr r hmem
      | some r =>
          dsimp only
          split
          · rename_i hm
            exact Leads.error ⟨i, t, n, f, r, hdue, hr, hm⟩
          · rename_i hm
            split
            · rename_i ho
              exact Leads.error ⟨i, t, n, f, r, hdue, hr, ho⟩
            · rename_i ho
              simp only [Bool.not_eq_true] at hm ho
              refine .step (.single (.popCompletion hdue hr hm ho)) ?_
              exact completion_leads env _ n (accepted r f) (find?_acceptPiece hr)
  | callback id => exact ReflTransGen.single (.popCallback hdue)

theorem submit_leads (env : Env) (σ : Fabric) (r : Request) :
    Leads env ⟨σ, none⟩ (σ.submit env r) id := by
  unfold submit
  split
  · exact Leads.error trivial
  · rename_i hep
    split
    · exact Leads.error trivial
    · rename_i hrange
      simp only [not_or, not_le, Bool.not_eq_false, ge_iff_le, gt_iff_lt, not_lt] at hep hrange
      obtain ⟨hreq, htgt, hre, hte, hne⟩ := hep
      obtain ⟨hpos, hoff, hlen⟩ := hrange
      exact .step (.single (.enter ⟨hreq, htgt, hre, hte, hne, by omega, hoff, hlen⟩))
        (pumpNode_leads env _ _)

/-- **Every action is a chain of atomic steps.** -/
theorem exec_leads (env : Env) (σ : Fabric) (a : Act) (hen : σ.enabled a) :
    Leads env ⟨σ, none⟩ (σ.exec env a) id := by
  cases a with
  | addNode k =>
      show Leads env _ (σ.addNode k) id
      cases h : σ.addNode k with
      | error e =>
          unfold addNode at h
          split at h <;> cases h
          exact Leads.error trivial
      | ok σ' => exact ReflTransGen.single (.addNode h)
  | addLink x y =>
      show Leads env _ (σ.addLink x y) id
      cases h : σ.addLink x y with
      | error e =>
          simp only [addLink] at h
          repeat' split at h
          all_goals cases h
          all_goals exact Leads.error trivial
      | ok σ' => exact ReflTransGen.single (.addLink h)
  | submit r => exact submit_leads env σ r
  | advance t => exact ReflTransGen.single (.advance hen.1 hen.2.1 hen.2.2)
  | fire i =>
      obtain ⟨e, he, hmin⟩ := hen
      simp only [exec, he]
      exact handle_leads env σ i e ⟨he, hmin⟩

end ProtoBridge.Pcie
