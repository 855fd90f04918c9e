import ProtoBridge.Pcie.Steps

/-!
# Where the frames are

Every frame of a fabric is somewhere: in an output queue, on a waiting list, on
a link, in the memory of its destination, or being answered there. `total` is
the bag of all of them with their places, discarded ones included, and each
operation of the fabric has one balance for it. Conservation laws and
statements about all frames go through these balances.
-/

namespace ProtoBridge.Pcie

open Lib

/-- The places a frame passes through. `memory ty n` is the memory service of
node `n` for frames of type `ty`; `answer n k` holds a read request whose first
`k` bytes have been answered. -/
inductive Place
  | queue (p : Nat)
  | waiting (n : Nat)
  | link (p : Nat)
  | memory (ty : TlpType) (n : Nat)
  | answer (n k : Nat)
  deriving DecidableEq

/-- A frame at its place. -/
structure Site where
  place : Place
  frame : Frame
  deriving DecidableEq

/-- The frame a pending closure holds. -/
def EventKind.sites : EventKind → Multiset Site
  | .frameArrive p f _ => {⟨.link p, f⟩}
  | .readService n f => {⟨.memory .read n, f⟩}
  | .writeService n f => {⟨.memory .write n, f⟩}
  | .completionService n f => {⟨.memory .completion n, f⟩}
  | _ => 0

/-- The frames in the output queue of a port. -/
def queueSites (p : Nat) (port : Port) : Multiset Site :=
  (port.queue.map fun f => (⟨.queue p, f⟩ : Site) : List Site)

/-- The frames a node stores. -/
def nodeSites (n : Nat) (node : Node) : Multiset Site :=
  (node.waiting.map fun f => (⟨.waiting n, f⟩ : Site) : List Site) +
    (node.responses.map fun r => (⟨.answer n r.next, r.request⟩ : Site) : List Site)

namespace Fabric

/-- The live frames. -/
def live (σ : Fabric) : Multiset Site :=
  ∑ p ∈ Finset.range σ.numPorts, queueSites p (σ.ports p) +
    ∑ n ∈ Finset.range σ.numNodes, nodeSites n (σ.nodes n) +
    (σ.events.map fun e => e.kind.sites).sum

/-- The frames whose closure was discarded at the horizon. -/
def lost (σ : Fabric) : Multiset Site := (σ.dropped.map EventKind.sites).sum

/-- All frames between two actions. -/
def total (σ : Fabric) : Multiset Site := σ.live + σ.lost

end Fabric

/-- The frame in hand counts as still on its link. -/
def handSites : Option (Nat × Frame) → Multiset Site
  | none => 0
  | some (p, f) => {⟨.link p, f⟩}

/-- All frames, the one in hand included. -/
def Snap.total (s : Snap) : Multiset Site := s.fab.total + handSites s.hand

namespace Fabric

/-! ## Balances of the state updates -/

variable {σ : Fabric} {i n p : Nat} {f : Frame}

theorem total_modPort {g : Port → Port} (hp : p < σ.numPorts) :
    (σ.modPort p g).total + queueSites p (σ.ports p) = σ.total + queueSites p (g (σ.ports p)) := by
  have h := sum_update_balance (f := σ.ports) (a := g (σ.ports p)) queueSites
    (Finset.mem_range.mpr hp)
  exact balance_frame (balance_frame (balance_frame h _) _) _

theorem total_modPort_same {g : Port → Port} (h : (g (σ.ports p)).queue = (σ.ports p).queue)
    : (σ.modPort p g).total = σ.total := by
  have hsum := sum_update_same (s := Finset.range σ.numPorts) (f := σ.ports) queueSites
    (show queueSites p (g (σ.ports p)) = queueSites p (σ.ports p) by simp only [queueSites, h])
  simp only [total, live, lost, modPort, hsum]

theorem total_modNode {g : Node → Node} (hn : n < σ.numNodes) :
    (σ.modNode n g).total + nodeSites n (σ.nodes n) = σ.total + nodeSites n (g (σ.nodes n)) := by
  have h := sum_update_balance (f := σ.nodes) (a := g (σ.nodes n)) nodeSites
    (Finset.mem_range.mpr hn)
  simp only [total, live, lost, modNode]
  calc _ = (∑ m ∈ Finset.range σ.numNodes,
          nodeSites m (Function.update σ.nodes n (g (σ.nodes n)) m) + nodeSites n (σ.nodes n)) +
        (∑ p ∈ Finset.range σ.numPorts, queueSites p (σ.ports p) +
          (σ.events.map fun e => e.kind.sites).sum + (σ.dropped.map EventKind.sites).sum) := by
        ac_rfl
    _ = _ := by rw [h]; ac_rfl

theorem total_modNode_same {g : Node → Node} (hw : (g (σ.nodes n)).waiting = (σ.nodes n).waiting)
    (hr : (g (σ.nodes n)).responses = (σ.nodes n).responses) : (σ.modNode n g).total = σ.total := by
  have hsum := sum_update_same (s := Finset.range σ.numNodes) (f := σ.nodes) nodeSites
    (show nodeSites n (g (σ.nodes n)) = nodeSites n (σ.nodes n) by simp only [nodeSites, hw, hr])
  simp only [total, live, lost, modNode, hsum]

@[simp] theorem total_schedule (σ : Fabric) (d : Nat) (k : EventKind) :
    (σ.schedule d k).total = σ.total + k.sites := by
  simp only [total, live, lost, schedule]
  by_cases hd : d < timeMax - σ.now
  · simp only [hd, ↓reduceIte, List.map_append, List.map_cons, List.map_nil, List.sum_append,
      List.sum_cons, List.sum_nil, add_zero]
    ac_rfl
  · simp only [hd, ↓reduceIte, List.map_append, List.map_cons, List.map_nil, List.sum_append,
      List.sum_cons, List.sum_nil, add_zero]
    ac_rfl

theorem total_popEvent {e : Event} (h : σ.Due i e) :
    (σ.popEvent i e).total + e.kind.sites = σ.total := by
  have hsum := sum_eraseIdx_add (fun e : Event => e.kind.sites) h.1
  simp only [total, live, lost, popEvent]
  rw [add_right_comm _ _ e.kind.sites, add_assoc (_ + _) _ e.kind.sites, hsum]

theorem total_popEvent_same {e : Event} (h : σ.Due i e) (hk : e.kind.sites = 0)
    : (σ.popEvent i e).total = σ.total := by
  rw [← total_popEvent h, hk, add_zero]

theorem total_cancel {is : EventKind → Bool} (h : ∀ k, is k = true → k.sites = 0)
    : (σ.cancel is).total = σ.total := by
  have hsum := sum_filter_of_zero (fun e : Event => e.kind.sites) (fun e => !is e.kind)
    (l := σ.events) (fun e _ he => h e.kind (by simpa using he))
  simp only [total, live, lost, cancel, hsum]

theorem sites_of_isAck {k : EventKind} (h : isAck p k = true) : k.sites = 0 := by
  cases k <;> first | rfl | cases h

theorem sites_of_isWake {k : EventKind} (h : isWake p k = true) : k.sites = 0 := by
  cases k <;> first | rfl | cases h

@[simp] theorem total_setTransfer (σ : Fabric) (id : Nat) (op : Option Transfer) :
    (σ.setTransfer id op).total = σ.total := rfl

@[simp] theorem total_observe (σ : Fabric) (o : Obs) : (σ.observe o).total = σ.total := rfl

@[simp] theorem total_calls (σ : Fabric) (calls : Nat) :
    ({ σ with calls } : Fabric).total = σ.total := rfl

@[simp] theorem total_nextId (σ : Fabric) (nextId : Nat) :
    ({ σ with nextId } : Fabric).total = σ.total := rfl

@[simp] theorem total_statsReads (σ : Fabric) (statsReads : Nat) :
    ({ σ with statsReads } : Fabric).total = σ.total := rfl

@[simp] theorem total_statsWrites (σ : Fabric) (statsWrites : Nat) :
    ({ σ with statsWrites } : Fabric).total = σ.total := rfl

/-! ## Operations that move no frame -/

@[simp] theorem total_returnCredit (σ : Fabric) (f : Frame) :
    (σ.returnCredit f).1.total = σ.total :=
  returnCredit_keeps total (fun _ _ _ => total_modPort_same rfl)
    (fun _ _ _ => (total_schedule ..).trans (add_zero _)) σ f

@[simp] theorem total_flushReturn (σ : Fabric) (p : Nat) : (σ.flushReturn p).total = σ.total := by
  simp only [flushReturn]
  rw [total_modPort_same (by rfl), total_modPort_same rfl]

@[simp] theorem total_pushAck (σ : Fabric) (p : Nat) : (σ.pushAck p).total = σ.total := by
  simp only [pushAck]
  rw [total_modPort_same (by rfl), total_modPort_same rfl]

@[simp] theorem total_countTlp (σ : Fabric) (p seq : Nat) :
    (σ.countTlp p seq).total = σ.total :=
  total_modPort_same rfl

@[simp] theorem total_takeAck (σ : Fabric) (c : Control) : (σ.takeAck c).total = σ.total :=
  total_modPort_same rfl

@[simp] theorem total_takeCredit (σ : Fabric) (c : Control) : (σ.takeCredit c).total = σ.total :=
  total_modPort_same rfl

@[simp] theorem total_sendControl (σ : Fabric) (env : Env) (p : Nat) (c : Control)
    (rest : List Control) : (σ.sendControl env p c rest).total = σ.total := by
  simp only [sendControl, total_schedule, EventKind.sites, add_zero]
  exact total_modPort_same rfl

@[simp] theorem total_armWake (σ : Fabric) (p : Nat) : (σ.armWake p).total = σ.total := by
  unfold armWake
  split
  · rfl
  · rw [total_schedule, total_cancel fun _ => sites_of_isWake]
    exact add_zero _

@[simp] theorem total_openRead (σ : Fabric) (n : Nat) (op : Transfer) (bytes tag : Nat) :
    (σ.openRead n op bytes tag).total = σ.total :=
  total_modNode_same rfl rfl

@[simp] theorem total_retireRead (σ : Fabric) (n : Nat) (r : ReadState) (op : Transfer) :
    (σ.retireRead n r op).total = σ.total := by
  simp only [retireRead, total_setTransfer]
  exact total_modNode_same rfl rfl

@[simp] theorem total_acceptPiece (σ : Fabric) (n : Nat) (f : Frame) (r : ReadState) :
    (σ.acceptPiece n f r).total = σ.total := by
  simp only [acceptPiece, total_returnCredit, total_observe]
  exact total_modNode_same rfl rfl

@[simp] theorem total_landWrite (σ : Fabric) (f : Frame) (op : Transfer) :
    (σ.landWrite f op).total = σ.total := by
  simp only [landWrite, total_setTransfer, total_observe, total_returnCredit]

@[simp] theorem total_popTransfer (σ : Fabric) (n : Nat) (rd : Bool) :
    (σ.popTransfer n rd).total = σ.total := by
  refine total_modNode_same ?_ ?_ <;> cases rd <;> rfl

@[simp] theorem total_finish (σ : Fabric) (id : Nat) : (σ.finish id).total = σ.total := by
  unfold finish
  cases σ.transfers id with
  | none => rfl
  | some op =>
      dsimp only
      split
      · rfl
      · split
        · rw [total_schedule]
          exact add_zero _
        · rfl

@[simp] theorem total_enter (σ : Fabric) (op : Transfer) : (σ.enter op).total = σ.total := by
  unfold enter
  dsimp only
  split
  · rw [total_statsReads, total_modNode_same (by rfl) (by rfl), total_setTransfer, total_observe,
      total_nextId]
  · rw [total_statsWrites, total_modNode_same (by rfl) (by rfl), total_setTransfer, total_observe,
      total_nextId]

/-! ## Operations that move one frame -/

@[simp] theorem returnCredit_frame (σ : Fabric) (f : Frame) :
    (σ.returnCredit f).2 = { f with ingress := none } := by
  unfold returnCredit
  cases hf : f.ingress with
  | none => cases f; simp_all
  | some p => rfl

@[simp] theorem returnCredit_numPorts (σ : Fabric) (f : Frame) :
    (σ.returnCredit f).1.numPorts = σ.numPorts :=
  congrArg Topo.numPorts (topo_returnCredit σ f)

theorem total_enqueue (hp : p < σ.numPorts) :
    (σ.enqueue p f).total = σ.total + {⟨.queue p, f⟩} := by
  have h := total_modPort (g := fun port => { port with queue := port.queue ++ [f] }) hp
  have hq : queueSites p { σ.ports p with queue := (σ.ports p).queue ++ [f] } =
      {⟨.queue p, f⟩} + queueSites p (σ.ports p) := by
    simp only [queueSites, List.map_append, List.map_cons, List.map_nil, ← Multiset.coe_add]
    rw [add_comm]
    rfl
  rw [hq, ← add_assoc] at h
  exact add_right_cancel h

/-- The frame as it travels on the link of port `p`. -/
def onLink (p : Nat) (f : Frame) : Frame := { f with ingress := some p, hops := f.hops + 1 }

/-- The transmitter after sending a frame with header `h` and `wire` bytes. -/
def transmitted (h : Header) (wire : Nat) (port : Port) : Port :=
  { port with
    available := subCredits port.available h
    nextClass := (arbClass h.type + 1) % 3
    busy := true
    nextSequence := port.nextSequence + 1
    replay := port.replay ++ [(port.nextSequence, wire)]
    replayBytes := port.replayBytes + wire }

/-- The fabric when frame `f` has left its queue and its old buffer. -/
def detached (σ : Fabric) (p i : Nat) (f : Frame) : Fabric :=
  ((σ.modPort p fun port => { port with queue := port.queue.eraseIdx i }).returnCredit f).1

theorem sendFrame_eq (σ : Fabric) (env : Env) (p i : Nat) (f : Frame) :
    σ.sendFrame env p i f =
      (((σ.detached p i f).modPort p (transmitted f.header (f.size + tlpLinkBytes))).schedule
        (wireTime env (f.size + tlpLinkBytes)) (.busyEnd p)).schedule
        (addTime (wireTime env (f.size + tlpLinkBytes)) (σ.detached p i f).config.linkLatency)
        (.frameArrive p (onLink p f) ((σ.detached p i f).ports p).nextSequence) := by
  simp only [sendFrame, returnCredit_frame]
  rfl

theorem total_sendFrame (env : Env) (hp : p < σ.numPorts) (hi : (σ.ports p).queue[i]? = some f) :
    (σ.sendFrame env p i f).total + {⟨.queue p, f⟩} = σ.total + {⟨.link p, onLink p f⟩} := by
  have h := total_modPort (g := fun port => { port with queue := port.queue.eraseIdx i }) hp
  have hq : queueSites p { σ.ports p with queue := (σ.ports p).queue.eraseIdx i } +
      {⟨.queue p, f⟩} = queueSites p (σ.ports p) := by
    have := congrArg (Multiset.map fun f => (⟨.queue p, f⟩ : Site)) (coe_eraseIdx_add hi)
    simpa only [queueSites, Multiset.map_add, Multiset.map_coe, Multiset.map_singleton] using this
  rw [← hq, add_comm (queueSites p _), ← add_assoc] at h
  have hmod := add_right_cancel h
  rw [sendFrame_eq, total_schedule, total_schedule, total_modPort_same (by rfl), detached,
    total_returnCredit, ← hmod]
  simp only [EventKind.sites, add_zero]
  ac_rfl

/-- The frame as it enters the waiting list of a node. -/
def atNode (σ : Fabric) (n : Nat) (f : Frame) : Frame :=
  { f with
    domain := f.ingress, order := σ.nextOrder, ready := addTime σ.now (σ.nodes n).forwarding }

theorem total_forward (hn : n < σ.numNodes) :
    (σ.forward n f).total = σ.total + {⟨.waiting n, σ.atNode n f⟩} := by
  have h := total_modNode (σ := { σ with nextOrder := σ.nextOrder + 1 }) (n := n)
    (g := fun m => { m with waiting := m.waiting ++ [σ.atNode n f] }) hn
  have hw : nodeSites n { σ.nodes n with waiting := (σ.nodes n).waiting ++ [σ.atNode n f] } =
      {⟨.waiting n, σ.atNode n f⟩} + nodeSites n (σ.nodes n) := by
    simp only [nodeSites, List.map_append, List.map_cons, List.map_nil, ← Multiset.coe_add,
      ← Multiset.coe_singleton]
    ac_rfl
  rw [hw, ← add_assoc] at h
  exact add_right_cancel h

theorem total_assign (hn : n < σ.numNodes) (hp : p < σ.numPorts)
    (hi : (σ.nodes n).waiting[i]? = some f) :
    ((σ.enqueue p f).modNode n fun m => { m with waiting := m.waiting.eraseIdx i }).total +
      {⟨.waiting n, f⟩} = σ.total + {⟨.queue p, f⟩} := by
  have h := total_modNode (σ := σ.enqueue p f) (n := n)
    (g := fun m => { m with waiting := m.waiting.eraseIdx i }) hn
  have hw : nodeSites n { σ.nodes n with waiting := (σ.nodes n).waiting.eraseIdx i } +
      {⟨.waiting n, f⟩} = nodeSites n (σ.nodes n) := by
    have := congrArg (Multiset.map fun f => (⟨.waiting n, f⟩ : Site)) (coe_eraseIdx_add hi)
    simp only [Multiset.map_add, Multiset.map_coe, Multiset.map_singleton] at this
    simp only [nodeSites]
    rw [← this]
    ac_rfl
  rw [total_enqueue hp] at h
  have hsplit : nodeSites n ((σ.enqueue p f).nodes n) =
      {⟨.waiting n, f⟩} + nodeSites n { σ.nodes n with waiting := (σ.nodes n).waiting.eraseIdx i } := by
    rw [add_comm, hw]
    rfl
  rw [hsplit, ← add_assoc] at h
  exact add_right_cancel h

theorem total_popRead {t : Nat} (hn : n < σ.numNodes) (h : σ.Due i ⟨t, .readService n f⟩) :
    ((σ.popEvent i ⟨t, .readService n f⟩).modNode n
      fun m => { m with responses := m.responses ++ [⟨f, 0⟩] }).total + {⟨.memory .read n, f⟩} =
      σ.total + {⟨.answer n 0, f⟩} := by
  have hmod := total_modNode (σ := σ.popEvent i ⟨t, .readService n f⟩) (n := n)
    (g := fun m => { m with responses := m.responses ++ [⟨f, 0⟩] }) hn
  have hr : nodeSites n { σ.nodes n with responses := (σ.nodes n).responses ++ [⟨f, 0⟩] } =
      {⟨.answer n 0, f⟩} + nodeSites n (σ.nodes n) := by
    simp only [nodeSites, List.map_append, List.map_cons, List.map_nil, ← Multiset.coe_add,
      ← Multiset.coe_singleton]
    ac_rfl
  rw [popEvent_nodes, hr, ← add_assoc] at hmod
  rw [add_right_cancel hmod, ← total_popEvent h]
  simp only [EventKind.sites]
  ac_rfl

/-- A new frame enters the output queue of port `p`. -/
def launch (σ : Fabric) (calls p : Nat) (f : Frame) : Fabric :=
  ({ σ with nextOrder := σ.nextOrder + 1, calls }.observe (.created f)).enqueue p f

@[simp] theorem topo_launch (σ : Fabric) (calls p : Nat) (f : Frame) :
    (σ.launch calls p f).topo = σ.topo :=
  (topo_enqueue ..).trans rfl

theorem total_launch {calls : Nat} (hp : p < σ.numPorts) :
    (σ.launch calls p f).total = σ.total + {⟨.queue p, f⟩} := by
  rw [launch, total_enqueue (by exact hp)]
  rfl

/-- The completion `respond` creates. -/
def completionFrame (σ : Fabric) (n : Nat) (response : Response) (op : Transfer) : Frame :=
  (σ.makeFrame (completionHeader n response (completionBytes σ.config response)) op
    (response.request.offset + response.next) response.request.header.requester).1

/-- The node after `response` has been answered up to byte `next`. -/
def answered (response : Response) (others : List Response) (next : Nat) (m : Node) : Node :=
  { m with
    responses := if next = response.request.header.bytes then others
      else { response with next } :: others }

theorem respond_eq (σ : Fabric) (n : Nat) (response : Response) (others : List Response)
    (op : Transfer) (p : Nat) :
    σ.respond n response others op p (completionBytes σ.config response) =
      (σ.launch σ.calls p (σ.completionFrame n response op)).modNode n
        (answered response others (response.next + completionBytes σ.config response)) := rfl

/-- What is left of a read request after `k` answered bytes. -/
def answerSites (n k : Nat) (request : Frame) : Multiset Site :=
  if k = request.header.bytes then 0 else {⟨.answer n k, request⟩}

theorem total_respond (op : Transfer) {response : Response} {others : List Response}
    (hn : n < σ.numNodes) (hp : p < σ.numPorts) (hr : (σ.nodes n).responses = response :: others) :
    (σ.respond n response others op p (completionBytes σ.config response)).total +
        {⟨.answer n response.next, response.request⟩} =
      σ.total + {⟨.queue p, σ.completionFrame n response op⟩} +
        answerSites n (response.next + completionBytes σ.config response) response.request := by
  set bytes := completionBytes σ.config response with hbytes
  set τ := σ.launch σ.calls p (σ.completionFrame n response op) with hτ
  set g := answered response others (response.next + bytes) with hg
  set rest : Multiset Site :=
    (((σ.nodes n).waiting.map fun f => (⟨.waiting n, f⟩ : Site) : List Site) : Multiset Site) +
      (others.map fun r => (⟨.answer n r.next, r.request⟩ : Site) : List Site) with hrest
  have hmod := total_modNode (σ := τ) (n := n) (g := g) hn
  have hold : nodeSites n (τ.nodes n) =
      {⟨.answer n response.next, response.request⟩} + rest := by
    show nodeSites n (σ.nodes n) = _
    simp only [nodeSites, hr, List.map_cons, ← Multiset.cons_coe, ← Multiset.singleton_add]
    exact add_left_comm _ _ _
  have hnew : nodeSites n (g (τ.nodes n)) =
      answerSites n (response.next + bytes) response.request + rest := by
    simp only [nodeSites, hg, answered, answerSites]
    split
    · exact (zero_add _).symm
    · simp only [List.map_cons, ← Multiset.cons_coe, ← Multiset.singleton_add]
      exact add_left_comm _ _ _
  rw [hold, hnew, ← add_assoc, ← add_assoc τ.total] at hmod
  have hbal := add_right_cancel hmod
  rw [hτ, total_launch hp] at hbal
  exact hbal

/-- The request TLP `issueFrame` creates. -/
def requestFrame (env : Env) (σ : Fabric) (n : Nat) (op : Transfer) (bytes tag : Nat) : Frame :=
  let h : Header :=
    { type := if op.read then .read else .write, address := op.address + op.next, bytes
      requester := n, tag, relaxed := op.relaxed }
  { (σ.makeFrame h op op.next op.target).1 with
    ready := addTime σ.now
      (σ.callService env (!op.read && op.traffic != .doorbell && (σ.nodes n).hasRead)).1 }

theorem issueFrame_eq (env : Env) (σ : Fabric) (n : Nat) (op : Transfer) (p bytes tag : Nat) :
    issueFrame env σ n op p bytes tag =
      (σ.launch
          (σ.callService env (!op.read && op.traffic != .doorbell && (σ.nodes n).hasRead)).2.calls p
          (requestFrame env σ n op bytes tag)).setTransfer op.id
        (some { op with next := op.next + bytes, pending := op.pending + 1 }) := rfl

theorem total_issueFrame {env : Env} {bytes tag : Nat} {op : Transfer} (hp : p < σ.numPorts) :
    (issueFrame env σ n op p bytes tag).total =
      σ.total + {⟨.queue p, requestFrame env σ n op bytes tag⟩} := by
  rw [issueFrame_eq, total_setTransfer, total_launch hp]

end Fabric

end ProtoBridge.Pcie
