import ProtoBridge.Collective.SharpAllReduce
import ProtoBridge.Transaction.Progress
import ProtoBridge.Transaction.Protocol

/-!
# SharpAllReduce with the transaction model

The collective is a transaction: behind the startup delay each GPU uploads its data
and waits for the bytes of the result, and the completion node waits for all of
them. The executor keeps the books.
-/

namespace ProtoBridge.Collective

open Lib Fabric Transaction
open Executor (credit targetsMet)

/-- The request of one GPU. -/
def offloadRequest (dataSize : UInt64) (gpu : Nat) : Request where
  kind := .collectiveOffload
  packetType := .allReduce
  sourceRank := UInt16.ofNat gpu
  effectiveBytes := dataSize
  responseBytes := dataSize

/-- The graph with the transfers of the first GPUs, and the waits for their results. -/
def offloads (m : ProtocolModel) (dataSize : UInt64) (startup : Int) : Nat → Graph × List Nat
  | 0 => (Graph.empty.addDelay startup [], [])
  | gpu + 1 =>
      let (g, resultArrivals) := offloads m dataSize startup gpu
      let (g, arrival) := m.addTransaction g (offloadRequest dataSize gpu) [0]
      (g, resultArrivals ++ [arrival])

/-- `BuildTransactionGraph`. -/
def offloadGraph (m : ProtocolModel) (numGpus : UInt16) (dataSize : UInt64) (startup : Int) : Graph :=
  let (g, resultArrivals) := offloads m dataSize startup numGpus.toNat
  g.addCompletion resultArrivals .all

/-- `SharpAllReduce` with `UseTransactionModel` on, all of its endpoints present. -/
structure OffloadedAllReduce where
  numGpus : Nat
  dataSize : Nat
  state : SharpState := .idle
  broadcastDoneCount : Nat := 0
  executor : Executor
  log : List Obs := []

/-- The aborts: the graph is not accepted, an action is none of the collective's, an assertion of
the executor fails. -/
inductive OffloadAbort
  | invalidGraph (error : String)
  | invalidAction
  | executor (abort : Transaction.Abort)

namespace OffloadedAllReduce

/-- `Complete`. -/
def complete (c : OffloadedAllReduce) : OffloadedAllReduce :=
  { c with state := .completed, log := c.log ++ [.completed] }

/-- `OnTransactionComplete`. -/
def onTransactionComplete (c : OffloadedAllReduce) : OffloadedAllReduce :=
  complete { c with broadcastDoneCount := c.numGpus }

/-- `ExecuteTransactionAction`. -/
def executeTransactionAction (c : OffloadedAllReduce) (action : Action) :
    Except OffloadAbort OffloadedAllReduce :=
  if action.type ≠ .sendCollective ∨ action.sourceRank.toNat ≥ c.numGpus then .error .invalidAction
  else .ok { c with log := c.log ++ [.uploaded action.sourceRank.toNat action.effectiveBytes.toNat] }

/-- The callbacks of the executor that ran in a step: an action callback that has started, and the
completion callback at the end. -/
def afterCallbacks (c : OffloadedAllReduce) (x : Executor) : Except OffloadAbort OffloadedAllReduce :=
  let notified := x.completionNotified && !c.executor.completionNotified
  let c := { c with executor := x }
  match x.calls with
  | [] => .ok (if notified then c.onTransactionComplete else c)
  | (_, action) :: _ => c.executeTransactionAction action

/-- A step of the executor. -/
def advance (c : OffloadedAllReduce) (result : Except Transaction.Abort Executor) :
    Except OffloadAbort OffloadedAllReduce :=
  match result with
  | .error abort => .error (.executor abort)
  | .ok x => c.afterCallbacks x

/-- `Initialize` and `Start`, at a time `t`. -/
def started (m : ProtocolModel) (numGpus : UInt16) (dataSize : UInt64) (startup t : Int) :
    Except OffloadAbort OffloadedAllReduce :=
  let g := offloadGraph m numGpus dataSize startup
  let c : OffloadedAllReduce :=
    { numGpus := numGpus.toNat
      dataSize := dataSize.toNat
      state := .reducePhase
      executor := { Executor.setGraph g with now := t } }
  if dataSize = 0 then .ok c.complete
  else
    match g.validate with
    | .error error => .error (.invalidGraph error)
    | .ok () => c.advance c.executor.start

/-- The event of a packet. -/
def eventOf (h : Header) : Event where
  type := .packetDelivered
  packetType := h.packetType
  sourceRank := h.sourceRank
  destinationRank := h.destRank
  flowId := h.flowId
  bytes := h.effectiveDataSize.toUInt64

/-- `OnPacketReceived`. -/
def onPacketReceived (c : OffloadedAllReduce) (h : Header) : Except OffloadAbort OffloadedAllReduce :=
  if h.packetType ≠ .allReduce ∧ h.packetType ≠ .data then .ok c
  else if h.destRank.toNat ≥ c.numGpus then .ok c
  else
    let c := { c with log := c.log ++ [.arrived h.destRank.toNat h.effectiveDataSize.toNat] }
    if c.state ≠ .broadcastPhase ∧ c.state ≠ .reducePhase then .ok c
    else c.advance (c.executor.notifyEvent (eventOf h))

/-- What happens to a started collective. -/
inductive Act
  | callbackReturn
  | expire (i : Nat)
  | tick (t : Nat)
  | receive (h : Header)

/-- One of these. -/
def exec (c : OffloadedAllReduce) : Act → Except OffloadAbort OffloadedAllReduce
  | .callbackReturn => c.advance c.executor.callbackReturn
  | .expire i => c.advance (c.executor.exec (.expire i))
  | .tick t => c.advance (c.executor.exec (.tick t))
  | .receive h => c.onPacketReceived h

/-- Every GPU has uploaded its data. -/
def Uploaded (c : OffloadedAllReduce) : Prop :=
  ∀ gpu < c.numGpus, ∃ e ∈ c.log, e = .uploaded gpu c.dataSize

/-- Nothing arrives while a callback sends. A GPU gets its bytes of the result behind the uploads,
on their flow, and no more of them than there are; packets without such bytes come at any time. -/
def enabled (c : OffloadedAllReduce) : Act → Prop
  | .callbackReturn => c.executor.calls ≠ []
  | .expire _ | .tick _ => c.executor.calls = []
  | .receive h => c.executor.calls = [] ∧ (isSharpResult h = true → 0 < h.effectiveDataSize.toNat →
      h.flowId = 0 ∧ c.Uploaded ∧
        received c.log h.destRank.toNat + h.effectiveDataSize.toNat ≤ c.dataSize)

end OffloadedAllReduce

/-- Every run of an initialized and started collective. -/
def offloadMachine (m : ProtocolModel) (n : UInt16) (d : UInt64) (startup : Int) :
    Machine OffloadedAllReduce OffloadedAllReduce.Act OffloadAbort where
  init c := ∃ t, OffloadedAllReduce.started m n d startup t = .ok c
  enabled := OffloadedAllReduce.enabled
  exec := OffloadedAllReduce.exec

/-! ## The graph -/

/-- The node that sends the data of a GPU. -/
def sendNode (gpu : Nat) : Nat := 1 + 2 * gpu

/-- The node that waits for the result at a GPU. -/
def arrivalNode (gpu : Nat) : Nat := 2 + 2 * gpu

variable {m : ProtocolModel} {d : UInt64} {startup : Int} {gpu k : Nat}

theorem offloads_shape (m : ProtocolModel) (d : UInt64) (startup : Int) (k : Nat) :
    (offloads m d startup k).1.size = 1 + 2 * k ∧
      (offloads m d startup k).2 = (List.range k).map arrivalNode := by
  induction k with
  | zero => exact ⟨rfl, rfl⟩
  | succ k ih =>
      obtain ⟨hsize, harrivals⟩ := ih
      refine ⟨?_, ?_⟩
      · show (m.addTransaction (offloads m d startup k).1 _ _).1.size = _
        rw [ProtocolModel.size_addTransaction, hsize]
        omega
      · show (offloads m d startup k).2 ++ [(m.addTransaction (offloads m d startup k).1 _ _).2] = _
        rw [ProtocolModel.addTransaction_snd, hsize, harrivals, List.range_succ, List.map_append,
          List.map_singleton, arrivalNode]
        congr 2
        omega

theorem offloads_node (m : ProtocolModel) (d : UInt64) (startup : Int) (k : Nat) :
    (offloads m d startup k).1.node 0 = { id := 0, type := .delay, delay := startup } ∧
      ∀ gpu < k,
        (offloads m d startup k).1.node (sendNode gpu) =
            { id := sendNode gpu
              type := .action
              action := m.actionOf (offloadRequest d gpu)
              dependencies := [0] } ∧
          (offloads m d startup k).1.node (arrivalNode gpu) =
            { id := arrivalNode gpu
              type := .wait
              matcher := (offloadRequest d gpu).matcher
              targetBytes := (offloadRequest d gpu).completionBytes
              dependencies := [sendNode gpu] } := by
  induction k with
  | zero =>
      refine ⟨rfl, fun gpu hgpu => ?_⟩
      omega
  | succ k ih =>
      obtain ⟨hzero, hnodes⟩ := ih
      have hsize := (offloads_shape m d startup k).1
      have hgraph : (offloads m d startup (k + 1)).1 =
          (m.addTransaction (offloads m d startup k).1 (offloadRequest d k) [0]).1 := rfl
      rw [hgraph]
      refine ⟨?_, fun gpu hgpu => ?_⟩
      · rw [ProtocolModel.node_addTransaction_lt (by omega), hzero]
      · by_cases hk : gpu = k
        · have haction := m.node_addTransaction_action (offloads m d startup k).1 (offloadRequest d k) [0]
          have hwait := m.node_addTransaction_wait (offloads m d startup k).1 (offloadRequest d k) [0]
          rw [hsize] at haction hwait
          have harrival : 1 + 2 * k + 1 = arrivalNode k := by rw [arrivalNode]; omega
          rw [harrival] at hwait
          rw [hk]
          exact ⟨haction, hwait⟩
        · obtain ⟨hsend, harrive⟩ := hnodes gpu (by omega)
          rw [ProtocolModel.node_addTransaction_lt (by rw [sendNode]; omega), hsend,
            ProtocolModel.node_addTransaction_lt (by rw [arrivalNode]; omega), harrive]
          exact ⟨rfl, rfl⟩

/-- The completion node. -/
def completionNode (n : Nat) : Nat := 1 + 2 * n

/-- The nodes of the graph. -/
structure OffloadNodes (g : Graph) (n : Nat) (d : UInt64) (startup : Int) : Prop where
  size : g.size = 2 + 2 * n
  startup : g.node 0 = { id := 0, type := .delay, delay := startup }
  send : ∀ gpu < n, (g.node (sendNode gpu)).type = .action ∧ g.deps (sendNode gpu) = [0] ∧
    (g.node (sendNode gpu)).dependency = .all ∧
    (g.node (sendNode gpu)).action.type = .sendCollective ∧
    (g.node (sendNode gpu)).action.sourceRank = UInt16.ofNat gpu ∧
    (g.node (sendNode gpu)).action.effectiveBytes = d
  arrival : ∀ gpu < n, (g.node (arrivalNode gpu)).type = .wait ∧
    g.deps (arrivalNode gpu) = [sendNode gpu] ∧ (g.node (arrivalNode gpu)).dependency = .all ∧
    (g.node (arrivalNode gpu)).matcher = (offloadRequest d gpu).matcher ∧
    (g.node (arrivalNode gpu)).targetBytes = d ∧ (g.node (arrivalNode gpu)).targetEvents = 0
  completion : (g.node (completionNode n)).type = .complete ∧
    (g.node (completionNode n)).dependency = .all ∧
    g.deps (completionNode n) = (List.range n).map arrivalNode

theorem completionBytes_offloadRequest (d : UInt64) (gpu : Nat) :
    (offloadRequest d gpu).completionBytes = d := by
  show (if d > 0 then d else d) = d
  exact ite_self d

theorem offloadNodes (m : ProtocolModel) (n : UInt16) (d : UInt64) (startup : Int) :
    OffloadNodes (offloadGraph m n d startup) n.toNat d startup := by
  obtain ⟨hsize, harrivals⟩ := offloads_shape m d startup n.toNat
  obtain ⟨hzero, hnodes⟩ := offloads_node m d startup n.toNat
  have hgraph : offloadGraph m n d startup =
      (offloads m d startup n.toNat).1.addCompletion (offloads m d startup n.toNat).2 .all := rfl
  rw [hgraph, Graph.addCompletion]
  refine ⟨?_, ?_, ?_, ?_, ?_⟩
  · rw [Graph.size_addNode, hsize]
    omega
  · rw [Graph.node_addNode_lt (by omega), hzero]
  · intro gpu hgpu
    have hlt : sendNode gpu < (offloads m d startup n.toNat).1.size := by
      rw [hsize, sendNode]
      omega
    rw [Graph.deps, Graph.node_addNode_lt hlt, (hnodes gpu hgpu).1]
    exact ⟨rfl, rfl, rfl, rfl, rfl, rfl⟩
  · intro gpu hgpu
    have hlt : arrivalNode gpu < (offloads m d startup n.toNat).1.size := by
      rw [hsize, arrivalNode]
      omega
    rw [Graph.deps, Graph.node_addNode_lt hlt, (hnodes gpu hgpu).2]
    exact ⟨rfl, rfl, rfl, rfl, completionBytes_offloadRequest d gpu, rfl⟩
  · have hself := Graph.node_addNode_self (offloads m d startup n.toNat).1
      { type := .complete, dependencies := (offloads m d startup n.toNat).2, dependency := .all }
    rw [hsize] at hself
    rw [Graph.deps, completionNode, hself]
    exact ⟨rfl, rfl, harrivals⟩

variable {g : Graph} {n v : Nat}

theorem OffloadNodes.cases (h : OffloadNodes g n d startup) (hv : v < g.size) :
    v = 0 ∨ v = completionNode n ∨ ∃ gpu < n, v = sendNode gpu ∨ v = arrivalNode gpu := by
  rw [h.size] at hv
  rcases Nat.eq_zero_or_pos v with hzero | hpos
  · exact .inl hzero
  · by_cases hlast : v = completionNode n
    · exact .inr (.inl hlast)
    · refine .inr (.inr ⟨(v - 1) / 2, ?_, ?_⟩)
      · rw [completionNode] at hlast
        omega
      · rw [sendNode, arrivalNode]
        omega

theorem OffloadNodes.startupDeps (h : OffloadNodes g n d startup) : g.deps 0 = [] := by
  rw [Graph.deps, h.startup]

/-- The graph passes the checks. -/
theorem OffloadNodes.wellBuilt (h : OffloadNodes g n d startup) (hn : 0 < n) (hd : d ≠ 0)
    (hstartup : 0 ≤ startup) : g.WellBuilt := by
  have htype0 : (g.node 0).type = .delay := by rw [h.startup]
  refine ⟨?_, ?_, ?_, completionNode n, by rw [h.size, completionNode]; omega, ?_, ?_⟩
  · intro v hv e he
    rcases h.cases hv with rfl | rfl | ⟨gpu, hgpu, rfl | rfl⟩
    · rw [h.startupDeps] at he
      cases he
    · rw [h.completion.2.2] at he
      obtain ⟨gpu, hgpu, rfl⟩ := List.mem_map.mp he
      rw [List.mem_range] at hgpu
      rw [arrivalNode, completionNode]
      omega
    · rw [(h.send gpu hgpu).2.1, List.mem_singleton] at he
      rw [he, sendNode]
      omega
    · rw [(h.arrival gpu hgpu).2.1, List.mem_singleton] at he
      rw [he, sendNode, arrivalNode]
      omega
  · intro v hv hwait
    rcases h.cases hv with rfl | rfl | ⟨gpu, hgpu, rfl | rfl⟩
    · rw [htype0] at hwait
      cases hwait
    · rw [h.completion.1] at hwait
      cases hwait
    · rw [(h.send gpu hgpu).1] at hwait
      cases hwait
    · exact .inl (by rw [(h.arrival gpu hgpu).2.2.2.2.1]; exact hd)
  · intro v hv hdelay
    rcases h.cases hv with rfl | rfl | ⟨gpu, hgpu, rfl | rfl⟩
    · rw [h.startup]
      exact hstartup
    · rw [h.completion.1] at hdelay
      cases hdelay
    · rw [(h.send gpu hgpu).1] at hdelay
      cases hdelay
    · rw [(h.arrival gpu hgpu).1] at hdelay
      cases hdelay
  · intro v hv
    refine ⟨fun hc => ?_, ?_⟩
    · rcases h.cases hv with rfl | rfl | ⟨gpu, hgpu, rfl | rfl⟩
      · rw [htype0] at hc
        cases hc
      · rfl
      · rw [(h.send gpu hgpu).1] at hc
        cases hc
      · rw [(h.arrival gpu hgpu).1] at hc
        cases hc
    · rintro rfl
      exact h.completion.1
  -- back from the completion node over the arrivals and the sends to the startup delay
  · have harrival : ∀ gpu < n, g.Feeds (completionNode n) (arrivalNode gpu) := fun gpu hgpu =>
      .step .self (by rw [h.completion.2.2]; exact List.mem_map_of_mem (List.mem_range.mpr hgpu))
    have hsend : ∀ gpu < n, g.Feeds (completionNode n) (sendNode gpu) := fun gpu hgpu =>
      .step (harrival gpu hgpu) (by rw [(h.arrival gpu hgpu).2.1]; exact List.mem_cons_self)
    intro v hv
    rcases h.cases hv with rfl | rfl | ⟨gpu, hgpu, rfl | rfl⟩
    · exact .step (hsend 0 hn) (by rw [(h.send 0 hn).2.1]; exact List.mem_cons_self)
    · exact .self
    · exact hsend gpu hgpu
    · exact harrival gpu hgpu

/-- **When the graph of a collective passes the checks.** It takes a GPU, data, and a startup delay that
is not negative. -/
theorem offloadGraph_validate_iff (m : ProtocolModel) (n : UInt16) (d : UInt64) (startup : Int) :
    (offloadGraph m n d startup).validate = .ok () ↔ 0 < n ∧ d ≠ 0 ∧ 0 ≤ startup := by
  have h := offloadNodes m n d startup
  constructor
  · intro hvalid
    have hok := Graph.acceptable_of_validate hvalid
    have hsize := h.size
    have hn : 0 < n.toNat := by
      by_contra hnone
      -- nothing waits for the startup delay
      have hlast : (offloadGraph m n d startup).successors 0 = [] := by
        refine List.eq_nil_iff_forall_not_mem.mpr fun v hv => ?_
        have hdep := Graph.mem_successors.mp hv
        rcases h.cases (Graph.lt_of_deps hdep) with rfl | rfl | ⟨gpu, hgpu, -⟩
        · rw [h.startupDeps] at hdep
          cases hdep
        · rw [h.completion.2.2, Nat.eq_zero_of_not_pos hnone] at hdep
          cases hdep
        · exact hnone (Nat.zero_lt_of_lt hgpu)
      have htype := (hok.last (by omega)).mp hlast
      rw [h.startup] at htype
      cases htype
    have harrival := h.arrival 0 hn
    refine ⟨hn, fun hzero => ?_, ?_⟩
    · have := hok.threshold (arrivalNode 0) (by rw [hsize, arrivalNode]; omega) harrival.1
      rw [harrival.2.2.2.2.1, harrival.2.2.2.2.2] at this
      simp [hzero] at this
    · have := hok.duration 0 (by omega) (by rw [h.startup])
      rwa [h.startup] at this
  · rintro ⟨hn, hd, hstartup⟩
    exact (h.wellBuilt hn hd hstartup).validate

/-! ## Runs -/

namespace OffloadedAllReduce

variable {c c' : OffloadedAllReduce} {x : Executor}

/-- The books of a started collective. What a GPU has received is what its wait has seen. -/
structure Kept (n : Nat) (d : UInt64) (startup : Int) (c : OffloadedAllReduce) : Prop where
  nodes : OffloadNodes c.executor.graph n d startup
  valid : c.executor.graph.Valid
  running : c.executor.Running
  size : c.numGpus = n ∧ c.dataSize = d.toNat
  started : c.state = .reducePhase ∨ c.state = .completed
  bound : ∀ gpu < n, received c.log gpu ≤ d.toNat
  uploaded : ∀ gpu bytes, .uploaded gpu bytes ∈ c.log → gpu < n ∧
    c.executor.stateOf (sendNode gpu) = .completed ∧ c.executor.stateOf (arrivalNode gpu) ≠ .pending
  done : ∀ gpu < n, c.executor.stateOf (arrivalNode gpu) = .completed → d.toNat ≤ received c.log gpu
  seen : ∀ gpu < n, c.executor.stateOf (arrivalNode gpu) ≠ .completed →
    (c.executor.runtime (arrivalNode gpu)).observedBytes.toNat = received c.log gpu ∧
      received c.log gpu < d.toNat
  told : c.state = .completed ↔ c.executor.completionNotified = true
  once : c.log.count .completed = if c.state = .completed then 1 else 0
  justified : Justified (fun pre e => e = .completed → Served n d.toNat pre) c.log
  prompt : Served n d.toNat c.log → c.state = .completed

/-- What a step of the executor finds of them. -/
structure Begun (n : Nat) (d : UInt64) (startup : Int) (c : OffloadedAllReduce) : Prop where
  nodes : OffloadNodes c.executor.graph n d startup
  valid : c.executor.graph.Valid
  size : c.numGpus = n ∧ c.dataSize = d.toNat
  started : c.state = .reducePhase ∨ c.state = .completed
  uploaded : ∀ gpu bytes, .uploaded gpu bytes ∈ c.log → gpu < n
  told : c.state = .completed ↔ c.executor.completionNotified = true
  once : c.log.count .completed = if c.state = .completed then 1 else 0

theorem Kept.begun (h : Kept n d startup c) : Begun n d startup c :=
  ⟨h.nodes, h.valid, h.size, h.started, fun gpu bytes hmem => (h.uploaded gpu bytes hmem).1, h.told,
    h.once⟩

theorem Kept.completes (h : Kept n d startup c) : CompletesWhenServed n d.toNat c.log := by
  have honce := h.once
  refine ⟨?_, h.justified, fun hserved => ?_⟩
  · rw [honce]
    split <;> omega
  · rw [if_pos (h.prompt hserved)] at honce
    exact List.count_pos_iff.mp (by omega)

theorem arrivals_of_notified (hnodes : OffloadNodes x.graph n d startup) (hrun : x.Running)
    (hnotified : x.completionNotified = true) (hgpu : gpu < n) :
    x.stateOf (arrivalNode gpu) = .completed := by
  have hchr := hrun.sound.chronicle
  have hmem : Transaction.Obs.notified ∈ x.log := by
    have hcount := hchr.notified
    rw [if_pos hnotified] at hcount
    exact List.count_pos_iff.mp (by omega)
  obtain ⟨pre, post, hsplit⟩ := List.append_of_mem hmem
  obtain ⟨v, hv, htype, hcompleted⟩ := hchr.allowed pre .notified post hsplit
  -- the node is the completion node, and it had all arrivals behind it
  have hlast : v = completionNode n := by
    rcases hnodes.cases hv with rfl | rfl | ⟨gpu, hgpu, rfl | rfl⟩
    · rw [hnodes.startup] at htype
      cases htype
    · rfl
    · rw [(hnodes.send gpu hgpu).1] at htype
      cases htype
    · rw [(hnodes.arrival gpu hgpu).1] at htype
      cases htype
  have hstate : x.stateOf v = .completed := by
    refine (hchr.completed_iff v).mp ?_
    obtain ⟨e, he, hce⟩ := hcompleted
    exact ⟨e, by rw [hsplit]; exact List.mem_append_left _ he, hce⟩
  have hsatisfied := hrun.sound.consistent.satisfied v hv (.inr (by rw [hstate]; decide))
  rw [hlast, Executor.Satisfied, hnodes.completion.2.1, hnodes.completion.2.2] at hsatisfied
  exact hsatisfied _ (List.mem_map_of_mem (List.mem_range.mpr hgpu))

/-- The books behind a step of the executor, given what the step did. -/
theorem Begun.afterCallbacks (h : Begun n d startup c) (log : List Obs) (hn : n < 2 ^ 16)
    (hcount : log.count .completed = c.log.count .completed)
    (huploads : ∀ gpu bytes, .uploaded gpu bytes ∈ log → .uploaded gpu bytes ∈ c.log)
    (hjustified : Justified (fun pre e => e = .completed → Served n d.toNat pre) log)
    (hgraph : x.graph = c.executor.graph) (hrun : x.Running)
    (hnotified : x.completionNotified = c.executor.completionNotified ∨
      x.calls = [] ∧ x.completionNotified = true)
    (hsends : ∀ gpu bytes, .uploaded gpu bytes ∈ c.log → x.stateOf (sendNode gpu) = .completed ∧
      x.stateOf (arrivalNode gpu) ≠ .pending) (hbound : ∀ gpu < n, received log gpu ≤ d.toNat)
    (hdone : ∀ gpu < n, x.stateOf (arrivalNode gpu) = .completed → d.toNat ≤ received log gpu)
    (hseen : ∀ gpu < n, x.stateOf (arrivalNode gpu) ≠ .completed →
      (x.runtime (arrivalNode gpu)).observedBytes.toNat = received log gpu ∧
        received log gpu < d.toNat) (hprompt : Served n d.toNat log → x.completionNotified = true) :
    ∃ c', OffloadedAllReduce.afterCallbacks { c with log := log } x = .ok c' ∧ Kept n d startup c' := by
  have hnodes : OffloadNodes x.graph n d startup := hgraph ▸ h.nodes
  have hvalid : x.graph.Valid := hgraph ▸ h.valid
  have honce := h.once
  unfold OffloadedAllReduce.afterCallbacks
  dsimp only
  cases hcalls : x.calls with
  | nil =>
      refine ⟨_, rfl, ?_⟩
      split
      -- the completion callback has run
      · rename_i hnew
        simp only [Bool.and_eq_true, Bool.not_eq_true'] at hnew
        obtain ⟨hset, hunset⟩ := hnew
        have hopen : c.state ≠ .completed := fun hstate => by
          rw [h.told.mp hstate] at hunset
          cases hunset
        rw [if_neg hopen] at honce
        have hserved : Served n d.toNat log := fun gpu hgpu =>
          hdone gpu hgpu (arrivals_of_notified hnodes hrun hset hgpu)
        have hreceived : ∀ gpu, received (log ++ [Obs.completed]) gpu = received log gpu := by
          intro gpu
          rw [received_append, received_completed, add_zero]
        refine ⟨hnodes, hvalid, hrun, h.size, .inr rfl, ?_, ?_, ?_, ?_, ?_, ?_, ?_, fun _ => rfl⟩
        · intro gpu hgpu
          show received (log ++ [Obs.completed]) gpu ≤ _
          rw [hreceived]
          exact hbound gpu hgpu
        · intro gpu bytes hmem
          have hmem : Obs.uploaded gpu bytes ∈ log ++ [Obs.completed] := hmem
          have hmem' := huploads gpu bytes (by simpa using hmem)
          exact ⟨h.uploaded gpu bytes hmem', hsends gpu bytes hmem'⟩
        · intro gpu hgpu hstate
          show _ ≤ received (log ++ [Obs.completed]) gpu
          rw [hreceived]
          exact hdone gpu hgpu hstate
        · intro gpu hgpu hstate
          show _ = received (log ++ [Obs.completed]) gpu ∧ received (log ++ [Obs.completed]) gpu < _
          rw [hreceived]
          exact hseen gpu hgpu hstate
        · exact iff_of_true rfl hset
        · show (log ++ [Obs.completed]).count .completed = 1
          rw [List.count_append, hcount, honce]
          rfl
        · exact hjustified.snoc fun _ => hserved
      · rename_i hold
        have hsame : x.completionNotified = c.executor.completionNotified := by
          rcases hnotified with hsame | ⟨-, hset⟩
          · exact hsame
          · rw [hset, Bool.true_and, Bool.not_eq_true', Bool.not_eq_false] at hold
            rw [hset, hold]
        refine ⟨hnodes, hvalid, hrun, h.size, h.started, hbound, fun gpu bytes hmem =>
          ⟨h.uploaded gpu bytes (huploads gpu bytes hmem),
            hsends gpu bytes (huploads gpu bytes hmem)⟩, hdone, hseen, ?_, ?_,
          hjustified, ?_⟩
        · show c.state = .completed ↔ _
          rw [hsame]
          exact h.told
        · show log.count .completed = if c.state = .completed then 1 else 0
          rw [hcount, honce]
        · intro hserved
          exact h.told.mpr (hsame.symm.trans (hprompt hserved))
  | cons call rest =>
      obtain ⟨id, action⟩ := call
      have hmem : (id, action) ∈ x.calls := by
        rw [hcalls]
        exact List.mem_cons_self
      have hsame : x.completionNotified = c.executor.completionNotified := by
        refine hnotified.resolve_right fun hnil => ?_
        rw [hcalls] at hnil
        cases hnil.1
      obtain ⟨hlt, htype, haction, hcompleted⟩ := hrun.owned _ hmem
      dsimp only at hlt htype haction hcompleted
      -- the action sends the data of a GPU
      obtain ⟨gpu, hgpu, rfl⟩ : ∃ gpu < n, id = sendNode gpu := by
        rcases hnodes.cases hlt with rfl | rfl | ⟨gpu, hgpu, rfl | rfl⟩
        · rw [hnodes.startup] at htype
          cases htype
        · rw [hnodes.completion.1] at htype
          cases htype
        · exact ⟨gpu, hgpu, rfl⟩
        · rw [(hnodes.arrival gpu hgpu).1] at htype
          cases htype
      obtain ⟨-, -, -, hkind, hrank, hbytes⟩ := hnodes.send gpu hgpu
      rw [← haction] at hkind hrank hbytes
      have hgpu' : action.sourceRank.toNat = gpu := by
        rw [hrank]
        exact UInt16.toNat_ofNat_of_lt' (by show gpu < 65536; omega)
      have hupload : ∀ g bytes, .uploaded g bytes ∈ log ++ [Obs.uploaded gpu action.effectiveBytes.toNat] →
          g < n ∧ x.stateOf (sendNode g) = .completed ∧ x.stateOf (arrivalNode g) ≠ .pending := by
        intro g bytes hmem'
        rcases List.mem_append.mp hmem' with hold | hnew
        · have hmem' := huploads g bytes hold
          exact ⟨h.uploaded g bytes hmem', hsends g bytes hmem'⟩
        · simp only [List.mem_singleton, Obs.uploaded.injEq] at hnew
          obtain ⟨rfl, -⟩ := hnew
          obtain ⟨hwait, hdeps, -⟩ := hnodes.arrival g hgpu
          refine ⟨hgpu, hcompleted, hrun.ahead _ hmem _ ?_ hwait (by rw [hdeps]; simp) ?_⟩
          · rw [hnodes.size, arrivalNode]
            omega
          · intro e he
            rw [hdeps, List.mem_singleton] at he
            exact he
      have hreceived : ∀ g, received (log ++ [Obs.uploaded gpu action.effectiveBytes.toNat]) g =
          received log g := by
        intro g
        rw [received_append, received_uploaded, add_zero]
      refine ⟨{ c with
        executor := x, log := log ++ [.uploaded gpu action.effectiveBytes.toNat] }, ?_, ?_⟩
      · show executeTransactionAction { c with executor := x, log := log } action = _
        unfold executeTransactionAction
        rw [if_neg, hgpu']
        rw [not_or, not_not, not_le, hgpu', h.size.1]
        exact ⟨hkind, hgpu⟩
      · refine ⟨hnodes, hvalid, hrun, h.size, h.started, ?_, hupload, ?_, ?_, ?_, ?_, ?_, ?_⟩
        · intro g hg
          rw [hreceived]
          exact hbound g hg
        · intro g hg hstate
          rw [hreceived]
          exact hdone g hg hstate
        · intro g hg hstate
          rw [hreceived]
          exact hseen g hg hstate
        · show c.state = .completed ↔ x.completionNotified = true
          rw [hsame]
          exact h.told
        · show (log ++ [Obs.uploaded gpu action.effectiveBytes.toNat]).count .completed =
            if c.state = .completed then 1 else 0
          rw [List.count_append, hcount, honce]
          simp
        · exact hjustified.snoc fun he => by cases he
        · intro hserved
          refine h.told.mpr (hsame.symm.trans (hprompt fun g hg => ?_))
          rw [← hreceived]
          exact hserved g hg

theorem Kept.quietly (h : Kept n d startup c) (hn : n < 2 ^ 16)
    (hgraph : x.graph = c.executor.graph) (hrun : x.Running)
    (hnotified : x.completionNotified = c.executor.completionNotified ∨
      x.calls = [] ∧ x.completionNotified = true)
    (hstates : ∀ j, (c.executor.graph.node j).type ≠ .delay → c.executor.stateOf j ≠ .pending →
      x.stateOf j = c.executor.stateOf j) (hobserved : ∀ j, x.observed j = c.executor.observed j)
    (hwaits : ∀ j, (c.executor.graph.node j).type = .wait → x.stateOf j = .completed →
      c.executor.stateOf j = .completed) :
    ∃ c', OffloadedAllReduce.afterCallbacks c x = .ok c' ∧ Kept n d startup c' := by
  have hkeeps : c.executor.completionNotified = true → x.completionNotified = true := by
    intro hset
    rcases hnotified with hsame | ⟨-, hset'⟩
    · rw [hsame, hset]
    · exact hset'
  have hwait : ∀ gpu < n, (c.executor.graph.node (arrivalNode gpu)).type = .wait := fun gpu hgpu =>
    (h.nodes.arrival gpu hgpu).1
  refine h.begun.afterCallbacks c.log hn rfl (fun _ _ hmem => hmem) h.justified hgraph hrun hnotified
    ?_ h.bound ?_ ?_ ?_
  · intro gpu bytes hmem
    obtain ⟨hgpu, hsend, harrival⟩ := h.uploaded gpu bytes hmem
    refine ⟨?_, ?_⟩
    · rw [hstates _ (by rw [(h.nodes.send gpu hgpu).1]; decide) (by rw [hsend]; decide), hsend]
    · rw [hstates _ (by rw [hwait gpu hgpu]; decide) harrival]
      exact harrival
  · intro gpu hgpu hstate
    exact h.done gpu hgpu (hwaits _ (hwait gpu hgpu) hstate)
  · intro gpu hgpu hstate
    have hold : c.executor.stateOf (arrivalNode gpu) ≠ .completed := by
      intro hcompleted
      rw [hstates _ (by rw [hwait gpu hgpu]; decide) (by rw [hcompleted]; decide)] at hstate
      exact hstate hcompleted
    have hbytes := congrArg Prod.fst (hobserved (arrivalNode gpu))
    simp only [Executor.observed] at hbytes
    rw [hbytes]
    exact h.seen gpu hgpu hold
  · intro hserved
    exact hkeeps (h.told.mp (h.prompt hserved))

theorem Kept.callbackReturn (h : Kept n d startup c) (hn : n < 2 ^ 16) (hen : c.executor.calls ≠ [])
    :
    ∃ c', c.advance c.executor.callbackReturn = .ok c' ∧ Kept n d startup c' := by
  obtain ⟨x, hex, hrun, hkept⟩ := Executor.callbackReturn_ok h.running hen
  rw [hex]
  exact h.quietly hn hkept.graph hrun hkept.notified (fun j _ hj => hkept.states j hj) hkept.observed
    hkept.waits

theorem Kept.expire (h : Kept n d startup c) (hn : n < 2 ^ 16) (i : Nat) :
    ∃ c', c.advance (c.executor.exec (.expire i)) = .ok c' ∧ Kept n d startup c' := by
  unfold Executor.exec
  dsimp only
  split
  · exact h.quietly hn rfl h.running (.inl rfl) (fun _ _ _ => rfl) (fun _ => rfl) fun _ _ hj => hj
  · rename_i id hid
    have hdelay : (c.executor.graph.node id).type = .delay :=
      h.running.sound.armed id (List.mem_of_getElem? hid)
    have hrun : Executor.Running { c.executor with delays := c.executor.delays.eraseIdx i } :=
      h.running.congr rfl (fun _ => rfl) fun _ hi => List.mem_of_mem_eraseIdx hi
    obtain ⟨x, hex, hexpired⟩ := Executor.onDelayExpired_ok hrun id
    have hne : ∀ j, (c.executor.graph.node j).type ≠ .delay → j ≠ id := by
      rintro j hj rfl
      exact hj hdelay
    rw [hex]
    refine h.quietly hn hexpired.graph hexpired.running hexpired.notified
      (fun j hj hstate => hexpired.states j (hne j hj) hstate) hexpired.observed
      fun j hj hstate => hexpired.waits j (hne j ?_) hj hstate
    rw [hj]
    decide

theorem Kept.tick (h : Kept n d startup c) (hn : n < 2 ^ 16) (t : Nat) :
    ∃ c', c.advance (c.executor.exec (.tick t)) = .ok c' ∧ Kept n d startup c' :=
  h.quietly hn rfl (h.running.congr rfl (fun _ => rfl) fun _ hi => hi) (.inl rfl) (fun _ _ _ => rfl)
    (fun _ => rfl) fun _ _ hj => hj

/-! ## Packets of the result -/

theorem accepts_eventOf (hgpu : gpu < 2 ^ 16 - 1) (p : Header) :
    (offloadRequest d gpu).matcher.accepts (eventOf p) = true ↔
      gpu = p.destRank.toNat ∧ p.flowId = 0 := by
  have hrank : UInt16.ofNat gpu ≠ anyRank := by
    intro heq
    have := congrArg UInt16.toNat heq
    rw [UInt16.toNat_ofNat_of_lt' (by show gpu < 65536; omega)] at this
    have hany : anyRank.toNat = 65535 := rfl
    omega
  have hiff : UInt16.ofNat gpu = p.destRank ↔ gpu = p.destRank.toNat := by
    constructor
    · intro heq
      rw [← heq, UInt16.toNat_ofNat_of_lt' (by show gpu < 65536; omega)]
    · rintro rfl
      exact UInt16.ofNat_toNat
  rw [← hiff]
  have hflow : (0 : UInt16) ≠ anyFlow := by decide
  simp only [EventMatcher.accepts, Request.matcher, offloadRequest, eventOf]
  by_cases hdest : UInt16.ofNat gpu = p.destRank
  · by_cases hzero : p.flowId = 0
    · simp [hdest, hzero]
    · simp [hdest, hzero, Ne.symm hzero, hflow]
  · simp [hdest, hrank]

theorem credit_observedBytes {r : RuntimeNode} {e : Event}
    (hroom : r.observedBytes.toNat + e.bytes.toNat < 2 ^ 64) :
    (credit r e).observedBytes.toNat = r.observedBytes.toNat + e.bytes.toNat := by
  unfold credit
  dsimp only
  rw [if_neg]
  · rw [UInt64.toNat_add]
    exact Nat.mod_eq_of_lt hroom
  · rw [UInt64.lt_iff_toNat_lt, UInt64.toNat_sub_of_le]
    · have hmax : (18446744073709551615 : UInt64).toNat = 18446744073709551615 := rfl
      omega
    · rw [UInt64.le_iff_toNat_le]
      have hmax : (18446744073709551615 : UInt64).toNat = 18446744073709551615 := rfl
      omega

/-- A packet arrives while the collective is open. -/
theorem Kept.receive (h : Kept n d startup c) (hn : n < 2 ^ 16) (hd : d ≠ 0) {p : Header}
    (hrank : p.destRank.toNat < n) (hidle : c.executor.calls = []) (hopen : c.state = .reducePhase)
    (hlimit : 0 < p.effectiveDataSize.toNat → p.flowId = 0 ∧ c.Uploaded ∧
      received c.log p.destRank.toNat + p.effectiveDataSize.toNat ≤ d.toNat) :
    ∃ c', advance
        { c with log := c.log ++ [.arrived p.destRank.toNat p.effectiveDataSize.toNat] }
        (c.executor.notifyEvent (eventOf p)) = .ok c' ∧ Kept n d startup c' := by
  have hnotified : c.executor.completionNotified = false := by
    rw [← Bool.not_eq_true, ← h.told, hopen]
    decide
  have hincomplete : c.executor.complete = false := by
    rw [← Bool.not_eq_true]
    intro hcomplete
    rw [h.running.told hidle hcomplete] at hnotified
    cases hnotified
  obtain ⟨x, hex, hevent⟩ := Executor.notifyEvent_ok h.running (eventOf p)
  have hobserved := hevent.observed hincomplete
  have hstates := hevent.states hincomplete
  have hwaits := hevent.waits hincomplete
  have hbytes : (eventOf p).bytes.toNat = p.effectiveDataSize.toNat := UInt32.toNat_toUInt64 _
  have hreceived : ∀ g, received (c.log ++ [.arrived p.destRank.toNat p.effectiveDataSize.toNat]) g =
      received c.log g + if p.destRank.toNat = g then p.effectiveDataSize.toNat else 0 := by
    intro g
    rw [received_append, received_arrived]
  have hbound : received c.log p.destRank.toNat + p.effectiveDataSize.toNat ≤ d.toNat := by
    have := h.bound p.destRank.toNat hrank
    by_cases hzero : p.effectiveDataSize.toNat = 0
    · omega
    · exact (hlimit (Nat.pos_of_ne_zero hzero)).2.2
  have hwait : ∀ g < n, (c.executor.graph.node (arrivalNode g)).type = .wait := fun g hg =>
    (h.nodes.arrival g hg).1
  have haccepts : ∀ g < n, (c.executor.graph.node (arrivalNode g)).matcher.accepts (eventOf p) = true ↔
      g = p.destRank.toNat ∧ p.flowId = 0 := by
    intro g hg
    rw [(h.nodes.arrival g hg).2.2.2.1]
    exact accepts_eventOf (by omega) p
  have hroom : ∀ g < n, c.executor.stateOf (arrivalNode g) = .active → g = p.destRank.toNat →
      (credit (c.executor.runtime (arrivalNode g)) (eventOf p)).observedBytes.toNat =
        received c.log g + p.effectiveDataSize.toNat := by
    intro g hg hactive hgpu
    have hseen := (h.seen g hg (by rw [hactive]; decide)).1
    have hmax := d.toNat_lt
    rw [credit_observedBytes (by rw [hseen, hbytes, hgpu]; omega), hseen, hbytes]
  have hmet : ∀ g < n, c.executor.stateOf (arrivalNode g) = .active → g = p.destRank.toNat →
      (targetsMet (c.executor.graph.node (arrivalNode g))
        (credit (c.executor.runtime (arrivalNode g)) (eventOf p)) = true ↔
        d.toNat ≤ received c.log g + p.effectiveDataSize.toNat) := by
    intro g hg hactive hgpu
    obtain ⟨-, -, -, -, htarget, hevents⟩ := h.nodes.arrival g hg
    rw [targetsMet, htarget, hevents, ← hroom g hg hactive hgpu]
    simp [hd, UInt64.le_iff_toNat_le]
  have hdone' : ∀ g < n, x.stateOf (arrivalNode g) = .completed → d.toNat ≤
      received (c.log ++ [.arrived p.destRank.toNat p.effectiveDataSize.toNat]) g := by
    intro g hg hstate
    rw [hreceived]
    rcases hwaits _ (hwait g hg) hstate with hold | ⟨⟨-, hactive, hacc⟩, htargets⟩
    · have := h.done g hg hold
      omega
    · have hgpu := ((haccepts g hg).mp hacc).1
      have := (hmet g hg hactive hgpu).mp htargets
      rw [if_pos hgpu.symm]
      exact this
  have hseen' : ∀ g < n, x.stateOf (arrivalNode g) ≠ .completed →
      (x.runtime (arrivalNode g)).observedBytes.toNat =
        received (c.log ++ [.arrived p.destRank.toNat p.effectiveDataSize.toNat]) g ∧
      received (c.log ++ [.arrived p.destRank.toNat p.effectiveDataSize.toNat]) g < d.toNat := by
    intro g hg hstate
    have hold : c.executor.stateOf (arrivalNode g) ≠ .completed := by
      intro hcompleted
      rw [hstates _ (by rw [hcompleted]; decide), hcompleted, ite_self] at hstate
      exact hstate rfl
    obtain ⟨hseen, hless⟩ := h.seen g hg hold
    have hobs : (x.runtime (arrivalNode g)).observedBytes =
        (c.executor.creditedRuntime (eventOf p) (arrivalNode g)).observedBytes :=
      congrArg Prod.fst (hobserved (arrivalNode g))
    rw [hobs, hreceived, Executor.creditedRuntime]
    by_cases hcredited : c.executor.Credited (eventOf p) (arrivalNode g)
    · have hactive := hcredited.2.1
      have hgpu := ((haccepts g hg).mp hcredited.2.2).1
      rw [if_pos hcredited, if_pos hgpu.symm, hroom g hg hactive hgpu]
      refine ⟨rfl, ?_⟩
      by_contra hfull
      have hreached : c.executor.Reached (eventOf p) (arrivalNode g) :=
        ⟨hcredited, (hmet g hg hactive hgpu).mpr (not_lt.mp hfull)⟩
      rw [hstates _ (by rw [hactive]; decide), if_pos hreached] at hstate
      exact hstate rfl
    · rw [if_neg hcredited]
      -- a packet that is not credited brings no bytes
      have hzero : (if p.destRank.toNat = g then p.effectiveDataSize.toNat else 0) = 0 := by
        split
        · rename_i hgpu
          by_contra hne
          obtain ⟨hflow, huploaded, -⟩ := hlimit (Nat.pos_of_ne_zero hne)
          obtain ⟨e, he, rfl⟩ := huploaded g (by rw [h.size.1]; exact hg)
          obtain ⟨-, -, hgone⟩ := h.uploaded _ _ he
          refine hcredited ⟨hwait g hg, ?_, (haccepts g hg).mpr ⟨hgpu.symm, hflow⟩⟩
          cases hs : c.executor.stateOf (arrivalNode g) with
          | pending => exact absurd hs hgone
          | active => rfl
          | completed => exact absurd hs hold
        · rfl
      rw [hzero, add_zero]
      exact ⟨hseen, hless⟩
  rw [hex]
  refine h.begun.afterCallbacks _ hn ?_ ?_ ?_ hevent.graph hevent.running hevent.notified ?_ ?_ hdone' hseen' ?_
  · rw [List.count_append]
    rfl
  · intro gpu bytes hmem
    simpa using hmem
  · exact h.justified.snoc fun he => by cases he
  · intro gpu bytes hmem
    obtain ⟨hgpu, hsend, harrival⟩ := h.uploaded gpu bytes hmem
    refine ⟨?_, ?_⟩
    · rw [hstates _ (by rw [hsend]; decide), hsend, ite_self]
    · rw [hstates _ harrival]
      split
      · decide
      · exact harrival
  · intro g hg
    rw [hreceived]
    split
    · rename_i hgpu
      exact hgpu ▸ hbound
    · exact h.bound g hg
  · intro hserved
    by_cases hzero : p.effectiveDataSize.toNat = 0
    -- nothing new has come
    · have hbefore : Served n d.toNat c.log := by
        intro g hg
        have := hserved g hg
        rwa [hreceived, hzero, ite_self, add_zero] at this
      rw [h.prompt hbefore] at hopen
      cases hopen
    · obtain ⟨-, huploaded, -⟩ := hlimit (Nat.pos_of_ne_zero hzero)
      have hsends : ∀ g < n, c.executor.stateOf (sendNode g) = .completed := by
        intro g hg
        obtain ⟨e, he, rfl⟩ := huploaded g (by rw [h.size.1]; exact hg)
        exact (h.uploaded _ _ he).2.1
      have harrivals : ∀ g < n, x.stateOf (arrivalNode g) = .completed := by
        intro g hg
        by_contra hne
        have := (hseen' g hg hne).2
        have := hserved g hg
        omega
      have hnodes : OffloadNodes x.graph n d startup := hevent.graph ▸ h.nodes
      -- no action is left to be called
      have hidle' : x.calls = [] := by
        by_contra hne
        obtain ⟨j, hlt, htype, hpending⟩ := hevent.calls hidle hne
        rcases h.nodes.cases hlt with rfl | rfl | ⟨g, hg, rfl | rfl⟩
        · rw [h.nodes.startup] at htype
          cases htype
        · rw [h.nodes.completion.1] at htype
          cases htype
        · rw [hsends g hg] at hpending
          cases hpending
        · rw [hwait g hg] at htype
          cases htype
      refine hevent.running.told hidle' ?_
      by_contra hcomplete
      have hsound := hevent.running.sound
      obtain ⟨w, hw, htype, hactive⟩ := hsound.waiting (hevent.graph ▸ h.valid) rfl
        (hevent.running.idle hidle') (by simpa using hcomplete)
      rcases hnodes.cases hw with rfl | rfl | ⟨g, hg, rfl | rfl⟩
      -- the startup delay is over where something was sent
      · have hsize : sendNode p.destRank.toNat < x.graph.size := by
          rw [hnodes.size, sendNode]
          omega
        have hsent : x.stateOf (sendNode p.destRank.toNat) = .completed := by
          rw [hstates _ (by rw [hsends _ hrank]; decide), hsends _ hrank, ite_self]
        have hsatisfied := hsound.consistent.satisfied _ hsize (.inr (by rw [hsent]; decide))
        obtain ⟨-, hdeps, hall, -⟩ := hnodes.send _ hrank
        rw [Executor.Satisfied, hall, hdeps] at hsatisfied
        rw [hsatisfied 0 List.mem_cons_self] at hactive
        cases hactive
      · rcases htype with htype | htype <;> rw [hnodes.completion.1] at htype <;> cases htype
      · rcases htype with htype | htype <;> rw [(hnodes.send g hg).1] at htype <;> cases htype
      · rw [harrivals g hg] at hactive
        cases hactive

theorem Kept.late (h : Kept n d startup c) (hstate : c.state = .completed) {g bytes : Nat}
    (hbound : received c.log g + bytes ≤ d.toNat ∨ bytes = 0) :
    Kept n d startup { c with log := c.log ++ [.arrived g bytes] } := by
  have harrived : ∀ gpu < n, c.executor.stateOf (arrivalNode gpu) = .completed := fun gpu hgpu =>
    arrivals_of_notified h.nodes h.running (h.told.mp hstate) hgpu
  have hreceived : ∀ gpu, received (c.log ++ [.arrived g bytes]) gpu =
      received c.log gpu + if g = gpu then bytes else 0 := by
    intro gpu
    rw [received_append, received_arrived]
  refine ⟨h.nodes, h.valid, h.running, h.size, h.started, ?_, ?_, ?_, ?_, h.told, ?_, ?_, fun _ => hstate⟩
  -- bound
  · intro gpu hgpu
    have := h.bound gpu hgpu
    show received (c.log ++ [.arrived g bytes]) gpu ≤ _
    rw [hreceived]
    split
    · rename_i hsame
      subst hsame
      omega
    · exact this
  · intro gpu bytes' hmem
    exact h.uploaded gpu bytes' (by simpa using hmem)
  · intro gpu hgpu hdone
    have := h.done gpu hgpu hdone
    show _ ≤ received (c.log ++ [.arrived g bytes]) gpu
    rw [hreceived]
    omega
  · intro gpu hgpu hopen
    exact absurd (harrived gpu hgpu) hopen
  · show (c.log ++ [Obs.arrived g bytes]).count Obs.completed = _
    rw [List.count_append]
    exact h.once
  · exact h.justified.snoc fun he => by cases he

theorem Kept.onPacketReceived (h : Kept n d startup c) (hn : n < 2 ^ 16) (hd : d ≠ 0) {p : Header}
    (hen : c.enabled (.receive p)) : ∃ c', c.onPacketReceived p = .ok c' ∧ Kept n d startup c' := by
  obtain ⟨hidle, hlimit⟩ := hen
  unfold OffloadedAllReduce.onPacketReceived
  split
  · exact ⟨c, rfl, h⟩
  · rename_i hkind
    have hresult : isSharpResult p = true := by
      unfold isSharpResult
      simpa [or_iff_not_imp_left] using hkind
    specialize hlimit hresult
    rw [h.size.2] at hlimit
    split
    · exact ⟨c, rfl, h⟩
    · rename_i hrank
      rw [h.size.1, not_le] at hrank
      dsimp only
      split
      · rename_i hclosed
        have hstate : c.state = .completed := h.started.resolve_left hclosed.2
        refine ⟨_, rfl, h.late hstate ?_⟩
        rcases Nat.eq_zero_or_pos p.effectiveDataSize.toNat with hzero | hpos
        · exact .inr hzero
        · exact .inl (hlimit hpos).2.2
      · rename_i hopen
        refine h.receive hn hd hrank hidle (h.started.resolve_right fun hstate => hopen ?_) hlimit
        rw [hstate]
        decide

/-- The books of a collective that has just been started. -/
theorem kept_started {n : UInt16} (hn : 0 < n) (hd : 0 < d) {t : Int}
    (hstart : started m n d startup t = .ok c) : Kept n.toNat d startup c := by
  have hpos : 0 < n.toNat := UInt16.lt_iff_toNat_lt.mp hn
  have hdpos : 0 < d.toNat := UInt64.lt_iff_toNat_lt.mp hd
  have hne : d ≠ 0 := fun hzero => by
    rw [hzero] at hdpos
    exact absurd hdpos (by decide)
  unfold started at hstart
  dsimp only at hstart
  rw [if_neg hne] at hstart
  split at hstart
  · cases hstart
  · rename_i hvalidate
    have hvalid := Graph.valid_of_validate hvalidate
    have hnodes := offloadNodes m n d startup
    obtain ⟨x, hex, hrun, hkept⟩ := Executor.advance_ok (Executor.sound_opened hvalid t) rfl rfl rfl
    rw [← Executor.foldl_startNode] at hex
    have hstates : ∀ gpu, x.stateOf (arrivalNode gpu) = .completed →
        (x.graph.node (arrivalNode gpu)).type ≠ .wait := by
      intro gpu hdone hwait
      rw [hkept.graph] at hwait
      have := hkept.waits _ hwait hdone
      rw [Executor.stateOf_opened] at this
      cases this
    have hbegun : Begun n.toNat d startup
        { numGpus := n.toNat, dataSize := d.toNat, state := .reducePhase,
          executor := { Executor.setGraph (offloadGraph m n d startup) with now := t } } :=
      ⟨hnodes, hvalid, ⟨rfl, rfl⟩, .inl rfl, (fun _ _ hmem => nomatch hmem),
        iff_of_false (fun hstate => nomatch hstate) Bool.false_ne_true, rfl⟩
    have hdone : ∀ gpu < n.toNat, x.stateOf (arrivalNode gpu) = .completed →
        d.toNat ≤ received [] gpu := by
      intro gpu hgpu hdone
      refine absurd ?_ (hstates gpu hdone)
      rw [hkept.graph]
      exact (hnodes.arrival gpu hgpu).1
    have hseen : ∀ gpu < n.toNat, x.stateOf (arrivalNode gpu) ≠ .completed →
        (x.runtime (arrivalNode gpu)).observedBytes.toNat = received [] gpu ∧
          received [] gpu < d.toNat := by
      intro gpu hgpu _
      have hobserved := congrArg Prod.fst (hkept.observed (arrivalNode gpu))
      simp only [Executor.observed] at hobserved
      rw [hobserved]
      exact ⟨rfl, hdpos⟩
    obtain ⟨c', hc', hbooks⟩ := hbegun.afterCallbacks [] n.toNat_lt rfl (fun _ _ hmem => hmem) .nil
      hkept.graph hrun hkept.notified (fun _ _ hmem => nomatch hmem) (fun _ _ => Nat.zero_le _)
      hdone hseen fun hserved => absurd (hserved 0 hpos) (not_le.mpr hdpos)
    have hran : ({ Executor.setGraph (offloadGraph m n d startup) with now := t } : Executor).start =
        .ok x := hex
    rw [hran] at hstart
    cases hstart.symm.trans hc'
    exact hbooks

theorem kept_invariant (m : ProtocolModel) (n : UInt16) (d : UInt64) (startup : Int) (hn : 0 < n)
    (hd : 0 < d) : (offloadMachine m n d startup).Invariant (Kept n.toNat d startup) := by
  have hne : d ≠ 0 := fun hzero => by
    rw [hzero] at hd
    exact absurd hd (by decide)
  refine Machine.Inductive.invariant ⟨?_, ?_⟩
  · rintro c ⟨t, hstart⟩
    exact kept_started hn hd hstart
  · intro c a c' h hen hex
    obtain ⟨c'', hex', hkept⟩ : ∃ c'', c.exec a = .ok c'' ∧ Kept n.toNat d startup c'' := by
      cases a with
      | callbackReturn => exact h.callbackReturn n.toNat_lt hen
      | expire i => exact h.expire n.toNat_lt i
      | tick t => exact h.tick n.toNat_lt t
      | receive p => exact h.onPacketReceived n.toNat_lt hne hen
    have hsame : Except.ok c'' = Except.ok c' := hex'.symm.trans hex
    cases hsame
    exact hkept

end OffloadedAllReduce

end ProtoBridge.Collective
