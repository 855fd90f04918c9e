import Mathlib.Data.List.GetD
import ProtoBridge.Fabric.Types
import ProtoBridge.Lib.Kahn
import ProtoBridge.Lib.Machine

/-!
# Transaction graphs

`ProtocolTransactionGraph`: actions, waits and delays with their dependencies, and
one node that completes the transaction. `validate` runs the checks in the order
of the source. What it accepts has known dependencies and no cycle.
-/

namespace ProtoBridge.Transaction

open Lib Fabric

/-- `ProtocolTransactionActionType`. -/
inductive ActionType
  | sendData
  | sendP2p
  | sendMemoryRead
  | sendMemoryWrite
  | sendCollective
  | custom
  deriving DecidableEq

/-- `ProtocolTransactionEventType`. -/
inductive EventType
  | packetDelivered
  | responseReceived
  | ackReceived
  | custom
  deriving DecidableEq

/-- The value of the enumerator. -/
def EventType.code : EventType → UInt8
  | .packetDelivered => 0
  | .responseReceived => 1
  | .ackReceived => 2
  | .custom => 3

/-- `ProtocolTransactionNodeType`. -/
inductive NodeType
  | action
  | wait
  | delay
  | complete
  deriving DecidableEq

/-- `ProtocolTransactionDependency`. -/
inductive Dependency
  | all
  | any
  deriving DecidableEq

/-- `ProtocolTransactionNodeState`. -/
inductive NodeState
  | pending
  | active
  | completed
  deriving DecidableEq

/-- `PROTOCOL_TRANSACTION_ANY_RANK`. -/
def anyRank : UInt16 := 65535

/-- `PROTOCOL_TRANSACTION_ANY_FLOW`. -/
def anyFlow : UInt16 := 65535

/-- The stage that matches every stage. -/
def anyStage : UInt32 := 4294967295

/-- `ProtocolTransactionAction`. -/
structure Action where
  type : ActionType := .sendData
  packetType : PacketType := .data
  sourceRank : UInt16 := 0
  destinationRank : UInt16 := 0
  flowId : UInt16 := 0
  virtualChannel : UInt8 := 0
  protocolId : UInt8 := 0
  effectiveBytes : UInt64 := 0
  wireBytes : UInt64 := 0
  chunkBytes : UInt64 := 0
  address : UInt64 := 0
  stageId : UInt32 := 0
  deriving DecidableEq

/-- `ProtocolTransactionEvent`. -/
structure Event where
  type : EventType := .packetDelivered
  packetType : PacketType := .data
  sourceRank : UInt16 := 0
  destinationRank : UInt16 := 0
  flowId : UInt16 := 0
  bytes : UInt64 := 0
  stageId : UInt32 := 0
  deriving DecidableEq

/-- `ProtocolTransactionEventMatcher`. -/
structure EventMatcher where
  type : EventType := .packetDelivered
  sourceRank : UInt16 := anyRank
  destinationRank : UInt16 := anyRank
  flowId : UInt16 := anyFlow
  stageId : UInt32 := anyStage
  matchPacketType : Bool := false
  packetType : PacketType := .data
  deriving DecidableEq

/-- `Matches`. -/
def EventMatcher.accepts (m : EventMatcher) (e : Event) : Bool :=
  if m.type ≠ e.type then false
  else if m.sourceRank ≠ anyRank ∧ m.sourceRank ≠ e.sourceRank then false
  else if m.destinationRank ≠ anyRank ∧ m.destinationRank ≠ e.destinationRank then false
  else if m.flowId ≠ anyFlow ∧ m.flowId ≠ e.flowId then false
  else if m.stageId ≠ anyStage ∧ m.stageId ≠ e.stageId then false
  else !m.matchPacketType || m.packetType == e.packetType

/-- `ProtocolTransactionNode`. `delay` is a time in ticks. -/
structure Node where
  id : Nat := 4294967295
  type : NodeType := .action
  dependency : Dependency := .all
  dependencies : List Nat := []
  action : Action := {}
  matcher : EventMatcher := {}
  targetBytes : UInt64 := 0
  targetEvents : UInt32 := 0
  delay : Int := 0
  deriving DecidableEq

/-- `ProtocolTransactionGraph`: nodes are numbered in the order they were added. -/
structure Graph where
  nodes : List Node
  ids : nodes.map Node.id = List.range nodes.length

namespace Graph

variable {g : Graph}

/-- A graph without nodes. -/
def empty : Graph := ⟨[], rfl⟩

/-- `AddNode`. -/
def addNode (g : Graph) (node : Node) : Graph where
  nodes := g.nodes ++ [{ node with id := g.nodes.length }]
  ids := by
    rw [List.map_append, g.ids, List.map_singleton, List.length_append, List.length_singleton,
      List.range_succ]

/-- `AddAction`. -/
def addAction (g : Graph) (action : Action) (dependencies : List Nat) : Graph :=
  g.addNode { type := .action, action, dependencies }

/-- `AddWait`. -/
def addWait (g : Graph) (matcher : EventMatcher) (targetBytes : UInt64) (targetEvents : UInt32)
    (dependencies : List Nat) : Graph :=
  g.addNode { type := .wait, matcher, targetBytes, targetEvents, dependencies }

/-- `AddDelay`. -/
def addDelay (g : Graph) (delay : Int) (dependencies : List Nat) : Graph :=
  g.addNode { type := .delay, delay, dependencies }

/-- `AddCompletion`. -/
def addCompletion (g : Graph) (dependencies : List Nat) (dependency : Dependency) : Graph :=
  g.addNode { type := .complete, dependencies, dependency }

/-- `GetNodeCount`. -/
def size (g : Graph) : Nat := g.nodes.length

/-- `GetNode`. -/
def node (g : Graph) (id : Nat) : Node := g.nodes.getD id {}

/-- The dependencies of a node. -/
def deps (g : Graph) (id : Nat) : List Nat := (g.node id).dependencies

/-- The nodes that name `u` as a dependency, once for each mention. -/
def successors (g : Graph) (u : Nat) : List Nat :=
  g.nodes.flatMap fun node => (node.dependencies.filter fun d => d = u).map fun _ => node.id

/-! ## Validation -/

/-- The checks of one dependency. -/
def checkDependency (g : Graph) (id dependency : Nat) : Except String Unit :=
  if dependency ≥ g.size then .error "transaction node depends on an unknown node"
  else if dependency = id then .error "transaction node depends on itself"
  else .ok ()

/-- The checks of one node. -/
def checkNode (g : Graph) (node : Node) : Except String Unit :=
  if node.id ≥ g.size then .error "transaction graph contains a non-contiguous node ID"
  else if node.type = .wait ∧ node.targetBytes = 0 ∧ node.targetEvents = 0 then
    .error "wait node has no completion threshold"
  else if node.type = .delay ∧ node.delay < 0 then .error "delay node has a negative duration"
  else node.dependencies.forM (g.checkDependency node.id)

/-- The completion nodes. -/
def completions (g : Graph) : List Node := g.nodes.filter fun node => node.type = .complete

/-- The in-degrees and the nodes without dependencies. -/
def start (g : Graph) : Kahn.State where
  degree := fun v => (g.deps v).length
  queue := (List.range g.size).filter fun v => (g.deps v).length = 0

/-- The nodes the first loop visits. One round more than there are nodes would show that the
loop goes on. -/
def visited (g : Graph) : List Nat := Kahn.run g.successors (g.size + 1) g.start

/-- A dependency is marked and queued unless it was marked before. -/
def mark (s : (Nat → Bool) × List Nat) (dependency : Nat) : (Nat → Bool) × List Nat :=
  if s.1 dependency then s
  else (Function.update s.1 dependency true, s.2 ++ [dependency])

/-- The loop that goes backwards from the completion node; each round takes a node off the
queue, and none joins it twice. -/
def reachesLoop (g : Graph) : Nat → (Nat → Bool) × List Nat → Nat → Bool
  | 0, s => s.1
  | fuel + 1, s =>
      match s.2 with
      | [] => s.1
      | id :: rest => g.reachesLoop fuel ((g.deps id).foldl mark (s.1, rest))

/-- The nodes that the completion node depends on, itself included. -/
def reachesCompletion (g : Graph) : Nat → Bool :=
  let id := (g.completions.getLast?.map Node.id).getD 4294967295
  g.reachesLoop (g.size + 1) (fun v => v == id, [id])

/-- The checks of the graph as a whole. -/
def checkShape (g : Graph) : Except String Unit :=
  if g.completions.length ≠ 1 then
    .error "transaction graph must contain exactly one completion node"
  else if g.visited.length ≠ g.size then .error "transaction graph contains a dependency cycle"
  else if (List.range g.size).any fun v => !g.reachesCompletion v then
    .error "transaction graph contains a node that cannot affect completion"
  else .ok ()

/-- `Validate`. -/
def validate (g : Graph) : Except String Unit :=
  if g.nodes = [] then .error "transaction graph is empty"
  else do
    g.nodes.forM g.checkNode
    g.checkShape

/-! ## What the checks establish -/

theorem forM_ok {α ε : Type} {f : α → Except ε Unit} {l : List α} (h : l.forM f = .ok ()) :
    ∀ a ∈ l, f a = .ok () := by
  induction l with
  | nil => simp
  | cons a l ih =>
      change (f a >>= fun _ => l.forM f) = _ at h
      obtain ⟨_, ha, hl⟩ := bind_eq_ok.mp h
      intro b hb
      rcases List.mem_cons.mp hb with rfl | hb
      · exact ha
      · exact ih hl b hb

theorem getElem_id {i : Nat} (h : i < g.nodes.length) : g.nodes[i].id = i := by
  have hmap := congrArg (fun l => l[i]?) g.ids
  simpa [List.getElem?_eq_getElem h, List.getElem?_range h] using hmap

theorem node_eq {i : Nat} (h : i < g.size) : g.node i = g.nodes[i] := by
  rw [node, List.getD_eq_getElem _ _ h]

theorem node_id {i : Nat} (h : i < g.size) : (g.node i).id = i := by
  rw [node_eq h, getElem_id h]

theorem node_mem {i : Nat} (h : i < g.size) : g.node i ∈ g.nodes := by
  rw [node_eq h]
  exact List.getElem_mem h

theorem nodes_eq (g : Graph) : g.nodes = (List.range g.size).map g.node := by
  refine List.ext_getElem (by simp [size]) fun i h₁ h₂ => ?_
  rw [List.getElem_map, List.getElem_range, node_eq h₁]

theorem deps_of_le {i : Nat} (h : g.size ≤ i) : g.deps i = [] := by
  rw [deps, node, List.getD_eq_default _ _ h]

theorem count_successors (g : Graph) (u v : Nat) : (g.successors u).count v = (g.deps v).count u := by
  have hone : ∀ i < g.size, (((g.node i).dependencies.filter fun d => d = u).map fun _ =>
      (g.node i).id).count v = if i = v then (g.deps v).count u else 0 := by
    intro i hi
    rw [node_id hi]
    split
    · rename_i h
      subst h
      rw [List.map_const', List.count_replicate_self, List.count_eq_length_filter]
      rfl
    · rename_i h
      rw [List.map_const', List.count_replicate, if_neg (by simpa using h)]
  have hsum : ∀ n ≤ g.size, ((List.range n).flatMap fun i =>
      ((g.node i).dependencies.filter fun d => d = u).map fun _ => (g.node i).id).count v =
      if v < n then (g.deps v).count u else 0 := by
    intro n hn
    induction n with
    | zero => rfl
    | succ n ih =>
        rw [List.range_succ, List.flatMap_append, List.count_append, ih (by omega),
          List.flatMap_singleton, hone n (by omega)]
        by_cases hv : v = n
        · simp [hv]
        · rw [if_neg (Ne.symm hv), add_zero]
          by_cases hlt : v < n
          · rw [if_pos hlt, if_pos (by omega)]
          · rw [if_neg hlt, if_neg (by omega)]
  rw [successors, nodes_eq, List.flatMap_map, hsum g.size (le_refl _)]
  split
  · rfl
  · rename_i h
    rw [deps_of_le (by omega)]
    rfl

theorem lt_of_mem_successors {u v : Nat} (h : v ∈ g.successors u) : v < g.size := by
  rw [successors, List.mem_flatMap] at h
  obtain ⟨node, hnode, hv⟩ := h
  obtain ⟨i, hi, rfl⟩ := List.getElem_of_mem hnode
  obtain ⟨_, -, rfl⟩ := List.mem_map.mp hv
  rw [getElem_id]
  exact hi

/-- A graph that passed the checks. -/
structure Valid (g : Graph) : Prop where
  known : ∀ v, ∀ d ∈ g.deps v, d < g.size
  threshold : ∀ v < g.size, (g.node v).type = .wait →
    (g.node v).targetBytes ≠ 0 ∨ (g.node v).targetEvents ≠ 0
  completion : ∃ c < g.size, (g.node c).type = .complete
  acyclic : ∃ rank : Nat → Nat, ∀ v < g.size, ∀ d ∈ g.deps v, rank d < rank v

theorem checkNode_ok {node : Node} (h : g.checkNode node = .ok ()) :
    (∀ d ∈ node.dependencies, d < g.size) ∧
      (node.type = .wait → node.targetBytes ≠ 0 ∨ node.targetEvents ≠ 0) := by
  unfold checkNode at h
  split at h
  · cases h
  · split at h
    · cases h
    · rename_i hthreshold
      split at h
      · cases h
      · refine ⟨?_, ?_⟩
        · intro d hd
          have hdep := forM_ok h d hd
          unfold checkDependency at hdep
          split at hdep
          · cases hdep
          · omega
        · intro hwait
          by_contra hno
          simp only [ne_eq, not_or, not_not] at hno
          exact hthreshold ⟨hwait, hno⟩

theorem valid_of_validate (h : g.validate = .ok ()) : g.Valid := by
  unfold validate at h
  split at h
  · cases h
  · obtain ⟨_, hnodes, h⟩ := bind_eq_ok.mp h
    unfold checkShape at h
    split at h
    · cases h
    · rename_i hcompletions
      split at h
      · cases h
      · rename_i hvisited
        have hchecked : ∀ v < g.size, g.checkNode (g.node v) = .ok () := fun v hv =>
          forM_ok hnodes _ (node_mem hv)
        refine ⟨?_, ?_, ?_, ?_⟩
        · intro v d hd
          by_cases hv : v < g.size
          · exact (checkNode_ok (hchecked v hv)).1 d hd
          · rw [deps_of_le (by omega)] at hd
            cases hd
        · exact fun v hv => (checkNode_ok (hchecked v hv)).2
        · have hpos : 0 < g.completions.length := by
            have : g.completions.length = 1 := by simpa using hcompletions
            omega
          obtain ⟨node, hnode⟩ := List.exists_mem_of_length_pos hpos
          rw [completions, List.mem_filter] at hnode
          obtain ⟨i, hi, rfl⟩ := List.getElem_of_mem hnode.1
          exact ⟨i, hi, by rw [node_eq hi]; simpa using hnode.2⟩
        -- acyclic
        · refine Kahn.exists_rank g.count_successors ?_ ?_ ?_ (not_not.mp hvisited)
          · refine ⟨?_, ?_, ?_⟩
            · intro v
              simp [start]
            · intro v hv
              simpa [start] using (List.mem_filter.mp hv).2
            · exact (List.nodup_range).filter _
          · intro v hv
            exact List.mem_range.mp (List.mem_filter.mp hv).1
          · exact fun u v hv => lt_of_mem_successors hv

end Graph

end ProtoBridge.Transaction
