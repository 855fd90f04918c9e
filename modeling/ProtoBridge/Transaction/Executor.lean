import ProtoBridge.Transaction.Graph

/-!
# The transaction executor

`ProtocolTransactionExecutor` after `SetGraph`, with an action callback set. A call
of the source that reaches the action callbacks stops there: `calls` holds the
callbacks of the round that have not returned, the first of them running, and the
callback may call `notifyEvent` before it returns. `log` records what happened.
-/

namespace ProtoBridge.Transaction

open Lib

/-- `RuntimeNode`. The armed delay events are in `Executor.delays`. -/
structure RuntimeNode where
  state : NodeState := .pending
  observedBytes : UInt64 := 0
  observedEvents : UInt32 := 0
  remainingDependencies : Nat := 0
  queued : Bool := false
  deriving DecidableEq

/-- `WaitIndexKey`. -/
structure WaitIndexKey where
  eventType : UInt8 := 0
  sourceRank : UInt16 := 0
  destinationRank : UInt16 := 0
  flowId : UInt16 := 0
  stageId : UInt32 := 0
  packetType : UInt8 := 0
  wildcardMask : UInt8 := 0
  deriving DecidableEq

/-- `SOURCE_WILDCARD`. -/
def sourceWildcard : UInt8 := (1 : UInt8) <<< (0 : UInt8)

/-- `DESTINATION_WILDCARD`. -/
def destinationWildcard : UInt8 := (1 : UInt8) <<< (1 : UInt8)

/-- `FLOW_WILDCARD`. -/
def flowWildcard : UInt8 := (1 : UInt8) <<< (2 : UInt8)

/-- `STAGE_WILDCARD`. -/
def stageWildcard : UInt8 := (1 : UInt8) <<< (3 : UInt8)

/-- `PACKET_TYPE_WILDCARD`. -/
def packetTypeWildcard : UInt8 := (1 : UInt8) <<< (4 : UInt8)

/-- `MakeWaitIndexKey`: fields that match anything set a bit of the mask and stay zero. -/
def makeWaitIndexKey (m : EventMatcher) : WaitIndexKey :=
  let key : WaitIndexKey := { eventType := m.type.code }
  let key := if m.sourceRank = anyRank then
      { key with wildcardMask := key.wildcardMask ||| sourceWildcard }
    else { key with sourceRank := m.sourceRank }
  let key := if m.destinationRank = anyRank then
      { key with wildcardMask := key.wildcardMask ||| destinationWildcard }
    else { key with destinationRank := m.destinationRank }
  let key := if m.flowId = anyFlow then
      { key with wildcardMask := key.wildcardMask ||| flowWildcard }
    else { key with flowId := m.flowId }
  let key := if m.stageId = anyStage then
      { key with wildcardMask := key.wildcardMask ||| stageWildcard }
    else { key with stageId := m.stageId }
  if m.matchPacketType = false then
    { key with wildcardMask := key.wildcardMask ||| packetTypeWildcard }
  else { key with packetType := m.packetType.code }

/-- The key `NotifyEvent` looks up for one combination of wildcards. -/
def probeKey (e : Event) (wildcardMask : UInt8) : WaitIndexKey where
  eventType := e.type.code
  sourceRank := if wildcardMask &&& sourceWildcard ≠ 0 then 0 else e.sourceRank
  destinationRank := if wildcardMask &&& destinationWildcard ≠ 0 then 0 else e.destinationRank
  flowId := if wildcardMask &&& flowWildcard ≠ 0 then 0 else e.flowId
  stageId := if wildcardMask &&& stageWildcard ≠ 0 then 0 else e.stageId
  packetType := if wildcardMask &&& packetTypeWildcard ≠ 0 then 0 else e.packetType.code
  wildcardMask := wildcardMask

/-- The wildcard combinations in the order of the loop. -/
def wildcardMasks : List UInt8 := (List.range 32).map UInt8.ofNat

/-- What happened: a node changed its state, an action callback was called, the completion
callback was called. -/
inductive Obs
  | moved (id : Nat) (old new : NodeState)
  | acted (id : Nat) (action : Action)
  | notified
  deriving DecidableEq

/-- The assertion of `PropagateCompletion`. -/
inductive Abort
  | noDependencyRemains
  deriving DecidableEq

/-- `Time::Max()` in ticks. -/
def maxTime : Int := 2 ^ 63 - 1

/-- `ProtocolTransactionExecutor`. -/
structure Executor where
  graph : Graph
  runtime : Nat → RuntimeNode
  readyNodes : List Nat := []
  waitIndex : WaitIndexKey → List Nat := fun _ => []
  started : Bool := false
  complete : Bool := false
  completionNotified : Bool := false
  advancing : Bool := false
  advanceRequested : Bool := false
  delays : List Nat := []
  now : Int := 0
  calls : List (Nat × Action) := []
  log : List Obs := []

namespace Executor

/-- `SetGraph` and `InitializeRuntime`. -/
def setGraph (g : Graph) : Executor where
  graph := g
  runtime := fun id => { remainingDependencies := (g.deps id).length }

/-- Add to the history. -/
@[simps]
def record (σ : Executor) (e : Obs) : Executor := { σ with log := σ.log ++ [e] }

/-- Replace the runtime of a node. -/
@[simps]
def setRuntime (σ : Executor) (id : Nat) (r : RuntimeNode) : Executor :=
  { σ with runtime := Function.update σ.runtime id r }

/-- A node changes its state. -/
def move (σ : Executor) (id : Nat) (state : NodeState) : Executor :=
  (σ.setRuntime id { σ.runtime id with state }).record (.moved id (σ.runtime id).state state)

/-- A node joins the ready queue. -/
def enqueue (σ : Executor) (id : Nat) : Executor :=
  { σ.setRuntime id { σ.runtime id with queued := true } with readyNodes := σ.readyNodes ++ [id] }

/-- `RegisterWait`. -/
def registerWait (σ : Executor) (id : Nat) : Executor :=
  let key := makeWaitIndexKey (σ.graph.node id).matcher
  { σ with waitIndex := Function.update σ.waitIndex key (σ.waitIndex key ++ [id]) }

/-- One successor of `PropagateCompletion`. -/
def propagateTo (σ : Executor) (successorId : Nat) : Except Abort Executor :=
  let successor := σ.runtime successorId
  if successor.state ≠ .pending ∨ successor.queued = true then .ok σ
  else if (σ.graph.node successorId).dependency = .any then .ok (σ.enqueue successorId)
  else if successor.remainingDependencies = 0 then .error .noDependencyRemains
  else
    let remaining := successor.remainingDependencies - 1
    let σ := σ.setRuntime successorId { successor with remainingDependencies := remaining }
    if remaining = 0 then .ok (σ.enqueue successorId) else .ok σ

/-- `PropagateCompletion`. -/
def propagateCompletion (σ : Executor) (id : Nat) : Except Abort Executor :=
  (σ.graph.successors id).foldlM propagateTo σ

/-- `MarkCompleted`. -/
def markCompleted (σ : Executor) (id : Nat) : Except Abort Executor :=
  if (σ.runtime id).state = .completed then .ok σ else (σ.move id .completed).propagateCompletion id

/-- `MaybeNotifyCompletion`. -/
def maybeNotifyCompletion (σ : Executor) : Executor :=
  if σ.complete && !σ.completionNotified then
    record { σ with completionNotified := true } .notified
  else σ

/-- A delay whose deadline is before the end of time is armed. -/
def armDelay (σ : Executor) (id : Nat) : Executor :=
  if (σ.graph.node id).delay < maxTime - σ.now then { σ with delays := σ.delays ++ [id] } else σ

/-- A node from the front of the ready queue; the actions it adds to the round. -/
def visit (σ : Executor) (id : Nat) : Except Abort (Executor × List (Nat × Action)) :=
  let σ := σ.setRuntime id { σ.runtime id with queued := false }
  if (σ.runtime id).state ≠ .pending then .ok (σ, [])
  else
    match (σ.graph.node id).type with
    | .action => do
        let σ' ← σ.markCompleted id
        .ok (σ', [(id, (σ.graph.node id).action)])
    | .wait => .ok ((σ.move id .active).registerWait id, [])
    | .delay => .ok ((σ.move id .active).armDelay id, [])
    | .complete => do
        let σ' ← σ.markCompleted id
        .ok ({ σ' with complete := true }, [])

/-- The inner loop of `Advance`; no node is visited twice, so there are at most as many rounds
as nodes. -/
def drain : Nat → Executor → List (Nat × Action) → Except Abort (Executor × List (Nat × Action))
  | 0, σ, actions => .ok (σ, actions)
  | fuel + 1, σ, actions =>
      match σ.readyNodes with
      | [] => .ok (σ, actions)
      | id :: rest => do
          let (σ, more) ← visit { σ with readyNodes := rest } id
          drain fuel σ (actions ++ more)

/-- The end of `Advance`. -/
def finishAdvance (σ : Executor) : Executor := maybeNotifyCompletion { σ with advancing := false }

/-- The callbacks of a round start. -/
def callActions (σ : Executor) : List (Nat × Action) → Executor
  | [] => { σ with calls := [] }
  | (id, action) :: rest => record { σ with calls := (id, action) :: rest } (.acted id action)

/-- One round of the outer loop of `Advance`, up to its first callback. Without a callback
nobody can request another round. -/
def advanceRound (σ : Executor) : Except Abort Executor := do
  let (σ, actions) ← drain σ.graph.size { σ with advanceRequested := false } []
  match actions with
  | [] => .ok σ.finishAdvance
  | action :: rest => .ok (σ.callActions (action :: rest))

/-- `Advance`. -/
def advance (σ : Executor) : Except Abort Executor :=
  if σ.advancing then .ok { σ with advanceRequested := true }
  else advanceRound { σ with advancing := true }

/-- The running callback returns: the next one is called, or the round is over. -/
def callbackReturn (σ : Executor) : Except Abort Executor :=
  match σ.calls with
  | [] => .ok σ
  | _ :: action :: rest => .ok (σ.callActions (action :: rest))
  | [_] =>
      if σ.advanceRequested then advanceRound { σ with calls := [] }
      else .ok (finishAdvance { σ with calls := [] })

/-- A node without dependencies is ready from the start. -/
def startNode (σ : Executor) (id : Nat) : Executor :=
  if σ.graph.deps id = [] then σ.enqueue id else σ

/-- `Start`. -/
def start (σ : Executor) : Except Abort Executor :=
  ((List.range σ.graph.size).foldl startNode { σ with started := true }).advance

/-- A matching event is credited; the bytes saturate. -/
def credit (r : RuntimeNode) (e : Event) : RuntimeNode :=
  { r with
    observedBytes := if 18446744073709551615 - r.observedBytes < e.bytes then 18446744073709551615
      else r.observedBytes + e.bytes
    observedEvents := r.observedEvents + 1 }

/-- The targets of a wait are met. -/
def targetsMet (node : Node) (r : RuntimeNode) : Bool :=
  (node.targetBytes == 0 || r.observedBytes ≥ node.targetBytes) &&
    (node.targetEvents == 0 || r.observedEvents ≥ node.targetEvents)

/-- One node found in the index. -/
def creditWait (g : Graph) (e : Event) (s : (Nat → RuntimeNode) × List Nat) (id : Nat) :
    (Nat → RuntimeNode) × List Nat :=
  if (s.1 id).state ≠ .active ∨ (g.node id).matcher.accepts e = false then s
  else
    (Function.update s.1 id (credit (s.1 id) e),
      if targetsMet (g.node id) (credit (s.1 id) e) then s.2 ++ [id] else s.2)

/-- The loop of `NotifyEvent` over the wildcard combinations: the runtime with the event
credited, and the waits that are met. -/
def probe (σ : Executor) (e : Event) : (Nat → RuntimeNode) × List Nat :=
  wildcardMasks.foldl
    (fun s mask => (σ.waitIndex (probeKey e mask)).foldl (creditWait σ.graph e) s) (σ.runtime, [])

/-- The waits that are met are completed. -/
def settle (σ : Executor) (s : (Nat → RuntimeNode) × List Nat) : Except Abort Executor :=
  s.2.foldlM markCompleted { σ with runtime := s.1 }

/-- `NotifyEvent`. -/
def notifyEvent (σ : Executor) (e : Event) : Except Abort Executor :=
  if σ.started = false ∨ σ.complete = true then .ok σ
  else do
    let σ' ← σ.settle (σ.probe e)
    if (σ.probe e).2 = [] then .ok σ' else σ'.advance

/-- `OnDelayExpired`. -/
def onDelayExpired (σ : Executor) (id : Nat) : Except Abort Executor :=
  if σ.started = false ∨ σ.complete = true ∨ id ≥ σ.graph.size then .ok σ
  else if (σ.runtime id).state ≠ .active then .ok σ
  else do
    let σ ← σ.markCompleted id
    σ.advance

/-- What may happen: the calls of the owner, the return of the running callback, and the
events of the simulator. -/
inductive Act
  | start
  | notify (e : Event)
  | callbackReturn
  | expire (i : Nat)
  | tick (t : Nat)

/-- One of these. -/
def exec (σ : Executor) : Act → Except Abort Executor
  | .start => σ.start
  | .notify e => σ.notifyEvent e
  | .callbackReturn => σ.callbackReturn
  | .expire i =>
      match σ.delays[i]? with
      | none => .ok σ
      | some id => onDelayExpired { σ with delays := σ.delays.eraseIdx i } id
  | .tick t => .ok { σ with now := σ.now + t }

/-- `Start` is called once. Time passes and delays expire while no callback runs. -/
def enabled (σ : Executor) : Act → Prop
  | .start => σ.started = false
  | .notify _ => True
  | .callbackReturn => σ.calls ≠ []
  | .expire _ | .tick _ => σ.calls = []

instance (σ : Executor) : (a : Act) → Decidable (σ.enabled a)
  | .start => inferInstanceAs (Decidable (σ.started = false))
  | .notify _ => .isTrue trivial
  | .callbackReturn => inferInstanceAs (Decidable (σ.calls ≠ []))
  | .expire _ | .tick _ => inferInstanceAs (Decidable (σ.calls = []))

end Executor

/-- Every run of an executor with the given graph: any events, from outside and from inside the
callbacks, and any order of delay expiries. -/
def executorMachine (g : Graph) : Machine Executor Executor.Act Abort where
  init σ := σ = .setGraph g
  enabled := Executor.enabled
  exec := Executor.exec

instance (g : Graph) (σ : Executor) (a : Executor.Act) : Decidable ((executorMachine g).enabled σ a) :=
  inferInstanceAs (Decidable (σ.enabled a))

end ProtoBridge.Transaction
