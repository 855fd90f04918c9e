import ProtoBridge.Transaction.Validate

/-!
# Transfers in transaction graphs

`ProtocolModel::AddTransaction` appends a transfer to a graph: the action that sends
it, and the wait for its bytes. What a protocol makes of a size is up to the vendor's
model.
-/

namespace ProtoBridge.Transaction

open Fabric

/-- `ProtocolTransactionKind`. -/
inductive TransactionKind
  | dataTransfer
  | p2pTransfer
  | memoryRead
  | memoryWrite
  | collectiveOffload
  deriving DecidableEq

/-- `ProtocolTransactionRequest`. -/
structure Request where
  kind : TransactionKind := .dataTransfer
  packetType : PacketType := .data
  sourceRank : UInt16 := 0
  destinationRank : UInt16 := 0
  flowId : UInt16 := 0
  virtualChannel : UInt8 := 0
  effectiveBytes : UInt64 := 0
  responseBytes : UInt64 := 0
  address : UInt64 := 0
  stageId : UInt32 := 0
  protocolId : Option UInt8 := none
  deriving DecidableEq

/-- The virtual functions of `ProtocolModel` that a transfer is sized by. -/
structure ProtocolModel where
  getProtocolId : UInt64 → UInt8
  getWireSize : UInt64 → UInt8 → UInt64
  getChunkSize : UInt8 → UInt64

/-- `PROTOCOL_TRANSACTION` responses default to the bytes of the request. -/
def Request.responseOrEffective (r : Request) : UInt64 :=
  if r.responseBytes > 0 then r.responseBytes else r.effectiveBytes

/-- The action of a transfer. -/
def ProtocolModel.actionOf (m : ProtocolModel) (r : Request) : Action :=
  let protocolId := r.protocolId.getD (m.getProtocolId r.effectiveBytes)
  let action : Action :=
    { packetType := r.packetType
      sourceRank := r.sourceRank
      destinationRank := r.destinationRank
      flowId := r.flowId
      virtualChannel := r.virtualChannel
      effectiveBytes := r.effectiveBytes
      address := r.address
      stageId := r.stageId
      protocolId
      wireBytes := m.getWireSize r.effectiveBytes protocolId
      chunkBytes := m.getChunkSize protocolId }
  match r.kind with
  | .dataTransfer => { action with type := .sendData }
  | .p2pTransfer => { action with type := .sendP2p }
  | .memoryRead => { action with type := .sendMemoryRead, packetType := .memoryRead }
  | .memoryWrite => { action with type := .sendMemoryWrite, packetType := .memoryWrite }
  | .collectiveOffload => { action with type := .sendCollective }

/-- What ends a transfer. -/
def Request.matcher (r : Request) : EventMatcher :=
  let m : EventMatcher :=
    { sourceRank := r.sourceRank
      flowId := r.flowId
      stageId := r.stageId
      matchPacketType := true
      packetType := r.packetType }
  match r.kind with
  | .dataTransfer | .p2pTransfer =>
      { m with type := .packetDelivered, destinationRank := r.destinationRank }
  | .memoryRead =>
      { m with
        type := .responseReceived
        sourceRank := r.destinationRank
        destinationRank := r.sourceRank
        packetType := .memoryResp }
  | .memoryWrite =>
      { m with
        type := .packetDelivered
        destinationRank := r.destinationRank
        packetType := .memoryWrite }
  | .collectiveOffload =>
      { m with
        type := .packetDelivered
        sourceRank := anyRank
        destinationRank := r.sourceRank
        stageId := anyStage
        matchPacketType := false }

/-- The bytes that end a transfer. -/
def Request.completionBytes (r : Request) : UInt64 :=
  match r.kind with
  | .memoryRead | .collectiveOffload => r.responseOrEffective
  | _ => r.effectiveBytes

/-- `AddTransaction`. The number of the wait is returned with the graph. -/
def ProtocolModel.addTransaction (m : ProtocolModel) (g : Graph) (r : Request)
    (dependencies : List Nat) : Graph × Nat :=
  let g₁ := g.addAction (m.actionOf r) dependencies
  (g₁.addWait r.matcher r.completionBytes 0 [g.size], g₁.size)

/-! ## The nodes of a graph that is built up -/

namespace Graph

variable {g : Graph} {node : Node} {i : Nat}

theorem size_addNode (g : Graph) (node : Node) : (g.addNode node).size = g.size + 1 := by
  simp [size, addNode]

theorem node_addNode_self (g : Graph) (node : Node) :
    (g.addNode node).node g.size = { node with id := g.size } := by
  rw [Graph.node, addNode, size, List.getD_append_right _ _ _ _ (Nat.le_refl _), Nat.sub_self]
  rfl

theorem node_addNode_lt (h : i < g.size) : (g.addNode node).node i = g.node i := by
  rw [Graph.node, Graph.node, addNode, List.getD_append _ _ _ _ h]

end Graph

namespace ProtocolModel

variable {m : ProtocolModel} {g : Graph} {r : Request} {dependencies : List Nat} {i : Nat}

theorem size_addTransaction (m : ProtocolModel) (g : Graph) (r : Request) (dependencies : List Nat) :
    (m.addTransaction g r dependencies).1.size = g.size + 2 := by
  rw [addTransaction, Graph.addWait, Graph.size_addNode, Graph.addAction, Graph.size_addNode]

theorem addTransaction_snd (m : ProtocolModel) (g : Graph) (r : Request) (dependencies : List Nat) :
    (m.addTransaction g r dependencies).2 = g.size + 1 := by
  rw [addTransaction, Graph.addAction, Graph.size_addNode]

theorem node_addTransaction_action (m : ProtocolModel) (g : Graph) (r : Request)
    (dependencies : List Nat) : (m.addTransaction g r dependencies).1.node g.size =
      { id := g.size, type := .action, action := m.actionOf r, dependencies } := by
  have hlt : g.size < (g.addAction (m.actionOf r) dependencies).size := by
    rw [Graph.addAction, Graph.size_addNode]
    exact Nat.lt_succ_self _
  show ((g.addAction (m.actionOf r) dependencies).addWait _ _ _ _).node g.size = _
  rw [Graph.addWait, Graph.node_addNode_lt hlt, Graph.addAction, Graph.node_addNode_self]

theorem node_addTransaction_wait (m : ProtocolModel) (g : Graph) (r : Request)
    (dependencies : List Nat) : (m.addTransaction g r dependencies).1.node (g.size + 1) =
      { id := g.size + 1
        type := .wait
        matcher := r.matcher
        targetBytes := r.completionBytes
        dependencies := [g.size] } := by
  have hsize : (g.addAction (m.actionOf r) dependencies).size = g.size + 1 := by
    rw [Graph.addAction, Graph.size_addNode]
  show ((g.addAction (m.actionOf r) dependencies).addWait _ _ _ _).node (g.size + 1) = _
  rw [Graph.addWait, ← hsize, Graph.node_addNode_self]

theorem node_addTransaction_lt (h : i < g.size) :
    (m.addTransaction g r dependencies).1.node i = g.node i := by
  have hlt : i < (g.addAction (m.actionOf r) dependencies).size := by
    rw [Graph.addAction, Graph.size_addNode]
    omega
  show ((g.addAction (m.actionOf r) dependencies).addWait _ _ _ _).node i = _
  rw [Graph.addWait, Graph.node_addNode_lt hlt, Graph.addAction, Graph.node_addNode_lt h]

end ProtocolModel

end ProtoBridge.Transaction
