import Mathlib.Data.List.Sort
import ProtoBridge.Config.Stencil
import ProtoBridge.Transaction.Chains

/-!
# Compiling a protocol configuration

The second half of `ProtocolConfig::Compile`: the startup and per-step delays, and one
transfer for every instance and every stencil, in chains by the value of the first
replicate variable.
-/

namespace ProtoBridge.Config

open Lib Fabric Transaction

/-- The virtual functions of `ProtocolModel` that `Compile` calls. -/
structure Vendor extends ProtocolModel where
  getStartupDelayNs : UInt8 → UInt16 → UInt64

/-- `PROTOCOL_TRANSACTION_INVALID_NODE`. -/
def invalidNode : Nat := 4294967295

/-- `NanoSeconds`, in ticks of a nanosecond: the bits of the count are those of the signed
number of ticks. -/
def nanoSeconds (ns : UInt64) : Int := ns.toBitVec.toInt

/-! ## Delays -/

/-- Step 5 of `Compile`: the startup, 0 for none. -/
def startup (cfg : ProtocolConfig) (vendor : Vendor) (numGpus : UInt16) (dataSize : UInt64)
    (includeStartup : Bool) (vars : Vars) : Compiled UInt64 :=
  if ¬ includeStartup then .ok 0
  else if cfg.startup = "auto".toList then
    .ok (vendor.getStartupDelayNs (vendor.getProtocolId dataSize) numGpus)
  else evalOr vars cfg.startup id

/-! ## One transfer -/

/-- `ParseKind`. -/
def parseKind (s : List Char) : Option (TransactionKind × PacketType) :=
  if s = "DATA".toList ∨ s = "SEND_DATA".toList then some (.dataTransfer, .data)
  else if s = "P2P".toList then some (.p2pTransfer, .data)
  else none

/-- How errors name a field. -/
def fieldName (tidx : Nat) (field : String) : String :=
  "transfer." ++ toString tidx ++ "." ++ field

/-- A field of a stencil, 0 where it is not written. -/
def evalField (instVars : Vars) (stencil : Stencil) (tidx : Nat) (field : String) :
    Compiled UInt64 :=
  match stencil field.toList with
  | none => .ok 0
  | some expr => evalOr instVars expr fun e =>
      fieldName tidx field ++ " = '" ++ String.ofList expr ++ "': " ++ e

def checkField (tidx : Nat) (field : String) (value : UInt64) (max : Nat) (what : String) :
    Compiled Unit :=
  if max < value.toNat then
    reject (fieldName tidx field ++ " = " ++ toString value.toNat ++ ": " ++ what ++
      " out of range (max " ++ toString max ++ ")")
  else .ok ()

/-- The check of a rank against the number of GPUs. -/
def checkRank (tidx : Nat) (field : String) (value : UInt64) (numGpus : UInt16) (what : String) :
    Compiled Unit :=
  if numGpus.toNat ≤ value.toNat then
    reject (fieldName tidx field ++ " = " ++ toString value.toNat ++ ": " ++ what ++
      " exceeds numGpus (" ++ toString numGpus.toNat ++ ")")
  else .ok ()

/-- What stays the same while the graph is emitted. -/
structure Setting where
  vendor : Vendor
  numGpus : UInt16
  baseFlowId : UInt16
  vars : Vars
  firstDim : String
  startupNs : UInt64
  perStepNs : UInt64

/-- The request of a transfer at an instance. -/
def Setting.request (set : Setting) (instVars : Vars) (tidx : Nat) (stencil : Stencil)
    (stage : Nat) : Compiled Request := do
  let kindStr := (stencil "kind".toList).getD "DATA".toList
  match parseKind kindStr with
  | none =>
      reject (fieldName tidx "kind" ++ " = '" ++ String.ofList kindStr ++ "': unknown kind")
  | some (kind, packetType) => do
      let src ← evalField instVars stencil tidx "src"
      let dst ← evalField instVars stencil tidx "dst"
      let bytes ← evalField instVars stencil tidx "bytes"
      let vc ← evalField instVars stencil tidx "vc"
      let response ← evalField instVars stencil tidx "response"
      checkField tidx "src" src 65535 "source rank"
      checkField tidx "dst" dst 65535 "destination rank"
      checkField tidx "vc" vc 255 "virtual channel"
      checkRank tidx "src" src set.numGpus "source rank"
      checkRank tidx "dst" dst set.numGpus "destination rank"
      if 65535 < set.baseFlowId.toNat + stage then
        reject ("flow id overflow: baseFlowId " ++ toString set.baseFlowId.toNat ++ " + stage " ++
          toString stage ++ " exceeds the 16-bit flow-id space; reduce the stage count")
      else
        .ok { kind
              packetType
              sourceRank := src.toUInt16
              destinationRank := dst.toUInt16
              virtualChannel := vc.toUInt8
              effectiveBytes := bytes
              responseBytes := response
              stageId := UInt32.ofNat stage
              flowId := UInt16.ofNat (set.baseFlowId.toNat + stage) }

/-! ## Emission -/

/-- The locals of step 6: the graph, the ends of the chains by group, and the counters. -/
structure Emission where
  graph : Graph := .empty
  groupDep : SortedMap Nat Nat := .empty
  groupSeeded : Nat → Bool := fun _ => false
  groupPairCount : Nat → Nat := fun _ => 0
  stageCounter : Nat := 0

/-- `groupKeyOf`. -/
def groupKeyOf (firstDim : String) (inst : Vars) : Nat :=
  if firstDim = "" then 0 else ((inst firstDim).map UInt64.toNat).getD 0

/-- The symbols of an instance: the loop variables, then the parameters. -/
def instVars (vars inst : Vars) : Vars := fun name => (inst name).or (vars name)

/-- The startup delay, before the first instance of a group. -/
def Setting.seed (set : Setting) (st : Emission) (gkey : Nat) : Emission :=
  if st.groupSeeded gkey then st
  else
    let st :=
      if 0 < set.startupNs then
        { st with
          graph := st.graph.addDelay (nanoSeconds set.startupNs) []
          groupDep := st.groupDep.set gkey st.graph.size }
      else st
    { st with groupSeeded := Function.update st.groupSeeded gkey true }

/-- The per-step delay, before a transfer that is not the first of its group. -/
def Setting.pace (set : Setting) (st : Emission) (gkey : Nat) : Emission :=
  let st :=
    if 0 < st.groupPairCount gkey ∧ 0 < set.perStepNs then
      { st with
        graph := st.graph.addDelay (nanoSeconds set.perStepNs) [(st.groupDep.find? gkey).getD 0]
        groupDep := st.groupDep.set gkey st.graph.size }
    else st
  { st with
    groupPairCount := Function.update st.groupPairCount gkey (st.groupPairCount gkey + 1) }

/-- A request joins the chain of its group. -/
def Setting.append (set : Setting) (st : Emission) (gkey : Nat) (request : Request) : Emission :=
  let deps := ((st.groupDep.find? gkey).filter fun dep => dep ≠ invalidNode).toList
  let (graph, wait) := set.vendor.addTransaction st.graph request deps
  { st with
    graph
    groupDep := st.groupDep.set gkey wait
    stageCounter := st.stageCounter + 1 }

/-- The loop body over the transfers of an instance. -/
def Setting.emitTransfer (set : Setting) (inst : Vars) (st : Emission) (kv : Nat × Stencil) :
    Compiled Emission := do
  let gkey := groupKeyOf set.firstDim inst
  let st := set.pace st gkey
  let request ← set.request (instVars set.vars inst) kv.1 kv.2 st.stageCounter
  .ok (set.append st gkey request)

/-- The loop body over the instances. -/
def Setting.emitInstance (set : Setting) (transfers : Stencils) (st : Emission) (inst : Vars) :
    Compiled Emission :=
  transfers.entries.foldlM (set.emitTransfer inst) (set.seed st (groupKeyOf set.firstDim inst))

/-- The completion node behind the ends of the chains, and `Validate`. -/
def finish (cfg : ProtocolConfig) (st : Emission) : Compiled (Graph × Nat) :=
  let finals := (st.groupDep.entries.map Prod.snd).filter fun dep => dep ≠ invalidNode
  if finals = [] then reject "compiled graph has no terminal nodes"
  else
    let depKind : Dependency := if cfg.complete = "any".toList then .any else .all
    let graph := st.graph.addCompletion finals depKind
    match graph.validate with
    | .ok () => .ok (graph, st.graph.size)
    | .error verr => reject ("compiled graph invalid: " ++ verr)

/-- The instances by group, those of a group in the order they were pushed. -/
def ordered (firstDim : String) (insts : List Vars) : List Vars :=
  insts.insertionSort fun a b => groupKeyOf firstDim a ≤ groupKeyOf firstDim b

/-- Steps 5 and 6 of `Compile`, for the instances and stencils there are. -/
def emit (cfg : ProtocolConfig) (vendor : Vendor) (numGpus : UInt16) (dataSize : UInt64)
    (baseFlowId : UInt16) (includeStartup : Bool) (vars : Vars) (dims : List ResolvedDim)
    (insts : List Vars) (transfers : Stencils) : Compiled (Graph × Nat) :=
  if transfers.entries = [] then reject "no transfer stencils"
  else do
    let startupNs ← startup cfg vendor numGpus dataSize includeStartup vars
    let perStepNs ← evalOr vars cfg.perStepDelay id
    let firstDim := (dims.head?.map ResolvedDim.var).getD ""
    let set : Setting := { vendor, numGpus, baseFlowId, vars, firstDim, startupNs, perStepNs }
    let st ← (ordered firstDim insts).foldlM (set.emitInstance transfers) {}
    finish cfg st

/-- `Compile`. -/
def compile (cfg : ProtocolConfig) (proto : Option Vendor) (numGpus : UInt16) (dataSize : UInt64)
    (baseFlowId : UInt16) (includeStartup : Bool) (fuel : Nat) : Compiled (Graph × Nat) :=
  match proto with
  | none => reject "null protocol model"
  | some vendor => do
      let vars ← bindParams cfg.param (baseVars numGpus dataSize)
      let dims ← resolveDims vars cfg.dims
      let insts ← instances fuel dims
      match collect cfg with
      | .error what => .error (.failed (.thrown what))
      | .ok transfers =>
          emit cfg vendor numGpus dataSize baseFlowId includeStartup vars dims insts transfers

end ProtoBridge.Config
