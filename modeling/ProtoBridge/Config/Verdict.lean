import ProtoBridge.Config.Emission

/-!
# What the compiler makes of a configuration

`compile_ends`, `compile_endless` and `compile_unresolved` say of every configuration whether
`Compile` ends and what it comes to, and `compile_builds` what a node it returns is made of.
`compile_handled` compares this with what the compiler is for: to return a node or an error,
and to take nothing but a decimal number of 32 bits for an index.
-/

namespace ProtoBridge.Config

open Lib Lib.Weave Fabric Transaction

/-! ## Requests -/

/-- The value of a field of a stencil. -/
def FieldIs (instVars : Vars) (stencil : Stencil) (field : String) (v : UInt64) : Prop :=
  match stencil field.toList with
  | none => v = 0
  | some expr => eval instVars expr = .ok v

variable {tidx : Nat} {field what : String} {value : UInt64} {numGpus : UInt16}

theorem evalField_eq_ok {instVars : Vars} {stencil : Stencil} {v : UInt64}
    : evalField instVars stencil tidx field = .ok v ↔
      FieldIs instVars stencil field v := by
  cases written : stencil field.toList with
  | none =>
      simp only [evalField, FieldIs, written]
      constructor
      · intro ok
        cases ok
        rfl
      · rintro rfl
        rfl
  | some expr =>
      simp only [evalField, FieldIs, written]
      exact evalOr_eq_ok

theorem evalField_answers (instVars : Vars) (stencil : Stencil) (tidx : Nat) (field : String) :
    Answers (evalField instVars stencil tidx field) := by
  rw [evalField]
  split
  · exact .ok _
  · exact evalOr_answers _ _ _

theorem checkField_eq_ok {max : Nat} :
    checkField tidx field value max what = .ok () ↔ value.toNat ≤ max := by
  rw [checkField]
  split
  · rename_i out
    constructor
    · intro ok
      cases ok
    · intro inside
      exact absurd out (Nat.not_lt.mpr inside)
  · rename_i inside
    exact ⟨fun _ => Nat.not_lt.mp inside, fun _ => rfl⟩

theorem checkField_answers (tidx max : Nat) (field what : String) (value : UInt64) :
    Answers (checkField tidx field value max what) := by
  rw [checkField]
  split
  · exact .rejected _
  · exact .ok _

theorem checkRank_eq_ok :
    checkRank tidx field value numGpus what = .ok () ↔ value.toNat < numGpus.toNat := by
  rw [checkRank]
  split
  · rename_i out
    constructor
    · intro ok
      cases ok
    · intro inside
      exact absurd out (Nat.not_le.mpr inside)
  · rename_i inside
    exact ⟨fun _ => Nat.not_le.mp inside, fun _ => rfl⟩

theorem checkRank_answers (tidx : Nat) (field what : String) (value : UInt64) (numGpus : UInt16) :
    Answers (checkRank tidx field value numGpus what) := by
  rw [checkRank]
  split
  · exact .rejected _
  · exact .ok _

namespace Setting

variable {set : Setting} {vars : Vars} {tidx stage : Nat} {stencil : Stencil} {r : Request}
  {ps : List Pair}

theorem request_answers (set : Setting) (vars : Vars) (tidx : Nat) (stencil : Stencil)
    (stage : Nat) : Answers (set.request vars tidx stencil stage) := by
  simp only [request]
  split
  · exact .rejected _
  · refine (evalField_answers _ _ _ _).bind fun src _ => ?_
    refine (evalField_answers _ _ _ _).bind fun dst _ => ?_
    refine (evalField_answers _ _ _ _).bind fun bytes _ => ?_
    refine (evalField_answers _ _ _ _).bind fun vc _ => ?_
    refine (evalField_answers _ _ _ _).bind fun response _ => ?_
    refine (checkField_answers _ _ _ _ _).bind fun _ _ => ?_
    refine (checkField_answers _ _ _ _ _).bind fun _ _ => ?_
    refine (checkField_answers _ _ _ _ _).bind fun _ _ => ?_
    refine (checkRank_answers _ _ _ _ _).bind fun _ _ => ?_
    refine (checkRank_answers _ _ _ _ _).bind fun _ _ => ?_
    split
    · exact .rejected _
    · exact .ok _

theorem requests_answers (set : Setting) (stage : Nat) (ps : List Pair) :
    Answers (set.requests stage ps) := by
  induction ps generalizing stage with
  | nil => exact .ok _
  | cons p rest ih =>
      exact (set.request_answers _ _ _ _).bind fun r _ => (ih _).bind fun rs _ => .ok _

/-- The request a stencil stands for. -/
structure Asks (set : Setting) (vars : Vars) (stencil : Stencil) (stage : Nat) (r : Request) :
    Prop where
  kind : parseKind ((stencil "kind".toList).getD "DATA".toList) = some (r.kind, r.packetType)
  source : ∃ src, FieldIs vars stencil "src" src ∧ src.toNat < set.numGpus.toNat ∧
    r.sourceRank = src.toUInt16
  destination : ∃ dst, FieldIs vars stencil "dst" dst ∧ dst.toNat < set.numGpus.toNat ∧
    r.destinationRank = dst.toUInt16
  channel : ∃ vc, FieldIs vars stencil "vc" vc ∧ vc.toNat ≤ 255 ∧ r.virtualChannel = vc.toUInt8
  bytes : FieldIs vars stencil "bytes" r.effectiveBytes
  response : FieldIs vars stencil "response" r.responseBytes
  flow : set.baseFlowId.toNat + stage ≤ 65535 ∧
    r.flowId = UInt16.ofNat (set.baseFlowId.toNat + stage)
  stage : r.stageId = UInt32.ofNat stage
  rest : r.address = 0 ∧ r.protocolId = none

/-- A stencil is evaluated to the request it stands for. -/
theorem request_eq_ok :
    set.request vars tidx stencil stage = .ok r ↔ set.Asks vars stencil stage r := by
  simp only [request]
  constructor
  · intro ok
    split at ok
    · cases ok
    · rename_i kind packetType parsed
      obtain ⟨src, hsrc, ok⟩ := bind_eq_ok.mp ok
      obtain ⟨dst, hdst, ok⟩ := bind_eq_ok.mp ok
      obtain ⟨bytes, hbytes, ok⟩ := bind_eq_ok.mp ok
      obtain ⟨vc, hvc, ok⟩ := bind_eq_ok.mp ok
      obtain ⟨response, hresponse, ok⟩ := bind_eq_ok.mp ok
      obtain ⟨-, -, ok⟩ := bind_eq_ok.mp ok
      obtain ⟨-, -, ok⟩ := bind_eq_ok.mp ok
      obtain ⟨⟨⟩, channel, ok⟩ := bind_eq_ok.mp ok
      obtain ⟨⟨⟩, source, ok⟩ := bind_eq_ok.mp ok
      obtain ⟨⟨⟩, destination, ok⟩ := bind_eq_ok.mp ok
      split at ok
      · cases ok
      · rename_i flow
        cases ok
        exact ⟨parsed, ⟨src, evalField_eq_ok.mp hsrc, checkRank_eq_ok.mp source, rfl⟩,
          ⟨dst, evalField_eq_ok.mp hdst, checkRank_eq_ok.mp destination, rfl⟩,
          ⟨vc, evalField_eq_ok.mp hvc, checkField_eq_ok.mp channel, rfl⟩,
          evalField_eq_ok.mp hbytes, evalField_eq_ok.mp hresponse, ⟨by omega, rfl⟩, rfl, rfl, rfl⟩
  · intro asks
    obtain ⟨src, hsrc, source, sourceRank⟩ := asks.source
    obtain ⟨dst, hdst, destination, destinationRank⟩ := asks.destination
    obtain ⟨vc, hvc, channel, virtualChannel⟩ := asks.channel
    have gpus := set.numGpus.toNat_lt
    rw [asks.kind]
    show (evalField vars stencil tidx "src" >>= _) = _
    rw [evalField_eq_ok.mpr hsrc]
    show (evalField vars stencil tidx "dst" >>= _) = _
    rw [evalField_eq_ok.mpr hdst]
    show (evalField vars stencil tidx "bytes" >>= _) = _
    rw [evalField_eq_ok.mpr asks.bytes]
    show (evalField vars stencil tidx "vc" >>= _) = _
    rw [evalField_eq_ok.mpr hvc]
    show (evalField vars stencil tidx "response" >>= _) = _
    rw [evalField_eq_ok.mpr asks.response]
    show (checkField tidx "src" src 65535 "source rank" >>= _) = _
    rw [checkField_eq_ok.mpr (by omega)]
    show (checkField tidx "dst" dst 65535 "destination rank" >>= _) = _
    rw [checkField_eq_ok.mpr (by omega)]
    show (checkField tidx "vc" vc 255 "virtual channel" >>= _) = _
    rw [checkField_eq_ok.mpr channel]
    show (checkRank tidx "src" src set.numGpus "source rank" >>= _) = _
    rw [checkRank_eq_ok.mpr source]
    show (checkRank tidx "dst" dst set.numGpus "destination rank" >>= _) = _
    rw [checkRank_eq_ok.mpr destination]
    show (if 65535 < set.baseFlowId.toNat + stage then _ else _) = _
    have fits := asks.flow.1
    rw [if_neg (by omega), ← sourceRank, ← destinationRank, ← virtualChannel, ← asks.flow.2,
      ← asks.stage]
    obtain ⟨address, protocolId⟩ := asks.rest
    rw [← address, ← protocolId]

/-- A transfer that `Compile` has no objection to at an instance. -/
structure Sendable (numGpus : UInt16) (vars : Vars) (stencil : Stencil) : Prop where
  kind : (parseKind ((stencil "kind".toList).getD "DATA".toList)).isSome = true
  source : ∃ src, FieldIs vars stencil "src" src ∧ src.toNat < numGpus.toNat
  destination : ∃ dst, FieldIs vars stencil "dst" dst ∧ dst.toNat < numGpus.toNat
  channel : ∃ vc, FieldIs vars stencil "vc" vc ∧ vc.toNat ≤ 255
  bytes : ∃ bytes, FieldIs vars stencil "bytes" bytes ∧ bytes ≠ 0
  response : ∃ response, FieldIs vars stencil "response" response

theorem Asks.completionBytes (asks : set.Asks vars stencil stage r) :
    r.completionBytes = r.effectiveBytes := by
  have parsed := asks.kind
  simp only [parseKind] at parsed
  split at parsed
  · have kind : .dataTransfer = r.kind := congrArg Prod.fst (Option.some.inj parsed)
    rw [Request.completionBytes, ← kind]
  · split at parsed
    · have kind : .p2pTransfer = r.kind := congrArg Prod.fst (Option.some.inj parsed)
      rw [Request.completionBytes, ← kind]
    · cases parsed

theorem request_sendable :
    (∃ r, set.request vars tidx stencil stage = .ok r ∧ r.completionBytes ≠ 0) ↔
      Sendable set.numGpus vars stencil ∧ set.baseFlowId.toNat + stage ≤ 65535 := by
  constructor
  · rintro ⟨r, ok, bytes⟩
    have asks := request_eq_ok.mp ok
    rw [asks.completionBytes] at bytes
    obtain ⟨src, hsrc, source, -⟩ := asks.source
    obtain ⟨dst, hdst, destination, -⟩ := asks.destination
    obtain ⟨vc, hvc, channel, -⟩ := asks.channel
    exact ⟨⟨by rw [asks.kind]; rfl, ⟨src, hsrc, source⟩, ⟨dst, hdst, destination⟩,
      ⟨vc, hvc, channel⟩, ⟨_, asks.bytes, bytes⟩, ⟨_, asks.response⟩⟩, asks.flow.1⟩
  · rintro ⟨sendable, fits⟩
    obtain ⟨⟨kind, packetType⟩, parsed⟩ := Option.isSome_iff_exists.mp sendable.kind
    obtain ⟨src, hsrc, source⟩ := sendable.source
    obtain ⟨dst, hdst, destination⟩ := sendable.destination
    obtain ⟨vc, hvc, channel⟩ := sendable.channel
    obtain ⟨bytes, hbytes, some⟩ := sendable.bytes
    obtain ⟨response, hresponse⟩ := sendable.response
    have asks : set.Asks vars stencil stage
        { kind, packetType
          sourceRank := src.toUInt16
          destinationRank := dst.toUInt16
          virtualChannel := vc.toUInt8
          effectiveBytes := bytes
          responseBytes := response
          stageId := UInt32.ofNat stage
          flowId := UInt16.ofNat (set.baseFlowId.toNat + stage) } :=
      ⟨parsed, ⟨src, hsrc, source, rfl⟩, ⟨dst, hdst, destination, rfl⟩, ⟨vc, hvc, channel, rfl⟩,
        hbytes, hresponse, ⟨fits, rfl⟩, rfl, rfl, rfl⟩
    refine ⟨_, request_eq_ok.mpr asks, ?_⟩
    rw [asks.completionBytes]
    exact some

theorem requests_sendable :
    (∃ rs, set.requests stage ps = .ok rs ∧ ∀ y ∈ rs, y.2.completionBytes ≠ 0) ↔
      (∀ p ∈ ps, Sendable set.numGpus (instVars set.vars p.1) p.2.2) ∧
        (ps ≠ [] → set.baseFlowId.toNat + stage + ps.length ≤ 65536) := by
  induction ps generalizing stage with
  | nil => simp [requests]
  | cons p rest ih =>
      have head := @request_sendable set (instVars set.vars p.1) p.2.1 stage p.2.2
      have tail := @ih (stage + 1)
      rw [List.forall_mem_cons, List.length_cons]
      constructor
      · rintro ⟨rs, ok, bytes⟩
        obtain ⟨r, first, ok⟩ := bind_eq_ok.mp ok
        obtain ⟨later, more, ok⟩ := bind_eq_ok.mp ok
        cases ok
        obtain ⟨good, fits⟩ := head.mp ⟨r, first, bytes _ List.mem_cons_self⟩
        obtain ⟨others, room⟩ :=
          tail.mp ⟨later, more, fun y hy => bytes y (List.mem_cons_of_mem _ hy)⟩
        refine ⟨⟨good, others⟩, fun _ => ?_⟩
        cases rest with
        | nil =>
            rw [List.length_nil]
            omega
        | cons q rest =>
            have := room (List.cons_ne_nil _ _)
            omega
      · rintro ⟨⟨good, others⟩, room⟩
        have fits := room (List.cons_ne_nil _ _)
        obtain ⟨r, first, some⟩ := head.mpr ⟨good, by omega⟩
        obtain ⟨later, more, bytes⟩ := tail.mpr ⟨others, fun _ => by omega⟩
        refine ⟨(set.key p, r) :: later, ?_, List.forall_mem_cons.mpr ⟨some, bytes⟩⟩
        rw [requests, first]
        show (set.requests (stage + 1) rest >>= _) = _
        rw [more]
        rfl

variable {rs : List (Nat × Request)}

theorem requests_room (ok : set.requests stage ps = .ok rs) :
    ps = [] ∨ set.baseFlowId.toNat + stage + ps.length ≤ 65536 := by
  induction ps generalizing stage rs with
  | nil => exact .inl rfl
  | cons p rest ih =>
      right
      obtain ⟨r, first, ok⟩ := bind_eq_ok.mp ok
      obtain ⟨later, more, -⟩ := bind_eq_ok.mp ok
      have fits := (request_eq_ok.mp first).flow.1
      rw [List.length_cons]
      rcases ih more with rfl | room
      · rw [List.length_nil]
        omega
      · omega

theorem requests_keys (ok : set.requests stage ps = .ok rs) : rs.map Prod.fst = ps.map set.key := by
  induction ps generalizing stage rs with
  | nil =>
      cases ok
      rfl
  | cons p rest ih =>
      obtain ⟨r, -, ok⟩ := bind_eq_ok.mp ok
      obtain ⟨later, more, ok⟩ := bind_eq_ok.mp ok
      cases ok
      rw [List.map_cons, List.map_cons, ih more]

theorem requests_length (ok : set.requests stage ps = .ok rs) : rs.length = ps.length := by
  rw [← List.length_map (f := Prod.fst), requests_keys ok, List.length_map]

theorem requests_few (ok : set.requests 0 ps = .ok rs) : rs.length ≤ 65536 := by
  rw [requests_length ok]
  rcases requests_room ok with rfl | room
  · exact Nat.zero_le _
  · omega

theorem requests_asks (ok : set.requests stage ps = .ok rs) {i : Nat} {p : Pair}
    (hp : ps[i]? = some p) :
    ∃ r, rs[i]? = some (set.key p, r) ∧ set.Asks (instVars set.vars p.1) p.2.2 (stage + i) r := by
  induction ps generalizing stage rs i with
  | nil => cases hp
  | cons q rest ih =>
      obtain ⟨r, first, ok⟩ := bind_eq_ok.mp ok
      obtain ⟨later, more, ok⟩ := bind_eq_ok.mp ok
      cases ok
      cases i with
      | zero =>
          cases hp
          exact ⟨r, rfl, request_eq_ok.mp first⟩
      | succ i =>
          have same : stage + (i + 1) = stage + 1 + i := by omega
          rw [same]
          exact ih more hp

end Setting

/-! ## Emission -/

theorem perm_ordered (firstDim : String) (insts : List Vars) :
    (ordered firstDim insts).Perm insts := List.perm_insertionSort _ _

theorem perm_pairs {insts insts' : List Vars} (h : insts.Perm insts') (transfers : Stencils) :
    (Setting.pairs insts transfers).Perm (Setting.pairs insts' transfers) := h.flatMap_right _

theorem length_pairs (insts : List Vars) (transfers : Stencils) :
    (Setting.pairs insts transfers).length = insts.length * transfers.entries.length := by
  simp [Setting.pairs, List.length_flatMap, List.map_const', List.sum_replicate]

/-- The first replicate variable, which keys the groups. -/
def firstDim (dims : List ResolvedDim) : String := (dims.head?.map ResolvedDim.var).getD ""

/-- The groups of the transfers, one entry for each transfer. -/
def groups (dims : List ResolvedDim) (insts : List Vars) (transfers : Stencils) : List Nat :=
  (Setting.pairs insts transfers).map fun p => groupKeyOf (firstDim dims) p.1

/-- What `Compile` needs, once the stencils are collected, to return a node. -/
structure Emits (cfg : ProtocolConfig) (vendor : Vendor) (numGpus : UInt16) (dataSize : UInt64)
    (baseFlowId : UInt16) (includeStartup : Bool) (vars : Vars) (dims : List ResolvedDim)
    (insts : List Vars) (transfers : Stencils) : Prop where
  stencils : transfers.entries ≠ []
  startup : ∃ ns, startup cfg vendor numGpus dataSize includeStartup vars = .ok ns ∧
    ns.toNat < 2 ^ 63
  perStep : ∃ ns, eval vars cfg.perStepDelay = .ok ns ∧
    ((groups dims insts transfers).Nodup ∨ ns.toNat < 2 ^ 63)
  sendable : ∀ inst ∈ insts, ∀ kv ∈ transfers.entries,
    Setting.Sendable numGpus (instVars vars inst) kv.2
  flows : baseFlowId.toNat + insts.length * transfers.entries.length ≤ 65536

theorem startup_answers (cfg : ProtocolConfig) (vendor : Vendor) (numGpus : UInt16)
    (dataSize : UInt64) (includeStartup : Bool) (vars : Vars) :
    Answers (startup cfg vendor numGpus dataSize includeStartup vars) := by
  rw [startup]
  split
  · exact .ok _
  · split
    · exact .ok _
    · exact evalOr_answers _ _ _

section Emit

variable {cfg : ProtocolConfig} {vendor : Vendor} {numGpus baseFlowId : UInt16} {dataSize : UInt64}
  {includeStartup : Bool} {vars : Vars} {dims : List ResolvedDim} {insts : List Vars}
  {transfers : Stencils}

/-- The loops and the checks, under a setting. -/
theorem Setting.emit_spec (cfg : ProtocolConfig) (set : Setting) (stencils : transfers.entries ≠ [])
    (some : insts ≠ []) :
    Answers (insts.foldlM (set.emitInstance transfers) {} >>= finish cfg) ∧
      ((∃ built, (insts.foldlM (set.emitInstance transfers) {} >>= finish cfg) = .ok built) ↔
        (∀ p ∈ pairs insts transfers, Sendable set.numGpus (instVars set.vars p.1) p.2.2) ∧
        set.baseFlowId.toNat + (pairs insts transfers).length ≤ 65536 ∧
        set.startupNs.toNat < 2 ^ 63 ∧
        (((pairs insts transfers).map set.key).Nodup ∨ set.perStepNs.toNat < 2 ^ 63)) := by
  have more : pairs insts transfers ≠ [] := by
    rw [← List.length_pos_iff, length_pairs]
    exact Nat.mul_pos (List.length_pos_iff.mpr some) (List.length_pos_iff.mpr stencils)
  have asked := @requests_sendable set 0 (pairs insts transfers)
  have loops := foldlM_emitPair (set.emitted_empty) (pairs insts transfers)
  rw [foldlM_emitInstance stencils]
  rcases set.requests_answers 0 (pairs insts transfers) with ⟨rs, ok⟩ | ⟨m, fails⟩
  · obtain ⟨st, run, emitted⟩ := loops.1 rs ok
    rw [run]
    show Answers (finish cfg st) ∧ ((∃ built, finish cfg st = .ok built) ↔ _)
    rw [List.nil_append] at emitted
    have nonempty : rs ≠ [] := by
      rw [← List.length_pos_iff, requests_length ok]
      exact List.length_pos_iff.mpr more
    obtain ⟨answers, built⟩ := finish_spec cfg emitted nonempty (requests_few ok)
    refine ⟨answers, built.trans ?_⟩
    rw [← requests_keys ok]
    constructor
    · intro passes
      obtain ⟨sendable, room⟩ := asked.mp ⟨rs, ok, passes.bytes⟩
      exact ⟨sendable, room more, passes.startup, passes.perStep⟩
    · rintro ⟨sendable, room, startup, perStep⟩
      obtain ⟨rs', ok', bytes⟩ := asked.mpr ⟨sendable, fun _ => room⟩
      rw [ok] at ok'
      cases ok'
      exact ⟨bytes, startup, perStep⟩
  · rw [loops.2 _ fails]
    refine ⟨.rejected m, ?_, ?_⟩
    · rintro ⟨built, ok⟩
      cases ok
    · rintro ⟨sendable, room, -⟩
      obtain ⟨rs, ok, -⟩ := asked.mpr ⟨sendable, fun _ => room⟩
      rw [fails] at ok
      cases ok

/-- Steps 5 and 6 return a node or an error, and a node exactly when nothing is wrong. -/
theorem emit_spec (some : insts ≠ []) :
    Answers (emit cfg vendor numGpus dataSize baseFlowId includeStartup vars dims insts
      transfers) ∧
    ((∃ built, emit cfg vendor numGpus dataSize baseFlowId includeStartup vars dims insts
      transfers = .ok built) ↔
      Emits cfg vendor numGpus dataSize baseFlowId includeStartup vars dims insts transfers) := by
  rw [emit]
  by_cases stencils : transfers.entries = []
  · rw [if_pos stencils]
    refine ⟨.rejected _, ?_, fun emits => absurd stencils emits.stencils⟩
    rintro ⟨built, ok⟩
    cases ok
  · rw [if_neg stencils]
    rcases startup_answers cfg vendor numGpus dataSize includeStartup vars with
      ⟨startupNs, hstartup⟩ | ⟨m, fails⟩
    · rw [hstartup]
      show Answers (evalOr vars cfg.perStepDelay id >>= _) ∧
        ((∃ built, (evalOr vars cfg.perStepDelay id >>= _) = .ok built) ↔ _)
      rcases evalOr_answers vars cfg.perStepDelay id with ⟨perStepNs, hperStep⟩ | ⟨m, fails⟩
      · rw [hperStep]
        have perm := perm_ordered (firstDim dims) insts
        have spec := Setting.emit_spec cfg
          { vendor, numGpus, baseFlowId, vars, firstDim := firstDim dims, startupNs, perStepNs }
          stencils (fun none => some (List.perm_nil.mp (none ▸ perm.symm)))
        have swap := perm_pairs perm transfers
        refine ⟨spec.1, spec.2.trans ?_⟩
        rw [swap.length_eq, length_pairs, (swap.map _).nodup_iff]
        constructor
        · rintro ⟨sendable, room, startup, perStep⟩
          refine ⟨stencils, ⟨_, hstartup, startup⟩, ⟨_, evalOr_eq_ok.mp hperStep, perStep⟩,
            fun inst hinst kv hkv => ?_, room⟩
          apply sendable (inst, kv)
          rw [swap.mem_iff, Setting.pairs, List.mem_flatMap]
          exact ⟨inst, hinst, List.mem_map_of_mem hkv⟩
        · intro emits
          obtain ⟨ns, startup, short⟩ := emits.startup
          obtain ⟨ns', perStep, apart⟩ := emits.perStep
          rw [hstartup] at startup
          cases startup
          rw [evalOr_eq_ok.mp hperStep] at perStep
          cases perStep
          refine ⟨fun p hp => ?_, emits.flows, short, apart⟩
          rw [swap.mem_iff, Setting.pairs, List.mem_flatMap] at hp
          obtain ⟨inst, hinst, mem⟩ := hp
          obtain ⟨kv, hkv, rfl⟩ := List.mem_map.mp mem
          exact emits.sendable inst hinst kv hkv
      · rw [fails]
        refine ⟨.rejected m, ?_, fun emits => ?_⟩
        · rintro ⟨built, ok⟩
          cases ok
        · obtain ⟨ns, perStep, -⟩ := emits.perStep
          rw [evalOr_eq_ok.mpr perStep] at fails
          cases fails
    · rw [fails]
      refine ⟨.rejected m, ?_, fun emits => ?_⟩
      · rintro ⟨built, ok⟩
        cases ok
      · obtain ⟨ns, startup, -⟩ := emits.startup
        rw [startup] at fails
        cases fails

end Emit

/-! ## The compiler -/

section Compile

variable {cfg : ProtocolConfig} {vendor : Vendor} {numGpus baseFlowId : UInt16} {dataSize : UInt64}
  {includeStartup : Bool} {vars : Vars} {dims : List ResolvedDim}

/-- The parameters and bounds of a configuration have values, and no range is empty. -/
def Resolves (cfg : ProtocolConfig) (numGpus : UInt16) (dataSize : UInt64) (vars : Vars)
    (dims : List ResolvedDim) : Prop :=
  bindParams cfg.param (baseVars numGpus dataSize) = .ok vars ∧
    resolveDims vars cfg.dims = .ok dims

/-- What follows the loops. -/
def afterLoops (cfg : ProtocolConfig) (vendor : Vendor) (numGpus : UInt16) (dataSize : UInt64)
    (baseFlowId : UInt16) (includeStartup : Bool) (vars : Vars) (dims : List ResolvedDim) :
    Compiled (Graph × Nat) :=
  match collect cfg with
  | .error what => .error (.failed (.thrown what))
  | .ok transfers =>
      emit cfg vendor numGpus dataSize baseFlowId includeStartup vars dims
        (points dims fun _ => none) transfers

theorem compile_unresolved (h : ¬ ∃ vars dims, Resolves cfg numGpus dataSize vars dims) :
    ∃ m, ∀ fuel, compile cfg (some vendor) numGpus dataSize baseFlowId includeStartup fuel =
      reject m := by
  rcases bindParams_answers cfg.param (baseVars numGpus dataSize) with ⟨vars, params⟩ | ⟨m, fails⟩
  · rcases resolveDims_answers vars cfg.dims with ⟨dims, bounds⟩ | ⟨m, fails⟩
    · exact absurd ⟨vars, dims, params, bounds⟩ h
    · refine ⟨m, fun fuel => ?_⟩
      rw [compile, params]
      show (resolveDims vars cfg.dims >>= _) = _
      rw [fails]
      rfl
  · refine ⟨m, fun fuel => ?_⟩
    rw [compile, fails]
    rfl

theorem compile_resolved (h : Resolves cfg numGpus dataSize vars dims) (fuel : Nat) :
    compile cfg (some vendor) numGpus dataSize baseFlowId includeStartup fuel =
      instances fuel dims >>= fun insts =>
        match collect cfg with
        | .error what => .error (.failed (.thrown what))
        | .ok transfers =>
            emit cfg vendor numGpus dataSize baseFlowId includeStartup vars dims insts
              transfers := by
  rw [compile, h.1]
  show (resolveDims vars cfg.dims >>= _) = _
  rw [h.2]
  rfl

/-- A bound of the largest number makes `Compile` loop for ever. -/
theorem compile_endless (h : Resolves cfg numGpus dataSize vars dims)
    (endless : ∃ d ∈ dims, ¬ d.Ends) (fuel : Nat) :
    compile cfg (some vendor) numGpus dataSize baseFlowId includeStartup fuel =
      .error .starved := by
  rw [compile_resolved h, instances_starved (resolveDims_ranges h.2) endless]
  rfl

theorem compile_ends (h : Resolves cfg numGpus dataSize vars dims) (ends : ∀ d ∈ dims, d.Ends) :
    compile cfg (some vendor) numGpus dataSize baseFlowId includeStartup (2 ^ 64 + 1) =
      afterLoops cfg vendor numGpus dataSize baseFlowId includeStartup vars dims := by
  rw [compile_resolved h, instances_ends (resolveDims_ranges h.2) ends]
  rfl

theorem compile_within (h : Resolves cfg numGpus dataSize vars dims) (ends : ∀ d ∈ dims, d.Ends)
    (fuel : Nat) :
    Within (compile cfg (some vendor) numGpus dataSize baseFlowId includeStartup fuel)
      (afterLoops cfg vendor numGpus dataSize baseFlowId includeStartup vars dims) := by
  rw [compile_resolved h]
  rcases instances_within (resolveDims_ranges h.2) ends fuel with starved | ok
  · rw [starved]
    exact .starved _
  · rw [ok]
    exact .refl _

theorem compile_agree {fuel fuel' : Nat}
    (fed : compile cfg (some vendor) numGpus dataSize baseFlowId includeStartup fuel ≠
      .error .starved)
    (fed' : compile cfg (some vendor) numGpus dataSize baseFlowId includeStartup fuel' ≠
      .error .starved) :
    compile cfg (some vendor) numGpus dataSize baseFlowId includeStartup fuel =
      compile cfg (some vendor) numGpus dataSize baseFlowId includeStartup fuel' := by
  by_cases resolved : ∃ vars dims, Resolves cfg numGpus dataSize vars dims
  · obtain ⟨vars, dims, h⟩ := resolved
    by_cases ends : ∀ d ∈ dims, d.Ends
    · exact ((compile_within h ends fuel).eq fed).trans ((compile_within h ends fuel').eq fed').symm
    · simp only [not_forall] at ends
      obtain ⟨d, hd, last⟩ := ends
      exact absurd (compile_endless h ⟨d, hd, last⟩ fuel) fed
  · obtain ⟨m, rejected⟩ := @compile_unresolved _ vendor _ baseFlowId _ includeStartup resolved
    rw [rejected, rejected]

end Compile

/-! ## What the compiler is for -/

/-- It returns a node or an error. It returns a node only if every transfer index is a decimal
number of 32 bits, and then takes no index for another. -/
def Handled (cfg : ProtocolConfig) (outcome : Nat → Compiled (Graph × Nat)) : Prop :=
  ∃ fuel, (∃ m, outcome fuel = reject m) ∨
    (∃ built, outcome fuel = .ok built) ∧ (∀ text ∈ cfg.indices, IsIndex text) ∧
      ∀ s ∈ cfg.indices, ∀ t ∈ cfg.indices, indexOf s = indexOf t → decimal s = decimal t

/-- **When the compiler rejects what it cannot compile.** It does so, for a configuration that
`Load` accepts, exactly if a parameter or a bound is rejected first; or if no bound is the largest
number, `std::stoul` reads every index, and the indices are decimal numbers of 32 bits unless
something else in the operation is wrong. -/
theorem compile_handled {layout : Placing} {path : String} {file : Option (List Char)}
    {cfg : ProtocolConfig} (loaded : load layout path file = .ok cfg) (vendor : Vendor)
    (numGpus : UInt16) (dataSize : UInt64) (baseFlowId : UInt16) (includeStartup : Bool) :
    Handled cfg (compile cfg (some vendor) numGpus dataSize baseFlowId includeStartup) ↔
      ∀ vars dims, Resolves cfg numGpus dataSize vars dims →
        (∀ d ∈ dims, d.hi ≠ 18446744073709551615) ∧
        (∀ text ∈ cfg.indices, ∃ n, stoul text = .ok n) ∧
        ((∀ text ∈ cfg.indices, IsIndex text) ∨
          ∀ transfers, collect cfg = .ok transfers →
            ¬ Emits cfg vendor numGpus dataSize baseFlowId includeStartup vars dims
              (points dims fun _ => none) transfers) := by
  have keys := load_transfer loaded
  by_cases resolved : ∃ vars dims, Resolves cfg numGpus dataSize vars dims
  · obtain ⟨vars, dims, h⟩ := resolved
    have only : ∀ vars' dims', Resolves cfg numGpus dataSize vars' dims' →
        vars' = vars ∧ dims' = dims := by
      rintro vars' dims' ⟨params, bounds⟩
      rw [h.1] at params
      cases params
      rw [h.2] at bounds
      cases bounds
      exact ⟨rfl, rfl⟩
    have nonempty := points_ne_nil (resolveDims_ranges h.2) fun _ => none
    constructor
    · rintro ⟨fuel, outcome⟩ vars' dims' h'
      obtain ⟨rfl, rfl⟩ := only vars' dims' h'
      have fed : compile cfg (some vendor) numGpus dataSize baseFlowId includeStartup fuel ≠
          .error .starved := by
        intro starved
        rw [starved] at outcome
        rcases outcome with ⟨m, absurd⟩ | ⟨⟨built, absurd⟩, -⟩
        · cases absurd
        · cases absurd
      have ends : ∀ d ∈ dims', d.hi ≠ 18446744073709551615 := by
        intro d hd last
        exact fed (compile_endless h ⟨d, hd, not_not.mpr last⟩ fuel)
      have run := (compile_within h ends fuel).eq fed
      rw [run] at outcome
      rw [← collect_ok_iff keys]
      cases collected : collect cfg with
      | error what =>
          rw [afterLoops, collected] at outcome
          rcases outcome with ⟨m, absurd⟩ | ⟨⟨built, absurd⟩, -⟩
          · cases absurd
          · cases absurd
      | ok transfers =>
          refine ⟨ends, ⟨transfers, rfl⟩, ?_⟩
          rw [afterLoops, collected] at outcome
          rcases outcome with ⟨m, rejected⟩ | ⟨-, decimals, -⟩
          · right
            rintro transfers' ⟨⟩ emits
            obtain ⟨built, ok⟩ := (emit_spec nonempty).2.mpr emits
            cases ok.symm.trans rejected
          · exact .inl decimals
    · intro condition
      obtain ⟨ends, read, indices⟩ := condition vars dims h
      obtain ⟨transfers, collected⟩ := (collect_ok_iff keys).mpr read
      refine ⟨2 ^ 64 + 1, ?_⟩
      rw [compile_ends h ends, afterLoops, collected]
      obtain ⟨answers, built⟩ := @emit_spec cfg vendor numGpus baseFlowId dataSize includeStartup
        vars dims _ transfers nonempty
      rcases answers with ⟨node, ok⟩ | rejected
      · have emits := built.mp ⟨node, ok⟩
        have decimals := indices.resolve_right fun wrong => wrong transfers collected emits
        refine .inr ⟨⟨node, ok⟩, decimals, fun s hs t ht same => ?_⟩
        rw [(decimals s hs).indexOf_eq, (decimals t ht).indexOf_eq] at same
        exact Except.ok.inj same
      · exact .inl rejected
  · constructor
    · intro _ vars dims h
      exact absurd ⟨vars, dims, h⟩ resolved
    · intro _
      obtain ⟨m, rejected⟩ := @compile_unresolved _ vendor _ baseFlowId _ includeStartup resolved
      exact ⟨0, .inl ⟨m, rejected 0⟩⟩

theorem load_of_map {α : Type} {f : ProtocolConfig → α} {a : α} {text : List Char}
    (h : (load .last "" (some text)).toOption.map f = some a) :
    ∃ cfg, load .last "" (some text) = .ok cfg ∧ f cfg = a := by
  cases read : load .last "" (some text) with
  | error e =>
      rw [read] at h
      cases h
  | ok cfg =>
      rw [read] at h
      exact ⟨cfg, rfl, Option.some.inj h⟩

/-- A vendor with one protocol and no startup. -/
def plainVendor : Vendor where
  getProtocolId _ := 0
  getWireSize size _ := size
  getChunkSize _ := 4096
  getStartupDelayNs _ _ := 0

/-- A range up to the largest number. -/
def endlessText : List Char :=
  "[op]\nreplicate.g = 0 .. 18446744073709551615\ntransfer.0.bytes = 64".toList

/-- An index that is not a number. -/
def wordText : List Char := "[op]\ntransfer.x.bytes = 64".toList

/-- Two indices that are the same number modulo 2^32. -/
def mergedText : List Char := "[op]\ntransfer.0.dst = 1\ntransfer.4294967296.bytes = 64".toList

theorem endlessText_dims : ((load .last "" (some endlessText)).toOption.map fun cfg =>
    (cfg.param, (resolveDims (baseVars 2 1024) cfg.dims).toOption)) =
      some ([], some [⟨"g", 0, 18446744073709551615⟩]) := by
  decide +kernel

theorem wordText_throws : ((load .last "" (some wordText)).toOption.map fun cfg =>
    match compile cfg (some plainVendor) 2 1024 0 true 1 with
    | .error (.failed (.thrown .invalidArgument)) => true
    | _ => false) = some true := by
  decide +kernel

theorem mergedText_compiles : ((load .last "" (some mergedText)).toOption.map fun cfg =>
    ((compile cfg (some plainVendor) 2 1024 0 true 1).toOption.isSome, cfg.indices)) =
      some (true, ["0".toList, "4294967296".toList]) := by
  decide +kernel

theorem not_handled_of_thrown {cfg : ProtocolConfig} {vendor : Vendor} {baseFlowId : UInt16}
    {dataSize : UInt64} {includeStartup : Bool} {fuel : Nat} {what : Thrown}
    (thrown : compile cfg (some vendor) numGpus dataSize baseFlowId includeStartup fuel =
      .error (.failed (.thrown what))) :
    ¬ Handled cfg (compile cfg (some vendor) numGpus dataSize baseFlowId includeStartup) := by
  rintro ⟨fuel', outcome⟩
  have same := @compile_agree cfg vendor numGpus baseFlowId dataSize includeStartup fuel fuel'
    (by rw [thrown]; intro absurd; cases absurd) (by
      intro starved
      rw [starved] at outcome
      rcases outcome with ⟨m, absurd⟩ | ⟨⟨built, absurd⟩, -⟩
      · cases absurd
      · cases absurd)
  rw [← same, thrown] at outcome
  rcases outcome with ⟨m, absurd⟩ | ⟨⟨built, absurd⟩, -⟩
  · cases absurd
  · cases absurd

/-- `Compile` loops for ever, lets an exception out, and makes one transfer of two. -/
theorem compile_not_handled :
    (∃ cfg, load .last "" (some endlessText) = .ok cfg ∧
      ¬ Handled cfg (compile cfg (some plainVendor) 2 1024 0 true)) ∧
    (∃ cfg, load .last "" (some wordText) = .ok cfg ∧
      ¬ Handled cfg (compile cfg (some plainVendor) 2 1024 0 true)) ∧
    ∃ cfg, load .last "" (some mergedText) = .ok cfg ∧
      ¬ Handled cfg (compile cfg (some plainVendor) 2 1024 0 true) := by
  refine ⟨?_, ?_, ?_⟩
  · obtain ⟨cfg, loaded, values⟩ := load_of_map endlessText_dims
    obtain ⟨params, bounds⟩ := Prod.mk.inj values
    refine ⟨cfg, loaded, ?_⟩
    have resolved : Resolves cfg 2 1024 (baseVars 2 1024) [⟨"g", 0, 18446744073709551615⟩] := by
      constructor
      · rw [params]
        rfl
      · cases dims : resolveDims (baseVars 2 1024) cfg.dims with
        | error e =>
            rw [dims] at bounds
            cases bounds
        | ok ds =>
            rw [dims] at bounds
            exact congrArg _ (Option.some.inj bounds)
    rintro ⟨fuel, outcome⟩
    rw [compile_endless resolved ⟨_, List.mem_singleton_self _, by decide⟩] at outcome
    rcases outcome with ⟨m, absurd⟩ | ⟨⟨built, absurd⟩, -⟩
    · cases absurd
    · cases absurd
  · obtain ⟨cfg, loaded, throws⟩ := load_of_map wordText_throws
    refine ⟨cfg, loaded, ?_⟩
    split at throws
    · rename_i thrown
      exact not_handled_of_thrown thrown
    · cases throws
  · obtain ⟨cfg, loaded, values⟩ := load_of_map mergedText_compiles
    obtain ⟨compiled, indices⟩ := Prod.mk.inj values
    refine ⟨cfg, loaded, ?_⟩
    rintro ⟨fuel, ⟨m, rejected⟩ | ⟨-, decimals, -⟩⟩
    · have same := @compile_agree cfg plainVendor 2 0 1024 true fuel 1
        (by rw [rejected]; intro absurd; cases absurd) (by
          intro starved
          rw [starved] at compiled
          cases compiled)
      rw [← same, rejected] at compiled
      cases compiled
    · rw [indices] at decimals
      have big := decimals "4294967296".toList (by simp)
      revert big
      decide +kernel

/-- The stencil of one transfer. -/
def soundText : List Char := "[op]\ntransfer.0.dst = 1\ntransfer.0.bytes = 64".toList

theorem soundText_resolves : ((load .last "" (some soundText)).toOption.map fun cfg =>
    (cfg.param, cfg.dims, cfg.indices)) = some ([], [], ["0".toList, "0".toList]) := by
  decide +kernel

theorem compile_handled_soundText : ∃ cfg, load .last "" (some soundText) = .ok cfg ∧
    Handled cfg (compile cfg (some plainVendor) 2 1024 0 true) := by
  obtain ⟨cfg, loaded, values⟩ := load_of_map soundText_resolves
  obtain ⟨params, values⟩ := Prod.mk.inj values
  obtain ⟨dims, indices⟩ := Prod.mk.inj values
  refine ⟨cfg, loaded, (compile_handled loaded plainVendor 2 1024 0 true).mpr ?_⟩
  rintro vars ds ⟨-, bounds⟩
  rw [dims] at bounds
  cases bounds
  have zero : ∀ text ∈ cfg.indices, text = "0".toList := by
    rw [indices]
    simp
  refine ⟨fun d hd => (by cases hd), fun text mem => ⟨0, ?_⟩, .inl fun text mem => ?_⟩
  · rw [zero text mem]
    rfl
  · rw [zero text mem]
    decide

/-! ## What is compiled -/

namespace Setting

variable {set : Setting}

/-- A graph with one request for each pair, chained by group, whose last node waits for the ends of the
chains. -/
structure Builds (set : Setting) (kind : Dependency) (ps : List Pair) (rs : List (Nat × Request))
    (built : Graph × Nat) : Prop where
  count : rs.length = ps.length
  asked : ∀ i p, ps[i]? = some p →
    ∃ r, rs[i]? = some (set.key p, r) ∧ set.Asks (instVars set.vars p.1) p.2.2 i r
  graph : ∃ (chains : Graph) (finals : List Nat), chains.Woven (set.weave rs) ∧
    (∀ i, i ∈ finals ↔ ∃ k, last (set.weave rs) k = some i) ∧
    built = (chains.addCompletion finals kind, chains.size)
  valid : built.1.validate = .ok ()

theorem finish_built {cfg : ProtocolConfig} {st : Emission} {built : Graph × Nat}
    (ok : finish cfg st = .ok built) :
    built = (st.graph.addCompletion (finals st)
      (if cfg.complete = "any".toList then .any else .all), st.graph.size) ∧
    built.1.validate = .ok () := by
  unfold finish at ok
  dsimp only at ok
  split at ok
  · cases ok
  · split at ok
    · rename_i valid
      cases ok
      exact ⟨rfl, valid⟩
    · cases ok

theorem loops_build {cfg : ProtocolConfig} {insts : List Vars} {transfers : Stencils}
    {built : Graph × Nat} (stencils : transfers.entries ≠ [])
    (ok : (insts.foldlM (set.emitInstance transfers) {} >>= finish cfg) = .ok built) :
    ∃ rs, set.Builds (if cfg.complete = "any".toList then .any else .all) (pairs insts transfers)
      rs built := by
  obtain ⟨st, run, ok⟩ := bind_eq_ok.mp ok
  rw [foldlM_emitInstance stencils] at run
  obtain ⟨good, bad⟩ := foldlM_emitPair set.emitted_empty (pairs insts transfers)
  obtain ⟨rfl, valid⟩ := finish_built ok
  rcases set.requests_answers 0 (pairs insts transfers) with ⟨rs, asked⟩ | ⟨m, fails⟩
  · obtain ⟨st', run', emitted⟩ := good rs asked
    cases run.symm.trans run'
    refine ⟨rs, requests_length asked, fun i p hp => ?_, ⟨st.graph, finals st,
      emitted.tracks.woven, fun i => mem_finals emitted (requests_few asked), rfl⟩, valid⟩
    simpa using requests_asks asked hp
  · cases (bad _ fails).symm.trans run

end Setting

/-- **What `Compile` builds.** A node it returns completes a graph that passes the checks. It has one
request for each point and each stencil, evaluated at that point with the stage as its flow, the
requests of a group are one chain in the order of the loops, and the node waits for the ends of the
chains and nothing else. -/
theorem compile_builds {cfg : ProtocolConfig} {vendor : Vendor} {numGpus baseFlowId : UInt16}
    {dataSize : UInt64} {includeStartup : Bool} {fuel : Nat} {built : Graph × Nat}
    (ok : compile cfg (some vendor) numGpus dataSize baseFlowId includeStartup fuel = .ok built) :
    ∃ vars dims transfers startupNs perStepNs rs, Resolves cfg numGpus dataSize vars dims ∧
      collect cfg = .ok transfers ∧
      startup cfg vendor numGpus dataSize includeStartup vars = .ok startupNs ∧
      eval vars cfg.perStepDelay = .ok perStepNs ∧
      Setting.Builds
        { vendor, numGpus, baseFlowId, vars, firstDim := firstDim dims, startupNs, perStepNs }
        (if cfg.complete = "any".toList then .any else .all)
        (Setting.pairs (ordered (firstDim dims) (points dims fun _ => none)) transfers) rs built := by
  obtain ⟨vars, params, ok⟩ := bind_eq_ok.mp ok
  obtain ⟨dims, bounds, ok⟩ := bind_eq_ok.mp ok
  obtain ⟨insts, loops, ok⟩ := bind_eq_ok.mp ok
  have ranges := resolveDims_ranges bounds
  have ends : ∀ d ∈ dims, d.Ends := by
    by_contra endless
    simp only [not_forall] at endless
    obtain ⟨d, hd, never⟩ := endless
    rw [instances_starved ranges ⟨d, hd, never⟩] at loops
    cases loops
  have all : insts = points dims fun _ => none := by
    have same := (instances_within ranges ends fuel).eq (by rw [loops]; intro absurd; cases absurd)
    exact Except.ok.inj (loops.symm.trans same)
  split at ok
  · cases ok
  · rename_i transfers collected
    unfold emit at ok
    split at ok
    · cases ok
    · rename_i stencils
      obtain ⟨startupNs, starts, ok⟩ := bind_eq_ok.mp ok
      obtain ⟨perStepNs, paces, ok⟩ := bind_eq_ok.mp ok
      obtain ⟨rs, builds⟩ := Setting.loops_build stencils ok
      rw [all] at builds
      exact ⟨vars, dims, transfers, startupNs, perStepNs, rs, ⟨params, bounds⟩, collected, starts,
        evalOr_eq_ok.mp paces, builds⟩

theorem mergedText_op : ((load .last "" (some mergedText)).toOption.map fun cfg =>
    (cfg.param, cfg.dims, cfg.startup, cfg.perStepDelay, cfg.complete)) =
      some ([], [], "auto".toList, "0".toList, "all".toList) := by
  decide +kernel

theorem mergedText_stencils : ((load .last "" (some mergedText)).toOption.map fun cfg =>
    (collect cfg).toOption.map fun transfers =>
      (transfers.entries.map Prod.fst,
        transfers.entries.flatMap fun kv => [kv.2 "dst".toList, kv.2 "bytes".toList])) =
      some (some ([0], [some "1".toList, some "64".toList])) := by
  decide +kernel

theorem eval_zero : (eval (baseVars 2 1024) "0".toList).toOption = some 0 := by
  decide +kernel

/-- The two stencils of `mergedText` have one number, so they are one stencil and one request. -/
theorem compile_builds_mergedText : ∃ cfg built stencil rs,
    load .last "" (some mergedText) = .ok cfg ∧
      compile cfg (some plainVendor) 2 1024 0 true 1 = .ok built ∧
      stencil "dst".toList = some "1".toList ∧ stencil "bytes".toList = some "64".toList ∧
      Setting.Builds
        { vendor := plainVendor, numGpus := 2, baseFlowId := 0, vars := baseVars 2 1024
          firstDim := "", startupNs := 0, perStepNs := 0 }
        .all [(fun _ => none, 0, stencil)] rs built := by
  obtain ⟨cfg, loaded, values⟩ := load_of_map mergedText_op
  obtain ⟨cfg₁, loaded₁, stencils⟩ := load_of_map mergedText_stencils
  obtain ⟨cfg₂, loaded₂, compiles⟩ := load_of_map mergedText_compiles
  cases loaded.symm.trans loaded₁
  cases loaded.symm.trans loaded₂
  obtain ⟨params, values⟩ := Prod.mk.inj values
  obtain ⟨dims, values⟩ := Prod.mk.inj values
  obtain ⟨startup_eq, values⟩ := Prod.mk.inj values
  obtain ⟨perStep, complete⟩ := Prod.mk.inj values
  obtain ⟨compiled, -⟩ := Prod.mk.inj compiles
  cases ok : compile cfg (some plainVendor) 2 1024 0 true 1 with
  | error e =>
      rw [ok] at compiled
      cases compiled
  | ok built =>
      obtain ⟨vars, ds, transfers, startupNs, perStepNs, rs, ⟨bound, resolved⟩, collected, starts,
        paces, builds⟩ := compile_builds ok
      rw [params] at bound
      cases bound
      rw [dims] at resolved
      cases resolved
      rw [startup, startup_eq] at starts
      cases starts
      rw [perStep] at paces
      have zero := eval_zero
      rw [paces] at zero
      cases zero
      rw [collected] at stencils
      obtain ⟨keys, fields⟩ := Prod.mk.inj (Option.some.inj stencils)
      obtain ⟨⟨_, stencil⟩, entries, rfl⟩ := List.map_eq_singleton_iff.mp keys
      rw [entries] at fields
      obtain ⟨dst, bytes⟩ := List.cons.inj fields
      refine ⟨cfg, built, stencil, rs, loaded, ok, dst, (List.cons.inj bytes).1, ?_⟩
      have one : Setting.pairs (ordered "" (points [] fun _ => none)) transfers =
          [(fun _ => none, 0, stencil)] := by
        show Setting.pairs [fun _ => none] transfers = _
        simp [Setting.pairs, entries]
      rw [complete] at builds
      exact one ▸ builds

end ProtoBridge.Config
