import ProtoBridge.Config.Compile

/-!
# What the emission builds

The loops over instances and transfers evaluate one request for each pair, in order
(`Setting.requests`), and weave the graph of `weave` from them: every request adds an
action and a wait at the end of the chain of its group, behind the startup delay if it is
the first of the group and behind the per-step delay if it is not.
-/

namespace ProtoBridge.Config

open Lib Lib.Weave Fabric Transaction
open List (append_assoc foldlM_cons map_cons mem_cons not_mem_nil)

/-! ## The nodes of a request -/

def delayNode (ns : UInt64) : Node := { type := .delay, delay := nanoSeconds ns }

namespace Setting

/-- What a request of a group waits behind. -/
def opening (set : Setting) (begun : Bool) : List Node :=
  let ns := if begun then set.perStepNs else set.startupNs
  if 0 < ns then [delayNode ns] else []

def actionNode (set : Setting) (r : Request) : Node :=
  { type := .action, action := set.vendor.actionOf r }

end Setting

def waitNode (r : Request) : Node :=
  { type := .wait, matcher := r.matcher, targetBytes := r.completionBytes }

namespace Setting

variable {set : Setting} {done : List (Nat × Request)} {k gkey : Nat} {r : Request}
  {st st' : Emission} {log : List (Nat × Node)}

/-- The nodes of a request. -/
def stretch (set : Setting) (begun : Bool) (r : Request) : List Node :=
  set.opening begun ++ [set.actionNode r, waitNode r]

/-- The nodes of a list of requests; the groups in `begun` have had one. -/
def weaveFrom (set : Setting) : List Nat → List (Nat × Request) → List (Nat × Node)
  | _, [] => []
  | begun, (k, r) :: rest =>
      (set.stretch (k ∈ begun) r).map (k, ·) ++ weaveFrom set (k :: begun) rest

def weave (set : Setting) (done : List (Nat × Request)) : List (Nat × Node) :=
  set.weaveFrom [] done

theorem weaveFrom_append (set : Setting) (begun : List Nat) (done : List (Nat × Request))
    (k : Nat) (r : Request) : set.weaveFrom begun (done ++ [(k, r)]) =
      set.weaveFrom begun done ++
        (set.stretch (k ∈ begun ∨ k ∈ done.map Prod.fst) r).map (k, ·) := by
  induction done generalizing begun with
  | nil => simp [weaveFrom]
  | cons x rest ih =>
      obtain ⟨k', r'⟩ := x
      have same : decide (k ∈ k' :: begun ∨ k ∈ rest.map Prod.fst) =
          decide (k ∈ begun ∨ k ∈ ((k', r') :: rest).map Prod.fst) := by
        rw [decide_eq_decide, map_cons, mem_cons, mem_cons]
        tauto
      rw [List.cons_append, weaveFrom, ih, weaveFrom, append_assoc, same]

theorem weave_append (set : Setting) (done : List (Nat × Request)) (k : Nat) (r : Request) :
    set.weave (done ++ [(k, r)]) =
      set.weave done ++ (set.stretch (k ∈ done.map Prod.fst) r).map (k, ·) := by
  rw [weave, weaveFrom_append]
  have only : (k ∈ [] ∨ k ∈ done.map Prod.fst) = (k ∈ done.map Prod.fst) := by simp
  simp only [only, weave]

theorem mem_weaveFrom {begun : List Nat} {x : Nat × Node} (h : x ∈ set.weaveFrom begun done) :
    ∃ y ∈ done, x.1 = y.1 ∧ ∃ seen, x.2 ∈ set.stretch seen y.2 := by
  induction done generalizing begun with
  | nil => cases h
  | cons y rest ih =>
      obtain ⟨k, r⟩ := y
      rw [weaveFrom, List.mem_append, List.mem_map] at h
      rcases h with ⟨n, hn, rfl⟩ | later
      · exact ⟨(k, r), List.mem_cons_self, rfl, _, hn⟩
      · obtain ⟨y, hy, key, rest⟩ := ih later
        exact ⟨y, List.mem_cons_of_mem _ hy, key, rest⟩

theorem length_opening_le (set : Setting) (begun : Bool) : (set.opening begun).length ≤ 1 := by
  rw [opening]
  by_cases some : 0 < if begun then set.perStepNs else set.startupNs
  · rw [if_pos some]
    exact Nat.le_refl _
  · rw [if_neg some]
    exact Nat.zero_le _

theorem length_weaveFrom_le (set : Setting) (begun : List Nat) (done : List (Nat × Request)) :
    (set.weaveFrom begun done).length ≤ 3 * done.length := by
  induction done generalizing begun with
  | nil => exact Nat.le_refl _
  | cons y rest ih =>
      have few := set.length_opening_le (decide (y.1 ∈ begun))
      have later := ih (y.1 :: begun)
      simp only [weaveFrom, stretch, List.length_append, List.length_map, List.length_cons,
        List.length_nil]
      omega

theorem last_weave_eq_none : last (set.weave done) k = none ↔ k ∉ done.map Prod.fst := by
  rw [last_eq_none]
  constructor
  · intro none mem
    obtain ⟨⟨k', r⟩, hy, rfl⟩ := List.mem_map.mp mem
    obtain ⟨before, after, rfl⟩ := List.append_of_mem hy
    clear hy mem
    induction after using List.reverseRecOn with
    | nil =>
        rw [weave_append] at none
        apply none (k', waitNode r) _ rfl
        simp [stretch]
    | append_singleton after x ih =>
        apply ih
        intro y hy
        apply none y
        rw [← List.cons_append, ← append_assoc, weave_append]
        exact List.mem_append_left _ hy
  · rintro absent x hx rfl
    obtain ⟨y, hy, key, -⟩ := mem_weaveFrom hx
    rw [key] at absent
    exact absent (List.mem_map_of_mem hy)

/-! ## The state while emitting -/

end Setting

/-- The graph is woven of a log, and the ends of its chains are known. -/
structure Emission.Tracks (st : Emission) (log : List (Nat × Node)) : Prop where
  woven : st.graph.Woven log
  ends : ∀ k, st.groupDep.find? k = last log k

/-- The requests in `done` have been emitted. -/
structure Emission.Emitted (st : Emission) (set : Setting) (done : List (Nat × Request)) :
    Prop where
  tracks : st.Tracks (set.weave done)
  seeded : ∀ k, st.groupSeeded k = true ↔ k ∈ done.map Prod.fst
  counted : ∀ k, 0 < st.groupPairCount k ↔ k ∈ done.map Prod.fst
  stages : st.stageCounter = done.length

namespace Emission

variable {set : Setting} {done : List (Nat × Request)} {k gkey : Nat} {r : Request}
  {st st' : Emission} {log : List (Nat × Node)} {node : Node}

theorem Tracks.push (h : st.Tracks log)
    (graph : st'.graph = st.graph.addNode { node with dependencies := (last log k).toList })
    (ends : st'.groupDep = st.groupDep.set k st.graph.size) :
    st'.Tracks (log ++ [(k, node)]) := by
  constructor
  · rw [graph]
    exact h.woven.push
  · intro k'
    rw [ends, SortedMap.find?_set, h.woven.size]
    split
    · rename_i same
      subst same
      exact last_append_self.symm
    · rename_i other
      rw [last_append_ne (Ne.symm other)]
      exact h.ends k'

end Emission

namespace Setting

variable {set : Setting} {done : List (Nat × Request)} {k gkey : Nat} {r : Request}
  {st st' : Emission} {log : List (Nat × Node)}

/-- A transfer joins the end of its chain, as long as node numbers are far from the invalid
one. -/
theorem append_tracks (h : st.Tracks log) (few : log.length ≤ invalidNode) :
    (set.append st k r).Tracks (log ++ [(k, set.actionNode r), (k, waitNode r)]) := by
  have deps : ((st.groupDep.find? k).filter fun dep => dep ≠ invalidNode).toList =
      (last log k).toList := by
    rw [h.ends k]
    cases ends : last log k with
    | none => rfl
    | some i =>
        have := last_lt ends
        have valid : i ≠ invalidNode := by omega
        simp [valid]
  -- the action alone, at the end of the chain
  have first : Emission.Tracks
      { st with
        graph := st.graph.addNode { set.actionNode r with dependencies := (last log k).toList }
        groupDep := st.groupDep.set k st.graph.size } (log ++ [(k, set.actionNode r)]) :=
    h.push rfl rfl
  have both : (set.append st k r).Tracks
      ((log ++ [(k, set.actionNode r)]) ++ [(k, waitNode r)]) := by
    constructor
    · have woven := @Graph.Woven.push _ _ k (waitNode r) first.woven
      rw [last_append_self, ← h.woven.size] at woven
      have graph : (set.append st k r).graph =
          (st.graph.addNode { set.actionNode r with dependencies := (last log k).toList }).addNode
            { waitNode r with dependencies := [st.graph.size] } := by
        rw [← deps]
        rfl
      rw [graph]
      exact woven
    · intro k'
      have ends : (set.append st k r).groupDep = st.groupDep.set k (st.graph.size + 1) := by
        rw [← Graph.size_addNode st.graph { set.actionNode r with
          dependencies := ((st.groupDep.find? k).filter fun dep => dep ≠ invalidNode).toList }]
        rfl
      rw [ends, SortedMap.find?_set]
      split
      · rename_i same
        subst same
        rw [last_append_self, h.woven.size]
        simp
      · rename_i other
        rw [last_append_ne (Ne.symm other), last_append_ne (Ne.symm other)]
        exact h.ends k'
  rw [append_assoc] at both
  exact both

theorem seed_begun (h : st.Emitted set done) (begun : k ∈ done.map Prod.fst) :
    set.seed st k = st := by
  rw [seed, if_pos ((h.seeded k).mpr begun)]

theorem pace_tracks (h : st.Emitted set done) (k : Nat) :
    (set.pace (set.seed st k) k).Tracks
      (set.weave done ++ (set.opening (k ∈ done.map Prod.fst)).map (k, ·)) := by
  by_cases begun : k ∈ done.map Prod.fst
  · rw [seed_begun h begun, opening, decide_eq_true begun]
    have counted := (h.counted k).mpr begun
    by_cases delay : 0 < set.perStepNs
    · rw [pace, if_pos ⟨counted, delay⟩]
      simp only [if_true, if_pos delay, List.map_singleton]
      apply Emission.Tracks.push h.tracks (by
        cases ends : last (set.weave done) k with
        | none => exact absurd begun (last_weave_eq_none.mp ends)
        | some i =>
            rw [h.tracks.ends k, ends]
            rfl) rfl
    · rw [pace, if_neg fun both => delay both.2]
      simp only [if_true, if_neg delay, List.map_nil, List.append_nil]
      exact ⟨h.tracks.woven, h.tracks.ends⟩
  · have fresh : ¬ st.groupSeeded k = true := fun seeded => begun ((h.seeded k).mp seeded)
    have uncounted : ¬ 0 < st.groupPairCount k := fun some => begun ((h.counted k).mp some)
    rw [seed, if_neg fresh, opening, decide_eq_false begun]
    by_cases delay : 0 < set.startupNs
    · simp only [if_pos delay]
      rw [pace, if_neg fun both => uncounted both.1]
      simp only [Bool.false_eq_true, if_false, if_pos delay, List.map_singleton]
      apply Emission.Tracks.push h.tracks (by
        rw [last_weave_eq_none.mpr begun]
        rfl) rfl
    · simp only [if_neg delay]
      rw [pace, if_neg fun both => uncounted both.1]
      simp only [Bool.false_eq_true, if_false, if_neg delay, List.map_nil, List.append_nil]
      exact ⟨h.tracks.woven, h.tracks.ends⟩

theorem pace_seed_counts (set : Setting) (st : Emission) (k k' : Nat) :
    ((set.pace (set.seed st k) k).groupSeeded k' = true ↔
        k' = k ∨ st.groupSeeded k' = true) ∧
      (0 < (set.pace (set.seed st k) k).groupPairCount k' ↔
        k' = k ∨ 0 < st.groupPairCount k') ∧
      (set.pace (set.seed st k) k).stageCounter = st.stageCounter := by
  have seeded : ((set.seed st k).groupSeeded k' = true ↔ k' = k ∨ st.groupSeeded k' = true) ∧
      (set.seed st k).groupPairCount = st.groupPairCount ∧
      (set.seed st k).stageCounter = st.stageCounter := by
    rw [seed]
    split
    · rename_i already
      refine ⟨⟨.inr, ?_⟩, rfl, rfl⟩
      rintro (rfl | old)
      · exact already
      · exact old
    · have set' : Function.update st.groupSeeded k true k' = true ↔
          k' = k ∨ st.groupSeeded k' = true := by
        rw [Function.update_apply]
        split
        · rename_i same
          simp [same]
        · rename_i other
          simp [other]
      split
      · exact ⟨set', rfl, rfl⟩
      · exact ⟨set', rfl, rfl⟩
  obtain ⟨seeds, counts, stages⟩ := seeded
  have counted : 0 < Function.update (set.seed st k).groupPairCount k
      ((set.seed st k).groupPairCount k + 1) k' ↔ k' = k ∨ 0 < st.groupPairCount k' := by
    rw [counts, Function.update_apply]
    split
    · rename_i same
      simp [same]
    · rename_i other
      simp [other]
  rw [pace]
  split
  · exact ⟨seeds, counted, stages⟩
  · exact ⟨seeds, counted, stages⟩

theorem append_emitted (h : st.Emitted set done) (few : done.length ≤ 65535) (k : Nat)
    (r : Request) :
    (set.append (set.pace (set.seed st k) k) k r).Emitted set (done ++ [(k, r)]) := by
  have paced := pace_tracks h k
  have counts := set.pace_seed_counts st k
  have keys : ∀ k', k' ∈ (done ++ [(k, r)]).map Prod.fst ↔
      k' = k ∨ k' ∈ done.map Prod.fst := by
    intro k'
    rw [List.map_append, List.mem_append, List.map_singleton, List.mem_singleton, or_comm]
  constructor
  · rw [weave_append, stretch, List.map_append, ← append_assoc]
    apply append_tracks paced
    have nodes := set.length_weaveFrom_le [] done
    have delay := set.length_opening_le (decide (k ∈ done.map Prod.fst))
    rw [List.length_append, List.length_map, weave, invalidNode]
    omega
  · intro k'
    rw [keys, ← h.seeded k']
    exact (counts k').1
  · intro k'
    rw [keys, ← h.counted k']
    exact (counts k').2.1
  · show (set.pace (set.seed st k) k).stageCounter + 1 = _
    rw [(counts k).2.2, h.stages, List.length_append, List.length_singleton]

/-! ## The loops -/

/-- An instance with one of its transfers. -/
abbrev Pair := Vars × (Nat × Stencil)

def key (set : Setting) (p : Pair) : Nat := groupKeyOf set.firstDim p.1

/-- The requests of the pairs, from a stage on. -/
def requests (set : Setting) : Nat → List Pair → Compiled (List (Nat × Request))
  | _, [] => .ok []
  | stage, p :: rest => do
      let r ← set.request (instVars set.vars p.1) p.2.1 p.2.2 stage
      let rs ← requests set (stage + 1) rest
      .ok ((set.key p, r) :: rs)

/-- One pair, with the startup delay of its group if that is due. -/
def emitPair (set : Setting) (st : Emission) (p : Pair) : Compiled Emission :=
  set.emitTransfer p.1 (set.seed st (set.key p)) p.2

theorem request_stage {instVars : Vars} {tidx stage : Nat} {stencil : Stencil}
    (ok : set.request instVars tidx stencil stage = .ok r) : stage ≤ 65535 := by
  simp only [request] at ok
  split at ok
  · cases ok
  · obtain ⟨src, -, ok⟩ := bind_eq_ok.mp ok
    obtain ⟨dst, -, ok⟩ := bind_eq_ok.mp ok
    obtain ⟨bytes, -, ok⟩ := bind_eq_ok.mp ok
    obtain ⟨vc, -, ok⟩ := bind_eq_ok.mp ok
    obtain ⟨response, -, ok⟩ := bind_eq_ok.mp ok
    obtain ⟨-, -, ok⟩ := bind_eq_ok.mp ok
    obtain ⟨-, -, ok⟩ := bind_eq_ok.mp ok
    obtain ⟨-, -, ok⟩ := bind_eq_ok.mp ok
    obtain ⟨-, -, ok⟩ := bind_eq_ok.mp ok
    obtain ⟨-, -, ok⟩ := bind_eq_ok.mp ok
    split at ok
    · cases ok
    · omega

theorem emitPair_spec (h : st.Emitted set done) (p : Pair) :
    (∀ r, set.request (instVars set.vars p.1) p.2.1 p.2.2 done.length = .ok r →
      ∃ st', set.emitPair st p = .ok st' ∧ st'.Emitted set (done ++ [(set.key p, r)])) ∧
    ∀ e, set.request (instVars set.vars p.1) p.2.1 p.2.2 done.length = .error e →
      set.emitPair st p = .error e := by
  have stage : (set.pace (set.seed st (set.key p)) (set.key p)).stageCounter = done.length := by
    rw [(set.pace_seed_counts st (set.key p) 0).2.2, h.stages]
  have run : set.emitPair st p = (do
      let r ← set.request (instVars set.vars p.1) p.2.1 p.2.2 done.length
      .ok (set.append (set.pace (set.seed st (set.key p)) (set.key p)) (set.key p) r)) := by
    rw [← stage]
    rfl
  constructor
  · intro r ok
    refine ⟨_, ?_, append_emitted h (request_stage ok) (set.key p) r⟩
    rw [run, ok]
    rfl
  · intro e fails
    rw [run, fails]
    rfl

theorem foldlM_emitPair (h : st.Emitted set done) (ps : List Pair) :
    (∀ rs, set.requests done.length ps = .ok rs →
      ∃ st', ps.foldlM set.emitPair st = .ok st' ∧ st'.Emitted set (done ++ rs)) ∧
    ∀ e, set.requests done.length ps = .error e → ps.foldlM set.emitPair st = .error e := by
  induction ps generalizing st done with
  | nil =>
      constructor
      · intro rs ok
        cases ok
        rw [List.append_nil]
        exact ⟨st, rfl, h⟩
      · intro e fails
        cases fails
  | cons p ps ih =>
      obtain ⟨good, bad⟩ := emitPair_spec h p
      constructor
      · intro rs ok
        obtain ⟨r, first, ok⟩ := bind_eq_ok.mp ok
        obtain ⟨rest, later, ok⟩ := bind_eq_ok.mp ok
        cases ok
        obtain ⟨mid, step, emitted⟩ := good r first
        have count : (done ++ [(set.key p, r)]).length = done.length + 1 := by simp
        obtain ⟨last, steps, all⟩ := (ih emitted).1 rest (by rw [count]; exact later)
        refine ⟨last, ?_, ?_⟩
        · rw [foldlM_cons, step]
          exact steps
        · rw [append_assoc] at all
          exact all
      · intro e fails
        rw [foldlM_cons]
        rcases bind_eq_error.mp fails with first | ⟨r, first, fails⟩
        · rw [bad e first]
          rfl
        · obtain ⟨mid, step, emitted⟩ := good r first
          rw [step]
          have count : (done ++ [(set.key p, r)]).length = done.length + 1 := by simp
          rcases bind_eq_error.mp fails with later | ⟨rest, -, fails⟩
          · exact (ih emitted).2 e (by rw [count]; exact later)
          · cases fails

/-- The pairs, in the order of the loops. -/
def pairs (insts : List Vars) (transfers : Stencils) : List Pair :=
  insts.flatMap fun inst => transfers.entries.map (inst, ·)

theorem seed_of_seeded (seeded : st.groupSeeded k = true) : set.seed st k = st := by
  rw [seed, if_pos seeded]

theorem emitTransfer_seeded {inst : Vars} {kv : Nat × Stencil}
    (ok : set.emitTransfer inst st kv = .ok st') : st'.groupSeeded = st.groupSeeded := by
  obtain ⟨r, -, ok⟩ := bind_eq_ok.mp ok
  cases ok
  show (set.pace st _).groupSeeded = _
  rw [pace]
  split <;> rfl

theorem foldlM_emitTransfer (inst : Vars) (ts : List (Nat × Stencil))
    (seeded : st.groupSeeded (groupKeyOf set.firstDim inst) = true) :
    ts.foldlM (set.emitTransfer inst) st = (ts.map (inst, ·)).foldlM set.emitPair st := by
  induction ts generalizing st with
  | nil => rfl
  | cons t ts ih =>
      have step : set.emitPair st (inst, t) = set.emitTransfer inst st t := by
        rw [emitPair, key, seed_of_seeded seeded]
      rw [map_cons, foldlM_cons, foldlM_cons, step]
      cases one : set.emitTransfer inst st t with
      | error e => rfl
      | ok st' =>
          apply ih
          rw [emitTransfer_seeded one]
          exact seeded

theorem foldlM_emitInstance {transfers : Stencils} (some : transfers.entries ≠ [])
    (insts : List Vars) : insts.foldlM (set.emitInstance transfers) st =
      (pairs insts transfers).foldlM set.emitPair st := by
  have one : ∀ (st : Emission) (inst : Vars), set.emitInstance transfers st inst =
      (transfers.entries.map (inst, ·)).foldlM set.emitPair st := by
    intro st inst
    rw [emitInstance]
    cases entries : transfers.entries with
    | nil => exact absurd entries some
    | cons t ts =>
        rw [foldlM_cons, map_cons, foldlM_cons]
        show (set.emitPair st (inst, t) >>= _) = _
        cases first : set.emitPair st (inst, t) with
        | error e => rfl
        | ok st' =>
            apply foldlM_emitTransfer
            have seeded := ((set.pace_seed_counts st (groupKeyOf set.firstDim inst)
              (groupKeyOf set.firstDim inst)).1).mpr (.inl rfl)
            have kept : st'.groupSeeded =
                (set.seed st (groupKeyOf set.firstDim inst)).groupSeeded :=
              emitTransfer_seeded first
            have paced : (set.pace (set.seed st (groupKeyOf set.firstDim inst))
                (groupKeyOf set.firstDim inst)).groupSeeded =
                (set.seed st (groupKeyOf set.firstDim inst)).groupSeeded := by
              rw [pace]
              split <;> rfl
            rw [kept, ← paced]
            exact seeded
  induction insts generalizing st with
  | nil => rfl
  | cons inst rest ih =>
      rw [foldlM_cons, pairs, List.flatMap_cons, List.foldlM_append, one]
      congr 1
      funext st'
      exact ih

theorem emitted_empty (set : Setting) : Emission.Emitted {} set [] where
  tracks := ⟨Graph.Woven.empty, fun _ => rfl⟩
  seeded _ := by simp
  counted _ := by simp
  stages := rfl

/-! ## The finished graph -/

/-- What the checks ask of a node. -/
def Sound (n : Node) : Prop :=
  (n.type = .wait → n.targetBytes ≠ 0 ∨ n.targetEvents ≠ 0) ∧ (n.type = .delay → 0 ≤ n.delay)

theorem nanoSeconds_nonneg {ns : UInt64} : 0 ≤ nanoSeconds ns ↔ ns.toNat < 2 ^ 63 := by
  have bound := ns.toNat_lt
  have same : ns.toBitVec.toNat = ns.toNat := rfl
  rw [nanoSeconds, BitVec.toInt, same]
  split <;> omega

theorem sound_opening {begun : Bool} : (∀ n ∈ set.opening begun, Sound n) ↔
    (if begun then set.perStepNs else set.startupNs).toNat < 2 ^ 63 := by
  rw [opening]
  generalize (if begun then set.perStepNs else set.startupNs) = ns
  by_cases some : 0 < ns
  · simp only [if_pos some, List.mem_singleton, forall_eq]
    rw [← nanoSeconds_nonneg]
    constructor
    · intro sound
      exact sound.2 rfl
    · intro nonneg
      exact ⟨fun isWait => (by cases isWait), fun _ => nonneg⟩
  · have zero : ns.toNat = 0 := by
      rw [UInt64.lt_iff_toNat_lt] at some
      show ns.toNat = 0
      have : (0 : UInt64).toNat = 0 := rfl
      omega
    simp only [if_neg some, not_mem_nil, false_imp_iff, implies_true, true_iff]
    omega

theorem sound_stretch {begun : Bool} : (∀ n ∈ set.stretch begun r, Sound n) ↔
    (if begun then set.perStepNs else set.startupNs).toNat < 2 ^ 63 ∧ r.completionBytes ≠ 0 := by
  rw [← sound_opening, stretch]
  constructor
  · intro sound
    refine ⟨fun n hn => sound n (List.mem_append_left _ hn), ?_⟩
    exact ((sound (waitNode r) (List.mem_append_right _ (by simp))).1 rfl).resolve_right
      fun some => some rfl
  · rintro ⟨delays, bytes⟩ n hn
    rcases List.mem_append.mp hn with hn | hn
    · exact delays n hn
    · simp only [mem_cons, not_mem_nil, or_false] at hn
      rcases hn with rfl | rfl
      · exact ⟨fun isWait => (by cases isWait), fun isDelay => (by cases isDelay)⟩
      · exact ⟨fun _ => .inl bytes, fun isDelay => (by cases isDelay)⟩

/-- What the checks ask of the nodes of a list of requests: the first request of a group uses the
startup delay, every later one the per-step delay. -/
theorem sound_weaveFrom {begun : List Nat} :
    (∀ x ∈ set.weaveFrom begun done, Sound x.2) ↔
      (∀ y ∈ done, y.2.completionBytes ≠ 0) ∧
      ((∃ y ∈ done, y.1 ∉ begun) → set.startupNs.toNat < 2 ^ 63) ∧
      (¬ ((done.map Prod.fst).Nodup ∧ ∀ y ∈ done, y.1 ∉ begun) →
        set.perStepNs.toNat < 2 ^ 63) := by
  induction done generalizing begun with
  | nil => simp [weaveFrom]
  | cons y rest ih =>
      obtain ⟨k, r⟩ := y
      have nodes : (∀ x ∈ set.weaveFrom begun ((k, r) :: rest), Sound x.2) ↔
          (∀ n ∈ set.stretch (k ∈ begun) r, Sound n) ∧
            ∀ x ∈ set.weaveFrom (k :: begun) rest, Sound x.2 := by
        rw [weaveFrom, List.forall_mem_append, List.forall_mem_map]
      rw [nodes, sound_stretch, ih]
      by_cases old : k ∈ begun
      · have seen : ∀ y : Nat × Request, y.1 ∉ k :: begun ↔ y.1 ∉ begun := by
          intro y
          rw [mem_cons, not_or, and_iff_right_iff_imp]
          rintro new rfl
          exact new old
        simp only [seen]
        simp only [old, mem_cons, map_cons, List.nodup_cons, forall_eq_or_imp,
          exists_eq_or_imp, not_true, false_and, and_false, false_or, not_false_eq_true,
          true_imp_iff, decide_true, if_true]
        tauto
      · have fresh : (∀ y ∈ rest, y.1 ∉ k :: begun) ↔
            k ∉ rest.map Prod.fst ∧ ∀ y ∈ rest, y.1 ∉ begun := by
          rw [List.mem_map]
          constructor
          · intro all
            refine ⟨?_, fun y hy => fun mem => all y hy (List.mem_cons_of_mem _ mem)⟩
            rintro ⟨y, hy, rfl⟩
            exact all y hy List.mem_cons_self
          · rintro ⟨other, all⟩ y hy mem
            rcases List.mem_cons.mp mem with same | mem
            · exact other ⟨y, hy, same⟩
            · exact all y hy mem
        rw [fresh]
        simp only [old, mem_cons, map_cons, List.nodup_cons, forall_eq_or_imp,
          exists_eq_or_imp, not_false_eq_true, true_or, true_and, true_imp_iff, decide_false,
          Bool.false_eq_true, if_false]
        tauto

theorem type_weaveFrom {begun : List Nat} :
    ∀ x ∈ set.weaveFrom begun done, x.2.type ≠ .complete := by
  intro x hx
  obtain ⟨y, -, -, seen, mem⟩ := mem_weaveFrom hx
  rw [stretch, List.mem_append] at mem
  rcases mem with mem | mem
  · rw [opening] at mem
    generalize (if seen then set.perStepNs else set.startupNs) = ns at mem
    by_cases some : 0 < ns
    · simp only [if_pos some] at mem
      rw [List.mem_singleton.mp mem]
      intro absurd
      cases absurd
    · simp only [if_neg some] at mem
      cases mem
  · simp only [mem_cons, not_mem_nil, or_false] at mem
    rcases mem with mem | mem
    all_goals
      rw [mem]
      intro absurd
      cases absurd

/-- Which requests make a graph that passes the checks. -/
structure Passes (set : Setting) (done : List (Nat × Request)) : Prop where
  bytes : ∀ y ∈ done, y.2.completionBytes ≠ 0
  startup : set.startupNs.toNat < 2 ^ 63
  perStep : (done.map Prod.fst).Nodup ∨ set.perStepNs.toNat < 2 ^ 63

theorem sound_weave (some : done ≠ []) :
    (∀ x ∈ set.weave done, Sound x.2) ↔ set.Passes done := by
  obtain ⟨y, hy⟩ := List.exists_mem_of_ne_nil done some
  rw [weave, sound_weaveFrom]
  constructor
  · rintro ⟨bytes, startup, perStep⟩
    refine ⟨bytes, startup ⟨y, hy, not_mem_nil⟩, ?_⟩
    by_cases once : (done.map Prod.fst).Nodup
    · exact .inl once
    · exact .inr (perStep fun both => once both.1)
  · intro passes
    refine ⟨passes.bytes, fun _ => passes.startup, fun repeated => ?_⟩
    exact passes.perStep.resolve_left fun once => repeated ⟨once, fun _ _ => not_mem_nil⟩

/-- The ends of the chains, as the completion node gets them. -/
def finals (st : Emission) : List Nat :=
  (st.groupDep.entries.map Prod.snd).filter fun dep => dep ≠ invalidNode

theorem mem_finals (h : st.Emitted set done) (few : done.length ≤ 65536) {i : Nat} :
    i ∈ finals st ↔ ∃ k, last (set.weave done) k = some i := by
  have bound := set.length_weaveFrom_le [] done
  rw [finals, List.mem_filter, List.mem_map]
  constructor
  · rintro ⟨⟨⟨k, i'⟩, mem, rfl⟩, -⟩
    exact ⟨k, (h.tracks.ends k).symm.trans (SortedMap.find?_eq_some.mpr mem)⟩
  · rintro ⟨k, ends⟩
    have low := last_lt ends
    refine ⟨⟨(k, i), SortedMap.find?_eq_some.mp ((h.tracks.ends k).trans ends), rfl⟩, ?_⟩
    rw [weave] at low
    rw [decide_eq_true_eq, invalidNode]
    omega

theorem finals_ends (h : st.Emitted set done) (few : done.length ≤ 65536) :
    Graph.Woven.Ends (set.weave done) (finals st) where
  mem k i ends := (mem_finals h few).mpr ⟨k, ends⟩
  lt i hi := by
    obtain ⟨k, ends⟩ := (mem_finals h few).mp hi
    exact last_lt ends

theorem finish_spec (cfg : ProtocolConfig) (h : st.Emitted set done) (some : done ≠ [])
    (few : done.length ≤ 65536) :
    Answers (finish cfg st) ∧ ((∃ built, finish cfg st = .ok built) ↔ set.Passes done) := by
  have ends : finals st ≠ [] := by
    obtain ⟨y, hy⟩ := List.exists_mem_of_ne_nil done some
    cases last' : last (set.weave done) y.1 with
    | none => exact absurd (List.mem_map_of_mem hy) (last_weave_eq_none.mp last')
    | some i => exact List.ne_nil_of_mem ((mem_finals h few).mpr ⟨y.1, last'⟩)
  have valid := h.tracks.woven.validate_iff
    (if cfg.complete = "any".toList then .any else .all) (finals_ends h few) type_weaveFrom
  have run : finish cfg st = _ := if_neg ends
  rw [run, ← sound_weave some]
  change _ ↔ ∀ x ∈ set.weave done, Sound x.2 at valid
  rw [← valid]
  unfold finals
  split
  · rename_i ok
    exact ⟨.ok _, fun _ => ok, fun _ => ⟨_, rfl⟩⟩
  · rename_i verr error
    refine ⟨.rejected _, ?_, ?_⟩
    · rintro ⟨built, ok⟩
      cases ok
    · intro ok
      cases error.symm.trans ok

end Setting

end ProtoBridge.Config
