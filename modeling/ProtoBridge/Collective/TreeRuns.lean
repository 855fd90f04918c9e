import ProtoBridge.Collective.TreeAllReduce
import ProtoBridge.Lib.Count

/-!
# Runs of TreeAllReduce

The bytes between two ranks are those of one flow, so that what a rank has got over an edge is what the
rank at its other end has sent, is to send with an event, or has in flight.
-/

namespace ProtoBridge.Collective

open Lib Fabric

namespace TreeAllReduce

variable {t : TreeAllReduce} {gpu child : Nat}

/-- The arithmetic of the ranks does not wrap, and there is something to send. -/
structure Lawful (t : TreeAllReduce) : Prop where
  two : 2 ≤ t.numGpus
  few : t.numGpus ≤ 32767
  chunk : 0 < t.pipeChunkSize
  data : 0 < t.dataSize
  size : t.dataSize < 2 ^ 64
  depth : t.depth = getTreeDepth t.numGpus

theorem lawful_of_initialized {numGpus : UInt16} {dataSize perStep perByte : UInt64}
    (h : initialized numGpus dataSize perStep perByte = .ok t) (htwo : 2 ≤ numGpus.toNat)
    (hfew : numGpus.toNat ≤ 32767) (hdata : 1 ≤ dataSize.toNat) : t.Lawful := by
  unfold initialized at h
  dsimp only at h
  split at h
  · cases h
  · cases h
    exact ⟨htwo, hfew, lt_of_lt_of_le (by decide) (le_max_left _ _), hdata, dataSize.toNat_lt, rfl⟩

/-- A rank and one of its children. -/
def ChildOf (t : TreeAllReduce) (gpu child : Nat) : Prop :=
  child < t.numGpus ∧ child ≠ 0 ∧ heapParent child = gpu

theorem ChildOf.lt (h : t.ChildOf gpu child) : gpu < child := h.2.2 ▸ heapParent_lt h.2.1

namespace Lawful

theorem ne_noRank (h : t.Lawful) (hgpu : gpu < t.numGpus) : gpu ≠ noRank := by
  have hfew := h.few
  unfold noRank
  omega

theorem getParent_zero : getParent 0 = noRank := rfl

theorem getParent_of_ne (h : t.Lawful) (hgpu : gpu < t.numGpus) (hne : gpu ≠ 0) :
    getParent gpu = heapParent gpu := by
  rw [getParent, if_neg (h.ne_noRank hgpu), if_neg hne]

theorem getLeftChild_eq (h : t.Lawful) (hgpu : gpu < t.numGpus) :
    t.getLeftChild gpu = if 2 * gpu + 1 < t.numGpus then 2 * gpu + 1 else noRank := by
  have hfew := h.few
  unfold getLeftChild
  rw [Nat.mod_eq_of_lt (by omega)]

theorem getRightChild_eq (h : t.Lawful) (hgpu : gpu < t.numGpus) :
    t.getRightChild gpu = if 2 * gpu + 2 < t.numGpus then 2 * gpu + 2 else noRank := by
  have hfew := h.few
  unfold getRightChild
  rw [Nat.mod_eq_of_lt (by omega)]

theorem childOf_iff (h : t.Lawful) (hgpu : gpu < t.numGpus) (hchild : child < t.numGpus) :
    t.ChildOf gpu child ↔ child = t.getLeftChild gpu ∨ child = t.getRightChild gpu := by
  have hnone := h.ne_noRank hchild
  rw [h.getLeftChild_eq hgpu, h.getRightChild_eq hgpu]
  constructor
  · rintro ⟨-, hne, hparent⟩
    rcases (heapParent_eq_iff hne).mp hparent with rfl | rfl
    · exact .inl (if_pos hchild).symm
    · exact .inr (if_pos hchild).symm
  · rintro (heq | heq)
    · split at heq
      · have hne : child ≠ 0 := by omega
        exact ⟨hchild, hne, (heapParent_eq_iff hne).mpr (.inl heq)⟩
      · exact absurd heq hnone
    · split at heq
      · have hne : child ≠ 0 := by omega
        exact ⟨hchild, hne, (heapParent_eq_iff hne).mpr (.inr heq)⟩
      · exact absurd heq hnone

theorem no_child (h : t.Lawful) (hgpu : gpu < t.numGpus) (hleft : t.getLeftChild gpu = noRank)
    (child : Nat) : ¬ t.ChildOf gpu child := by
  rintro ⟨hchild, hne, hparent⟩
  rw [h.getLeftChild_eq hgpu, if_pos] at hleft
  · have hlt : 2 * gpu + 1 < t.numGpus := by
      rcases (heapParent_eq_iff hne).mp hparent with rfl | rfl <;> omega
    exact h.ne_noRank hlt hleft
  · rcases (heapParent_eq_iff hne).mp hparent with rfl | rfl <;> omega

theorem childOf_left (h : t.Lawful) (hgpu : gpu < t.numGpus) (hleft : t.getLeftChild gpu ≠ noRank) :
    t.ChildOf gpu (t.getLeftChild gpu) := by
  have hlt : t.getLeftChild gpu < t.numGpus := by
    rw [h.getLeftChild_eq hgpu] at hleft ⊢
    split
    · assumption
    · rename_i hno
      rw [if_neg hno] at hleft
      exact absurd rfl hleft
  exact (h.childOf_iff hgpu hlt).mpr (.inl rfl)

theorem childOf_right (h : t.Lawful) (hgpu : gpu < t.numGpus)
    (hright : t.getRightChild gpu ≠ noRank) : t.ChildOf gpu (t.getRightChild gpu) := by
  have hlt : t.getRightChild gpu < t.numGpus := by
    rw [h.getRightChild_eq hgpu] at hright ⊢
    split
    · assumption
    · rename_i hno
      rw [if_neg hno] at hright
      exact absurd rfl hright
  exact (h.childOf_iff hgpu hlt).mpr (.inr rfl)

theorem no_right (h : t.Lawful) (hgpu : gpu < t.numGpus)
    (hleft : t.getLeftChild gpu = noRank) : t.getRightChild gpu = noRank := by
  by_contra hright
  exact h.no_child hgpu hleft _ (h.childOf_right hgpu hright)

theorem left_ne_right (h : t.Lawful) (hgpu : gpu < t.numGpus)
    (hright : t.getRightChild gpu ≠ noRank) : t.getLeftChild gpu ≠ t.getRightChild gpu := by
  rw [h.getRightChild_eq hgpu] at hright ⊢
  rw [h.getLeftChild_eq hgpu]
  split at hright
  · rename_i hlt
    rw [if_pos (by omega), if_pos hlt]
    omega
  · exact absurd rfl hright

end Lawful

/-! ## Levels -/

theorem walk_eq (h : t.Lawful) (hgpu : gpu < t.numGpus) {guard : Nat} (hguard : gpu < guard) :
    walk guard gpu = heapLevel gpu := by
  induction guard generalizing gpu with
  | zero => omega
  | succ guard ih =>
      unfold walk
      by_cases hzero : gpu = 0
      · rw [hzero, if_neg (fun hmore => hmore.2 rfl), heapLevel_zero]
      · have hlt := heapParent_lt hzero
        rw [h.getParent_of_ne hgpu hzero, heapLevel_of_ne hzero,
          if_pos ⟨h.ne_noRank hgpu, h.ne_noRank (hlt.trans hgpu)⟩, ih (hlt.trans hgpu) (by omega)]

theorem getTreeLevel_eq (h : t.Lawful) (hgpu : gpu < t.numGpus) : t.getTreeLevel gpu = heapLevel gpu :=
  walk_eq h hgpu (by omega)

theorem heapLevel_le_depth (h : t.Lawful) (hgpu : gpu < t.numGpus) : heapLevel gpu ≤ t.depth := by
  refine (heapLevel_le_halvings hgpu).trans ?_
  rw [h.depth, getTreeDepth]
  split <;> omega

end TreeAllReduce

namespace TreeRun

/-! ## Observations of a log -/

variable {t : TreeAllReduce} {c c' : TreeRun} {flow : TreeFlow} {gpu src dst : Nat}

theorem edgeSent_append (log log' : List TreeObs) (src dst : Nat) :
    edgeSent (log ++ log') src dst = edgeSent log src dst + edgeSent log' src dst := by
  rw [edgeSent, List.map_append, List.sum_append]
  rfl

theorem edgeDelivered_append (log log' : List TreeObs) (src dst : Nat) :
    edgeDelivered (log ++ log') src dst = edgeDelivered log src dst + edgeDelivered log' src dst := by
  rw [edgeDelivered, List.map_append, List.sum_append]
  rfl

theorem edgeSent_sent (s d bytes : Nat) :
    edgeSent [.sent s d bytes] src dst = if s = src ∧ d = dst then bytes else 0 := by
  simp [edgeSent, TreeObs.sentOn]

theorem edgeDelivered_delivered (s d bytes : Nat) :
    edgeDelivered [.delivered s d bytes] src dst = if s = src ∧ d = dst then bytes else 0 := by
  simp [edgeDelivered, TreeObs.deliveredOn]

/-- Entries that are about sends only. -/
def OnlySends (log : List TreeObs) : Prop := ∀ e ∈ log, ∃ s d bytes, e = .sent s d bytes

theorem OnlySends.edgeDelivered {log : List TreeObs} (h : OnlySends log) (src dst : Nat) :
    edgeDelivered log src dst = 0 := by
  refine List.sum_eq_zero ?_
  intro n hn
  obtain ⟨e, he, rfl⟩ := List.mem_map.mp hn
  obtain ⟨s, d, bytes, rfl⟩ := h e he
  rfl

/-- The bytes from a rank to a rank that an event sends. -/
def dueOn (src dst : Nat) : TreeEvent → Nat
  | .doSend s d bytes => if s = src ∧ d = dst then bytes else 0
  | .triggerInitialSends => 0

/-- Those that the scheduled events send. -/
def due (scheduled : List TreeEvent) (src dst : Nat) : Nat := (scheduled.map (dueOn src dst)).sum

theorem due_append (scheduled scheduled' : List TreeEvent) (src dst : Nat) :
    due (scheduled ++ scheduled') src dst = due scheduled src dst + due scheduled' src dst := by
  rw [due, List.map_append, List.sum_append]
  rfl

theorem due_doSend (s d bytes : Nat) :
    due [.doSend s d bytes] src dst = if s = src ∧ d = dst then bytes else 0 := by
  simp [due, dueOn]

/-- The bytes from a rank to a rank that were sent or will be. -/
def promised (c : TreeRun) (src dst : Nat) : Nat := edgeSent c.log src dst + due c.scheduled src dst

/-! ## Pumping -/

/-- Two runs differ in what is sent. -/
structure SendsOnly (c c' : TreeRun) : Prop where
  tree : c'.tree = c.tree
  completed : c'.completed = c.completed
  upRecv : c'.upRecvFromChild = c.upRecvFromChild
  downRecv : c'.downRecv = c.downRecv
  upDone : c'.upDone = c.upDone
  downDone : c'.downDone = c.downDone
  gpuDoneCount : c'.gpuDoneCount = c.gpuDoneCount
  log : ∃ more, c'.log = c.log ++ more ∧ OnlySends more
  scheduled : ∃ more, c'.scheduled = c.scheduled ++ more ∧ .triggerInitialSends ∉ more

theorem SendsOnly.refl (c : TreeRun) : SendsOnly c c := by
  refine ⟨rfl, rfl, rfl, rfl, rfl, rfl, rfl, ⟨[], (List.append_nil _).symm, ?_⟩,
    ⟨[], (List.append_nil _).symm, List.not_mem_nil⟩⟩
  exact fun e he => absurd he List.not_mem_nil

variable {d : TreeRun} {targets : List Nat}

theorem SendsOnly.trans (h : SendsOnly c c') (h' : SendsOnly c' d) : SendsOnly c d := by
  obtain ⟨more, hlog, honly⟩ := h.log
  obtain ⟨more', hlog', honly'⟩ := h'.log
  obtain ⟨events, hscheduled, hnone⟩ := h.scheduled
  obtain ⟨events', hscheduled', hnone'⟩ := h'.scheduled
  refine ⟨h'.tree.trans h.tree, h'.completed.trans h.completed, h'.upRecv.trans h.upRecv,
    h'.downRecv.trans h.downRecv, h'.upDone.trans h.upDone, h'.downDone.trans h.downDone,
    h'.gpuDoneCount.trans h.gpuDoneCount, ⟨more ++ more', ?_, ?_⟩, ⟨events ++ events', ?_, ?_⟩⟩
  · rw [hlog', hlog, List.append_assoc]
  · intro e he
    rcases List.mem_append.mp he with he | he
    · exact honly e he
    · exact honly' e he
  · rw [hscheduled', hscheduled, List.append_assoc]
  · intro hmem
    rcases List.mem_append.mp hmem with hmem | hmem
    · exact hnone hmem
    · exact hnone' hmem

/-- Two runs differ in bytes that a rank sends to some others. -/
structure Sends (gpu : Nat) (targets : List Nat) (amount : Nat) (c c' : TreeRun) : Prop
    extends SendsOnly c c' where
  promised : ∀ s d, c'.promised s d = c.promised s d + if s = gpu ∧ d ∈ targets then amount else 0

theorem Sends.refl (gpu : Nat) (targets : List Nat) (c : TreeRun) : Sends gpu targets 0 c c := by
  refine ⟨SendsOnly.refl c, ?_⟩
  intro s d
  rw [ite_self, Nat.add_zero]

theorem Sends.trans {targets' all : List Nat} {amount amount' total : Nat}
    (h : Sends gpu targets amount c c') (h' : Sends gpu targets' amount' c' d)
    (hsum : ∀ dst, ((if dst ∈ targets then amount else 0) + if dst ∈ targets' then amount' else 0) =
      if dst ∈ all then total else 0) : Sends gpu all total c d := by
  refine ⟨h.toSendsOnly.trans h'.toSendsOnly, ?_⟩
  intro s dst
  rw [h'.promised, h.promised, Nat.add_assoc]
  by_cases hs : s = gpu
  · simp only [hs, true_and]
    rw [hsum]
  · simp only [hs, false_and, if_false, Nat.add_zero]

theorem sends_scheduleOrSend (c : TreeRun) (gpu target bytes delayNs : Nat) :
    Sends gpu [target] bytes c (c.scheduleOrSend gpu target bytes delayNs) := by
  have hpair : ∀ s d, (if gpu = s ∧ target = d then bytes else 0) =
      if s = gpu ∧ d ∈ [target] then bytes else 0 := by
    intro s d
    refine if_congr ?_ rfl rfl
    rw [List.mem_singleton, eq_comm, eq_comm (a := target)]
  unfold scheduleOrSend
  split
  · refine ⟨⟨rfl, rfl, rfl, rfl, rfl, rfl, rfl, ⟨[.sent gpu target bytes], rfl, ?_⟩,
      ⟨[], (List.append_nil _).symm, List.not_mem_nil⟩⟩, ?_⟩
    · intro e he
      exact ⟨_, _, _, List.mem_singleton.mp he⟩
    · intro s d
      show edgeSent (c.log ++ [.sent gpu target bytes]) s d + due c.scheduled s d = _
      rw [edgeSent_append, edgeSent_sent, ← hpair, promised]
      omega
  · refine ⟨⟨rfl, rfl, rfl, rfl, rfl, rfl, rfl, ⟨[], (List.append_nil _).symm, ?_⟩,
      ⟨[.doSend gpu target bytes], rfl, by simp⟩⟩, ?_⟩
    · exact fun e he => absurd he List.not_mem_nil
    · intro s d
      show edgeSent c.log s d + due (c.scheduled ++ [.doSend gpu target bytes]) s d = _
      rw [due_append, due_doSend, ← hpair, promised]
      omega

theorem sends_targets (hnodup : targets.Nodup) (gpu bytes delayNs : Nat) (c : TreeRun) :
    Sends gpu targets bytes c
      (targets.foldl (fun c target => c.scheduleOrSend gpu target bytes delayNs) c) ∧
    (targets.foldl (fun c target => c.scheduleOrSend gpu target bytes delayNs) c).sentBytes =
      c.sentBytes := by
  induction targets generalizing c with
  | nil =>
      refine ⟨(Sends.refl gpu [] c).trans (Sends.refl gpu [] c) ?_, rfl⟩
      intro dst
      simp
  | cons target rest ih =>
      obtain ⟨hnew, hrest⟩ := List.nodup_cons.mp hnodup
      obtain ⟨hsends, hsame⟩ := ih hrest (c.scheduleOrSend gpu target bytes delayNs)
      refine ⟨(sends_scheduleOrSend c gpu target bytes delayNs).trans hsends ?_, hsame.trans ?_⟩
      · intro dst
        by_cases heq : dst = target
        · rw [heq, if_pos (List.mem_singleton.mpr rfl), if_neg hnew, if_pos List.mem_cons_self]
          rfl
        · have hone : dst ∉ [target] := fun hmem => heq (List.mem_singleton.mp hmem)
          rw [if_neg hone, Nat.zero_add]
          refine if_congr ?_ rfl rfl
          rw [List.mem_cons]
          exact ⟨.inr, fun hin => hin.resolve_left heq⟩
      · unfold scheduleOrSend
        split <;> rfl

theorem sends_sendChunk (hnodup : targets.Nodup) (now : Nat) (flow : TreeFlow) (gpu : Nat)
    (c : TreeRun) (chunk : Nat) :
    Sends gpu targets chunk c (sendChunk now flow gpu targets c chunk) ∧
    (sendChunk now flow gpu targets c chunk).sentBytes =
      Function.update c.sentBytes (flow, gpu) (c.sentBytes (flow, gpu) + chunk) := by
  unfold sendChunk
  dsimp only
  generalize hpaced : pacedSendDelayNs c.tree now (c.nextFreeNs (flow, gpu)) _ chunk = paced
  obtain ⟨hsends, hsame⟩ := sends_targets hnodup gpu chunk paced.1
    { c with nextFreeNs := Function.update c.nextFreeNs (flow, gpu) paced.2 }
  refine ⟨⟨⟨hsends.tree, hsends.completed, hsends.upRecv, hsends.downRecv, hsends.upDone,
    hsends.downDone, hsends.gpuDoneCount, hsends.log, hsends.scheduled⟩, hsends.promised⟩, ?_⟩
  rw [hsame]

theorem sends_chunks (hnodup : targets.Nodup) (now : Nat) (flow : TreeFlow) (gpu : Nat)
    (chunks : List Nat) (c : TreeRun) :
    Sends gpu targets chunks.sum c (chunks.foldl (sendChunk now flow gpu targets) c) ∧
    (chunks.foldl (sendChunk now flow gpu targets) c).sentBytes =
      Function.update c.sentBytes (flow, gpu) (c.sentBytes (flow, gpu) + chunks.sum) := by
  induction chunks generalizing c with
  | nil =>
      refine ⟨Sends.refl gpu targets c, ?_⟩
      rw [List.foldl_nil, List.sum_nil, Nat.add_zero, Function.update_eq_self]
  | cons chunk rest ih =>
      obtain ⟨hfirst, hsent⟩ := sends_sendChunk hnodup now flow gpu c chunk
      obtain ⟨hrest, hsent'⟩ := ih (sendChunk now flow gpu targets c chunk)
      rw [List.foldl_cons, List.sum_cons]
      refine ⟨hfirst.trans hrest ?_, ?_⟩
      · intro dst
        split
        · rfl
        · rfl
      · rw [hsent', hsent, Function.update_self, Function.update_idem, Nat.add_assoc]

end TreeRun

end ProtoBridge.Collective
