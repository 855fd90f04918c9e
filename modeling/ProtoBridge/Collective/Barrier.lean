import Mathlib.Algebra.GroupWithZero.Nat
import Mathlib.Algebra.Order.BigOperators.Group.Finset
import ProtoBridge.Lib.History
import ProtoBridge.Lib.Machine

/-!
# Collectives in phases

The hierarchical and the full-mesh collectives run in phases. In a phase the ranks send all they
have for it, and each waits for as many bytes as the phase should bring it. No packet says what
phase it belongs to: what arrives counts for the phase that is open. When every rank has its bytes
the next phase is opened. So all rests on the two sides of a phase, what is sent to a rank and what
it waits for, being the same.

The amounts of a phase stay below `2^64`, so that they are natural numbers here.
-/

namespace ProtoBridge.Collective

open Lib
open Function (update update_of_ne update_self)

/-- Bytes from a rank to another. -/
structure Transfer where
  src : Nat
  dst : Nat
  bytes : Nat
  deriving DecidableEq

/-- A phase. The bulk transfers that its start function sends, `expectedBytes` of its check
function, the ranks that its start function marks as complete, whether it is over without a look
at them, whether it is over when all are marked by then, and whether an event is scheduled between
it and what follows. -/
structure Phase where
  sends : List Transfer
  expected : Nat → Nat
  credited : Nat → Bool := fun _ => false
  trivial : Bool := false
  closes : Bool := true
  waits : Bool := false

/-- A collective with its phases. It is void if it has no data, or no peers; a hierarchical one sees
that when it is started, a full-mesh one when its first event runs. A full-mesh collective checks
all ranks at each packet. A guarded collective ignores what arrives behind its completion. -/
structure Barrier where
  numGpus : Nat
  phases : List Phase
  void : Bool
  early : Bool
  checksAll : Bool
  guarded : Bool

/-- What happened: a phase was opened, a transfer of a phase was sent, some of its bytes were
delivered and counted for the open phase, the completion callback was called. -/
inductive BarrierObs
  | started (phase : Nat)
  | sent (phase : Nat) (t : Transfer)
  | delivered (phase : Nat) (t : Transfer) (counted : Option Nat)
  | completed
  deriving DecidableEq

/-- The members of a collective that change. -/
structure BarrierRun where
  phase : Nat := 0
  gpuReceivedBytes : Nat → Nat := fun _ => 0
  gpuPhaseComplete : Nat → Bool := fun _ => false
  completedGpuCount : Nat := 0
  completed : Bool := false
  scheduled : List Nat := []
  log : List BarrierObs := []

namespace BarrierRun

/-- `Complete`. -/
def complete (σ : BarrierRun) : BarrierRun :=
  { σ with completed := true, log := σ.log ++ [.completed] }

/-- A rank has all bytes of the phase. -/
def mark (σ : BarrierRun) (gpu : Nat) : BarrierRun :=
  { σ with
    gpuPhaseComplete := update σ.gpuPhaseComplete gpu true
    completedGpuCount := σ.completedGpuCount + 1 }

/-- The loop that marks ranks. -/
def markWhere (p : Nat → Bool) (gpus : List Nat) (σ : BarrierRun) : BarrierRun :=
  gpus.foldl (fun σ gpu => if p gpu && !σ.gpuPhaseComplete gpu then σ.mark gpu else σ) σ

end BarrierRun

namespace Barrier

variable (c : Barrier)

/-- A phase is opened: nothing has been received in it, and its transfers are sent. A bulk transfer
of no bytes sends nothing. -/
def openPhase (σ : BarrierRun) (k : Nat) : BarrierRun :=
  match c.phases[k]? with
  | none => σ.complete
  | some ph =>
      { σ with
        phase := k
        gpuReceivedBytes := fun _ => 0
        gpuPhaseComplete := fun _ => false
        completedGpuCount := 0
        log := σ.log ++ .started k :: (ph.sends.filter (0 < ·.bytes)).map (.sent k) }

/-- A phase is over. -/
def leave (σ : BarrierRun) (k : Nat) (ph : Phase) : BarrierRun :=
  if ph.waits then { σ with scheduled := σ.scheduled ++ [k + 1] } else c.openPhase σ (k + 1)

/-- The event that opens a phase; behind the last one it completes the collective. -/
def startPhase (σ : BarrierRun) (k : Nat) : BarrierRun :=
  if c.void then σ.complete
  else
    match c.phases[k]? with
    | none => σ.complete
    | some ph =>
        let σ := c.openPhase σ k
        if ph.trivial then c.leave σ k ph
        else
          let σ := σ.markWhere ph.credited (List.range c.numGpus)
          if ph.closes ∧ σ.completedGpuCount ≥ c.numGpus then c.leave σ k ph else σ

/-- `OnPacketReceived`, of data. -/
def onPacketReceived (σ : BarrierRun) (dst bytes : Nat) : BarrierRun :=
  if σ.completed && c.guarded then σ
  else
    match c.phases[σ.phase]? with
    | none => σ
    | some ph =>
        let σ := { σ with
          gpuReceivedBytes :=
            update σ.gpuReceivedBytes dst (σ.gpuReceivedBytes dst + bytes) }
        let full (gpu : Nat) : Bool := σ.gpuReceivedBytes gpu ≥ ph.expected gpu
        if c.checksAll then
          let σ := σ.markWhere full (List.range c.numGpus)
          if σ.completedGpuCount ≥ c.numGpus then c.leave σ σ.phase ph else σ
        else if full dst && !σ.gpuPhaseComplete dst then
          let σ := σ.mark dst
          if σ.completedGpuCount ≥ c.numGpus then c.leave σ σ.phase ph else σ
        else σ

/-- `Start`. -/
def start : BarrierRun :=
  if c.void && c.early then BarrierRun.complete {} else { scheduled := [0] }

end Barrier

/-- What happens to a started collective: an event runs, a fragment of a transfer arrives. -/
inductive BarrierAct
  | fire (i : Nat)
  | deliver (phase : Nat) (t : Transfer)

namespace BarrierObs

/-- The bytes of a phase that an event sends from a rank to another. -/
def sentBytes (k src dst : Nat) : BarrierObs → Nat
  | .sent k' t => if k' = k ∧ t.src = src ∧ t.dst = dst then t.bytes else 0
  | _ => 0

/-- The bytes of a phase from a rank that an event brings another. -/
def deliveredBytes (k src dst : Nat) : BarrierObs → Nat
  | .delivered k' t _ => if k' = k ∧ t.src = src ∧ t.dst = dst then t.bytes else 0
  | _ => 0

end BarrierObs

/-- The bytes of a phase that were sent from a rank to another. -/
def sentOf (log : List BarrierObs) (k src dst : Nat) : Nat :=
  (log.map (BarrierObs.sentBytes k src dst)).sum

/-- Those of them that have arrived. -/
def deliveredOf (log : List BarrierObs) (k src dst : Nat) : Nat :=
  (log.map (BarrierObs.deliveredBytes k src dst)).sum

namespace Barrier

/-- One of these. -/
def exec (c : Barrier) (σ : BarrierRun) : BarrierAct → Except Empty BarrierRun
  | .fire i =>
      match σ.scheduled[i]? with
      | some k => .ok (c.startPhase { σ with scheduled := σ.scheduled.eraseIdx i } k)
      | none => .ok σ
  | .deliver k t =>
      let counted := if σ.completed && c.guarded then none else some σ.phase
      .ok (c.onPacketReceived { σ with log := σ.log ++ [.delivered k t counted] } t.dst t.bytes)

/-- Fragments have bytes, and arrive once. -/
def Enabled (σ : BarrierRun) : BarrierAct → Prop
  | .fire i => i < σ.scheduled.length
  | .deliver k t =>
      t.bytes ≠ 0 ∧ deliveredOf σ.log k t.src t.dst + t.bytes ≤ sentOf σ.log k t.src t.dst

instance (σ : BarrierRun) : ∀ a, Decidable (Enabled σ a)
  | .fire i => inferInstanceAs (Decidable (i < _))
  | .deliver _ _ => inferInstanceAs (Decidable (_ ≠ 0 ∧ _ ≤ _))

end Barrier

/-- Every run of a started collective. -/
def barrierMachine (c : Barrier) : Machine BarrierRun BarrierAct Empty where
  init := (· = c.start)
  enabled := Barrier.Enabled
  exec := c.exec

instance (c : Barrier) (σ : BarrierRun) (a : BarrierAct) :
    Decidable ((barrierMachine c).enabled σ a) := inferInstanceAs (Decidable (Barrier.Enabled σ a))

/-- Every byte of a phase that was sent has arrived. -/
def Delivered (log : List BarrierObs) (k : Nat) : Prop :=
  ∀ src dst, deliveredOf log k src dst = sentOf log k src dst

/-- Nothing is in flight, and nothing is scheduled. -/
def BarrierRun.Quiet (σ : BarrierRun) : Prop := σ.scheduled = [] ∧ ∀ k, Delivered σ.log k

/-- The bytes that a phase sends from a rank to another. -/
def Phase.between (ph : Phase) (src dst : Nat) : Nat :=
  (ph.sends.map fun t => if t.src = src ∧ t.dst = dst then t.bytes else 0).sum

/-! ## Bytes -/

variable {log : List BarrierObs} {k src dst : Nat} {t : Transfer}

theorem sentOf_append (log log' : List BarrierObs) (k src dst : Nat) :
    sentOf (log ++ log') k src dst = sentOf log k src dst + sentOf log' k src dst := by
  rw [sentOf, List.map_append, List.sum_append]
  rfl

theorem deliveredOf_append (log log' : List BarrierObs) (k src dst : Nat) :
    deliveredOf (log ++ log') k src dst =
      deliveredOf log k src dst + deliveredOf log' k src dst := by
  rw [deliveredOf, List.map_append, List.sum_append]
  rfl

@[simp] theorem sentOf_delivered (k' : Nat) (t : Transfer) (counted : Option Nat) :
    sentOf [.delivered k' t counted] k src dst = 0 := rfl

@[simp] theorem sentOf_completed : sentOf [.completed] k src dst = 0 := rfl

theorem deliveredOf_delivered (k' : Nat) (t : Transfer) (counted : Option Nat) :
    deliveredOf [.delivered k' t counted] k src dst =
      if k' = k ∧ t.src = src ∧ t.dst = dst then t.bytes else 0 := by
  simp [deliveredOf, BarrierObs.deliveredBytes]

/-- What is written down when a phase is opened. -/
def openingLog (k : Nat) (ph : Phase) : List BarrierObs :=
  .started k :: (ph.sends.filter (0 < ·.bytes)).map (.sent k)

theorem deliveredOf_openingLog (k' : Nat) (ph : Phase) :
    deliveredOf (openingLog k' ph) k src dst = 0 := by
  refine List.sum_eq_zero fun b hb => ?_
  obtain ⟨e, he, rfl⟩ := List.mem_map.mp hb
  rcases List.mem_cons.mp he with rfl | he
  · rfl
  · obtain ⟨t, -, rfl⟩ := List.mem_map.mp he
    rfl

theorem sentOf_openingLog (k' : Nat) (ph : Phase) :
    sentOf (openingLog k' ph) k src dst = if k' = k then ph.between src dst else 0 := by
  have hsum : ∀ sends : List Transfer,
      sentOf ((sends.filter (0 < ·.bytes)).map (.sent k')) k src dst =
        if k' = k then (sends.map fun t => if t.src = src ∧ t.dst = dst then t.bytes else 0).sum
        else 0 := by
    intro sends
    induction sends with
    | nil => simp [sentOf]
    | cons t sends ih =>
        rw [List.map_cons, List.sum_cons]
        by_cases ht : 0 < t.bytes
        · rw [List.filter_cons_of_pos (by simpa using ht), List.map_cons]
          show BarrierObs.sentBytes k src dst (.sent k' t) + sentOf _ k src dst = _
          rw [ih]
          by_cases hk : k' = k <;> simp [BarrierObs.sentBytes, hk]
        · -- a transfer of no bytes counts for nothing either way
          have hzero : t.bytes = 0 := by omega
          rw [List.filter_cons_of_neg (by simpa using ht), ih, hzero]
          simp
  show BarrierObs.sentBytes k src dst (.started k') + sentOf _ k src dst = _
  rw [hsum, Phase.between]
  exact Nat.zero_add _

theorem Phase.between_eq_zero {ph : Phase} (h : ∀ t ∈ ph.sends, ¬ (t.src = src ∧ t.dst = dst)) :
    ph.between src dst = 0 := by
  refine List.sum_eq_zero fun b hb => ?_
  obtain ⟨t, ht, rfl⟩ := List.mem_map.mp hb
  exact if_neg (h t ht)

/-! ## The ledger -/

/-- The phase that an event opens. -/
def BarrierObs.opened : BarrierObs → Option Nat
  | .started k => some k
  | _ => none

/-- The bytes that a phase of a collective sends from a rank to another. -/
def Barrier.planned (c : Barrier) (k src dst : Nat) : Nat :=
  match c.phases[k]? with
  | none => 0
  | some ph => ph.between src dst

/-- All phases have been opened, and all they sent has arrived. -/
def Barrier.Finished (c : Barrier) (log : List BarrierObs) : Prop :=
  log.filterMap BarrierObs.opened = List.range c.phases.length ∧ ∀ k, Delivered log k

/-- The first phases have been opened in order, each behind the last byte of the one before, what
was sent is theirs, and each byte that arrived was counted for its phase. -/
structure Ledger (c : Barrier) (log : List BarrierObs) (started : Nat) : Prop where
  started_le : started ≤ c.phases.length
  order : log.filterMap BarrierObs.opened = List.range started
  sent : ∀ k src dst, sentOf log k src dst = if k < started then c.planned k src dst else 0
  bound : ∀ k src dst, deliveredOf log k src dst ≤ sentOf log k src dst
  counted : ∀ k t counted, .delivered k t counted ∈ log → counted = some k
  barrier : Justified (fun pre e => ∀ k, e = .started (k + 1) → Delivered pre k) log
  closed : Justified (fun pre e => e = .completed → c.Finished pre) log

variable {c : Barrier} {started : Nat}

theorem Ledger.empty (c : Barrier) : Ledger c [] 0 where
  started_le := Nat.zero_le _
  order := rfl
  sent _ _ _ := rfl
  bound _ _ _ := le_rfl
  counted _ _ _ h := absurd h List.not_mem_nil
  barrier := .nil
  closed := .nil

theorem Ledger.delivered_of_le (h : Ledger c log started) (hk : started ≤ k) : Delivered log k := by
  intro src dst
  have hsent := h.sent k src dst
  rw [if_neg (by omega)] at hsent
  have := h.bound k src dst
  omega

theorem Ledger.complete (h : Ledger c log c.phases.length) (hall : ∀ k, Delivered log k) :
    Ledger c (log ++ [.completed]) c.phases.length where
  started_le := le_rfl
  order := by
    rw [List.filterMap_append, h.order]
    exact List.append_nil _
  sent k src dst := by
    rw [sentOf_append, sentOf_completed, h.sent]
    rfl
  bound k src dst := by
    rw [sentOf_append, deliveredOf_append]
    exact h.bound k src dst
  counted k t counted hmem := by
    rcases List.mem_append.mp hmem with hmem | hmem
    · exact h.counted k t counted hmem
    · simp at hmem
  barrier := h.barrier.snoc fun k heq => nomatch heq
  closed := h.closed.snoc fun _ => ⟨h.order, hall⟩

theorem mem_sends_of_openingLog {ph : Phase} {e : BarrierObs} (he : e ∈ openingLog k ph) :
    e = .started k ∨ ∃ t, e = .sent k t := by
  rcases List.mem_cons.mp he with rfl | he
  · exact .inl rfl
  · obtain ⟨t, -, rfl⟩ := List.mem_map.mp he
    exact .inr ⟨t, rfl⟩

theorem Ledger.open_ {ph : Phase} (h : Ledger c log k) (hph : c.phases[k]? = some ph)
    (hall : ∀ j, Delivered log j) : Ledger c (log ++ openingLog k ph) (k + 1) where
  started_le := by
    obtain ⟨hlt, -⟩ := List.getElem?_eq_some_iff.mp hph
    exact hlt
  order := by
    have hsends : (openingLog k ph).filterMap BarrierObs.opened = [k] := by
      have hhead : BarrierObs.opened (.started k) = some k := rfl
      rw [openingLog, List.filterMap_cons_some hhead, List.filterMap_map]
      have hnone : (ph.sends.filter (0 < ·.bytes)).filterMap
          (BarrierObs.opened ∘ BarrierObs.sent k) = [] :=
        List.filterMap_eq_nil_iff.mpr fun _ _ => rfl
      rw [hnone]
    rw [List.filterMap_append, h.order, hsends, List.range_succ]
  sent j src dst := by
    rw [sentOf_append, sentOf_openingLog, h.sent]
    by_cases hj : k = j
    · subst hj
      rw [if_neg (lt_irrefl k), if_pos rfl, if_pos (Nat.lt_succ_self k), Barrier.planned, hph,
        Nat.zero_add]
    · rw [if_neg hj, Nat.add_zero]
      refine if_congr ?_ rfl rfl
      omega
  bound j src dst := by
    rw [deliveredOf_append, sentOf_append, deliveredOf_openingLog]
    have := h.bound j src dst
    omega
  counted j t counted hmem := by
    rcases List.mem_append.mp hmem with hmem | hmem
    · exact h.counted j t counted hmem
    · rcases mem_sends_of_openingLog hmem with heq | ⟨t, heq⟩ <;> cases heq
  barrier := by
    have hopen : Justified (fun pre e => ∀ j, e = .started (j + 1) → Delivered pre j)
        (log ++ [.started k]) := h.barrier.snoc fun j _ => hall j
    have hmore := hopen.append ((ph.sends.filter (0 < ·.bytes)).map (.sent k)) (by
      rintro e he pre j rfl
      simp at he)
    rwa [List.append_assoc] at hmore
  closed := by
    refine h.closed.append _ ?_
    rintro e he pre rfl
    rcases mem_sends_of_openingLog he with heq | ⟨t, heq⟩ <;> cases heq

theorem Ledger.deliver (h : Ledger c log started)
    (hle : deliveredOf log k t.src t.dst + t.bytes ≤ sentOf log k t.src t.dst) :
    Ledger c (log ++ [.delivered k t (some k)]) started where
  started_le := h.started_le
  order := by
    rw [List.filterMap_append, h.order]
    exact List.append_nil _
  sent j src dst := by
    rw [sentOf_append, sentOf_delivered, h.sent]
    rfl
  bound j src dst := by
    rw [sentOf_append, deliveredOf_append, sentOf_delivered, deliveredOf_delivered]
    split
    · rename_i heq
      obtain ⟨rfl, rfl, rfl⟩ := heq
      exact hle
    · exact h.bound j src dst
  counted j t' counted hmem := by
    rcases List.mem_append.mp hmem with hmem | hmem
    · exact h.counted j t' counted hmem
    · cases List.mem_singleton.mp hmem
      rfl
  barrier := h.barrier.snoc fun j heq => nomatch heq
  closed := h.closed.snoc fun heq => nomatch heq

/-! ## Marks -/

/-- The ranks that are marked. -/
def BarrierRun.marked (n : Nat) (σ : BarrierRun) : Finset Nat :=
  (Finset.range n).filter fun gpu => σ.gpuPhaseComplete gpu = true

variable {gpu n : Nat} {p : Nat → Bool} {gpus : List Nat}

@[simp] theorem BarrierRun.mem_marked {σ : BarrierRun} :
    gpu ∈ σ.marked n ↔ gpu < n ∧ σ.gpuPhaseComplete gpu = true := by
  rw [marked, Finset.mem_filter, Finset.mem_range]

/-- A loop that marks ranks touches nothing else, and counts each rank that it marks. -/
structure Marks (n : Nat) (p : Nat → Bool) (gpus : List Nat) (σ τ : BarrierRun) : Prop where
  phase : τ.phase = σ.phase
  gpuReceivedBytes : τ.gpuReceivedBytes = σ.gpuReceivedBytes
  completed : τ.completed = σ.completed
  scheduled : τ.scheduled = σ.scheduled
  log : τ.log = σ.log
  marked_iff : ∀ gpu, τ.gpuPhaseComplete gpu = true ↔
    σ.gpuPhaseComplete gpu = true ∨ gpu ∈ gpus ∧ p gpu = true
  count : σ.completedGpuCount = (σ.marked n).card → τ.completedGpuCount = (τ.marked n).card

theorem marks_mark (hgpu : gpu < n) (hp : p gpu = true) {σ : BarrierRun}
    (hnew : σ.gpuPhaseComplete gpu = false) : Marks n p [gpu] σ (σ.mark gpu) where
  phase := rfl
  gpuReceivedBytes := rfl
  completed := rfl
  scheduled := rfl
  log := rfl
  marked_iff g := by
    show update σ.gpuPhaseComplete gpu true g = true ↔ _
    by_cases hg : g = gpu
    · subst hg
      simp [hp]
    · simp [hg]
  count hcount := by
    have hinsert : (σ.mark gpu).marked n = insert gpu (σ.marked n) := by
      ext g
      rw [Finset.mem_insert, BarrierRun.mem_marked, BarrierRun.mem_marked, BarrierRun.mark]
      by_cases hg : g = gpu
      · subst hg
        simp [hgpu]
      · simp [hg]
    have hnot : gpu ∉ σ.marked n := by simp [hnew]
    rw [hinsert, Finset.card_insert_of_notMem hnot, ← hcount]
    rfl

theorem Marks.refl {σ : BarrierRun} (h : ∀ gpu ∈ gpus, p gpu = true → σ.gpuPhaseComplete gpu = true)
    : Marks n p gpus σ σ where
  phase := rfl
  gpuReceivedBytes := rfl
  completed := rfl
  scheduled := rfl
  log := rfl
  marked_iff gpu := by
    constructor
    · exact .inl
    · rintro (hmarked | ⟨hmem, hp⟩)
      · exact hmarked
      · exact h gpu hmem hp
  count hcount := hcount

theorem Marks.cons {σ τ υ : BarrierRun} (h₁ : Marks n p [gpu] σ τ) (h₂ : Marks n p gpus τ υ)
    : Marks n p (gpu :: gpus) σ υ where
  phase := h₂.phase.trans h₁.phase
  gpuReceivedBytes := h₂.gpuReceivedBytes.trans h₁.gpuReceivedBytes
  completed := h₂.completed.trans h₁.completed
  scheduled := h₂.scheduled.trans h₁.scheduled
  log := h₂.log.trans h₁.log
  marked_iff g := by
    rw [h₂.marked_iff, h₁.marked_iff, List.mem_singleton, List.mem_cons]
    tauto
  count hcount := h₂.count (h₁.count hcount)

theorem marks_markWhere (hgpus : ∀ gpu ∈ gpus, gpu < n) (σ : BarrierRun)
    : Marks n p gpus σ (σ.markWhere p gpus) := by
  induction gpus generalizing σ with
  | nil => exact Marks.refl fun gpu hmem => absurd hmem List.not_mem_nil
  | cons gpu gpus ih =>
      refine Marks.cons ?_ (ih (fun g hg => hgpus g (List.mem_cons_of_mem _ hg)) _)
      dsimp only
      split
      · rename_i hnew
        simp only [Bool.and_eq_true, Bool.not_eq_true'] at hnew
        exact marks_mark (hgpus gpu List.mem_cons_self) hnew.1 hnew.2
      · rename_i hold
        apply Marks.refl
        intro g hg hp
        obtain rfl := List.mem_singleton.mp hg
        simpa [hp] using hold

theorem all_marked {σ : BarrierRun} (hcount : σ.completedGpuCount = (σ.marked n).card)
    (h : σ.completedGpuCount ≥ n) : ∀ gpu < n, σ.gpuPhaseComplete gpu = true := by
  have hall : σ.marked n = Finset.range n := by
    apply Finset.eq_of_subset_of_card_le (Finset.filter_subset _ _)
    rw [Finset.card_range]
    exact h.trans hcount.le
  intro gpu hgpu
  have hmem := Finset.mem_range.mpr hgpu
  rw [← hall] at hmem
  exact (BarrierRun.mem_marked.mp hmem).2

theorem count_of_all_marked {σ : BarrierRun} (hcount : σ.completedGpuCount = (σ.marked n).card)
    (h : ∀ gpu < n, σ.gpuPhaseComplete gpu = true) : σ.completedGpuCount = n := by
  have hall : σ.marked n = Finset.range n :=
    Finset.filter_true_of_mem fun gpu hgpu => h gpu (Finset.mem_range.mp hgpu)
  rw [hcount, hall, Finset.card_range]

/-! ## Stages -/

/-- A phase sends a rank what it waits for, and no rank is marked before it has it. Only in the
hierarchical collectives are ranks marked when a phase is opened, and there an event stands between
two phases. -/
structure Barrier.Balanced (c : Barrier) : Prop where
  void : c.void = false
  ranks : 0 < c.numGpus
  nonempty : 0 < c.phases.length
  placed : ∀ ph ∈ c.phases, ∀ t ∈ ph.sends, t.src < c.numGpus ∧ t.dst < c.numGpus
  balanced : ∀ ph ∈ c.phases, ∀ r < c.numGpus,
    ∑ src ∈ Finset.range c.numGpus, ph.between src r = ph.expected r
  credited : ∀ ph ∈ c.phases, ∀ r < c.numGpus, ph.credited r = true → ph.expected r = 0
  trivial : ∀ ph ∈ c.phases, ph.trivial = true → ∀ r < c.numGpus, ph.expected r = 0
  closes : c.checksAll = true → ∀ ph ∈ c.phases, ph.closes = true
  staged : c.checksAll = false → ∀ k ph, c.phases[k]? = some ph → ph.waits = false →
    k + 1 = c.phases.length

/-- The check of a rank has been made in the open phase. -/
def Barrier.Touched (c : Barrier) (σ : BarrierRun) (r : Nat) : Prop :=
  if c.checksAll then ∃ q < c.numGpus, 0 < σ.gpuReceivedBytes q else 0 < σ.gpuReceivedBytes r

/-- What an open phase knows: the bytes of each rank, and the number of ranks that it has marked,
each of which has its bytes. A rank with its bytes is marked once it has been checked. -/
structure Counting (c : Barrier) (k : Nat) (ph : Phase) (σ : BarrierRun) : Prop where
  received : ∀ r < c.numGpus,
    σ.gpuReceivedBytes r = ∑ src ∈ Finset.range c.numGpus, deliveredOf σ.log k src r
  counted : σ.completedGpuCount = (σ.marked c.numGpus).card
  full : ∀ r < c.numGpus, σ.gpuPhaseComplete r = true → ph.expected r ≤ σ.gpuReceivedBytes r
  prompt : ∀ r < c.numGpus, c.checksAll = false ∧ ph.credited r = true ∨
    c.Touched σ r ∧ ph.expected r ≤ σ.gpuReceivedBytes r → σ.gpuPhaseComplete r = true

/-- The first phases are over, and nothing is in flight. -/
structure Settled (c : Barrier) (k : Nat) (σ : BarrierRun) : Prop where
  ledger : Ledger c σ.log k
  completed : σ.completed = false
  noted : .completed ∉ σ.log
  delivered : ∀ j, Delivered σ.log j

/-- A phase is open. -/
structure Running (c : Barrier) (k : Nat) (ph : Phase) (σ : BarrierRun) : Prop where
  mem : c.phases[k]? = some ph
  ledger : Ledger c σ.log (k + 1)
  phase : σ.phase = k
  scheduled : σ.scheduled = []
  completed : σ.completed = false
  noted : .completed ∉ σ.log
  delivered : ∀ j < k, Delivered σ.log j
  counting : Counting c k ph σ
  waiting : σ.completedGpuCount < c.numGpus ∨ c.checksAll = false ∧ ph.closes = false
  busy : c.checksAll = false → ph.trivial = false

/-- The collective is over. -/
structure Done (c : Barrier) (σ : BarrierRun) : Prop where
  ledger : Ledger c σ.log c.phases.length
  scheduled : σ.scheduled = []
  completed : σ.completed = true
  once : σ.log.count .completed = 1
  delivered : ∀ j, Delivered σ.log j

/-- A collective waits for the event of a phase, or has one open, or is over. -/
inductive BarrierStage
  | waiting (k : Nat)
  | running (k : Nat)
  | done

/-- A collective is at a stage. -/
inductive Stage (c : Barrier) (σ : BarrierRun) : BarrierStage → Prop
  | waiting {k : Nat} (settled : Settled c k σ) (scheduled : σ.scheduled = [k]) :
      Stage c σ (.waiting k)
  | running {k : Nat} {ph : Phase} (running : Running c k ph σ) : Stage c σ (.running k)
  | done (done : Done c σ) : Stage c σ .done

/-- The stages that can follow a phase. -/
def Barrier.After (c : Barrier) (k : Nat) : BarrierStage → Prop
  | .waiting j => j = k + 1
  | .running j => j = k + 1 ∧ c.checksAll = true
  | .done => k + 1 = c.phases.length

/-- The start of a phase ends it. -/
def Barrier.EndsAtStart (c : Barrier) (ph : Phase) : Prop :=
  ph.trivial = true ∨ ph.closes = true ∧ ∀ r < c.numGpus, ph.credited r = true

variable {ph : Phase} {σ τ : BarrierRun}

theorem delivered_of_full (hb : c.Balanced) (hph : c.phases[k]? = some ph)
    (hl : Ledger c log (k + 1)) (hfull : ∀ r < c.numGpus,
      ph.expected r ≤ ∑ src ∈ Finset.range c.numGpus, deliveredOf log k src r) :
    Delivered log k := by
  have hmem : ph ∈ c.phases := List.mem_of_getElem? hph
  have hsent : ∀ src dst, sentOf log k src dst = ph.between src dst := by
    intro src dst
    rw [hl.sent, if_pos (Nat.lt_succ_self k), Barrier.planned, hph]
  intro src dst
  by_cases hin : src < c.numGpus ∧ dst < c.numGpus
  -- the sums are the same, and so are their terms
  · have hle : ∀ s ∈ Finset.range c.numGpus, deliveredOf log k s dst ≤ ph.between s dst := by
      intro s _
      rw [← hsent]
      exact hl.bound k s dst
    have hge : ∑ s ∈ Finset.range c.numGpus, ph.between s dst ≤
        ∑ s ∈ Finset.range c.numGpus, deliveredOf log k s dst := by
      rw [hb.balanced ph hmem dst hin.2]
      exact hfull dst hin.2
    have hsum := le_antisymm (Finset.sum_le_sum hle) hge
    rw [hsent]
    exact (Finset.sum_eq_sum_iff_of_le hle).mp hsum src (Finset.mem_range.mpr hin.1)
  · have hzero : sentOf log k src dst = 0 := by
      rw [hsent]
      refine Phase.between_eq_zero ?_
      rintro t ht ⟨rfl, rfl⟩
      exact hin (hb.placed ph hmem t ht)
    have := hl.bound k src dst
    omega

theorem Settled.complete (h : Settled c c.phases.length σ) (hs : σ.scheduled = []) :
    Done c σ.complete where
  ledger := h.ledger.complete h.delivered
  scheduled := hs
  completed := rfl
  once := by
    show (σ.log ++ [BarrierObs.completed]).count BarrierObs.completed = 1
    rw [List.count_append, List.count_eq_zero.mpr h.noted]
    rfl
  delivered j src dst := by
    show deliveredOf (σ.log ++ [.completed]) j src dst = sentOf (σ.log ++ [.completed]) j src dst
    rw [deliveredOf_append, sentOf_append, h.delivered j src dst]
    rfl

theorem Settled.openPhase_none (h : Settled c k σ) (hs : σ.scheduled = [])
    (hk : c.phases[k]? = none) : Done c (c.openPhase σ k) := by
  have hle := h.ledger.started_le
  obtain rfl : k = c.phases.length := by
    have := List.getElem?_eq_none_iff.mp hk
    omega
  rw [Barrier.openPhase, hk]
  exact h.complete hs

theorem Settled.openPhase_some (h : Settled c k σ) (hk : c.phases[k]? = some ph) :
    c.openPhase σ k =
      { σ with
        phase := k
        gpuReceivedBytes := fun _ => 0
        gpuPhaseComplete := fun _ => false
        completedGpuCount := 0
        log := σ.log ++ openingLog k ph } ∧
      Ledger c (σ.log ++ openingLog k ph) (k + 1) ∧
      .completed ∉ σ.log ++ openingLog k ph ∧
      (∀ j ≠ k, Delivered (σ.log ++ openingLog k ph) j) ∧
      ∀ src dst, deliveredOf (σ.log ++ openingLog k ph) k src dst = 0 := by
  refine ⟨?_, h.ledger.open_ hk h.delivered, ?_, ?_, ?_⟩
  · rw [Barrier.openPhase, hk]
    rfl
  · intro hmem
    rcases List.mem_append.mp hmem with hmem | hmem
    · exact h.noted hmem
    · rcases mem_sends_of_openingLog hmem with heq | ⟨t, heq⟩ <;> cases heq
  · intro j hj src dst
    rw [deliveredOf_append, sentOf_append, deliveredOf_openingLog, sentOf_openingLog,
      if_neg (Ne.symm hj), h.delivered j src dst]
  · intro src dst
    have hsent := h.ledger.sent k src dst
    rw [if_neg (lt_irrefl k)] at hsent
    rw [deliveredOf_append, deliveredOf_openingLog, h.delivered k src dst, hsent]

theorem settled_of_full (hb : c.Balanced) (hph : c.phases[k]? = some ph)
    (hl : Ledger c σ.log (k + 1)) (hcompleted : σ.completed = false) (hnoted : .completed ∉ σ.log)
    (hdelivered : ∀ j < k, Delivered σ.log j)
    (hreceived : ∀ r < c.numGpus,
      σ.gpuReceivedBytes r = ∑ src ∈ Finset.range c.numGpus, deliveredOf σ.log k src r)
    (hfull : ∀ r < c.numGpus, ph.expected r ≤ σ.gpuReceivedBytes r) : Settled c (k + 1) σ where
  ledger := hl
  completed := hcompleted
  noted := hnoted
  delivered j := by
    rcases lt_trichotomy j k with hlt | rfl | hgt
    · exact hdelivered j hlt
    · refine delivered_of_full hb hph hl fun r hr => ?_
      rw [← hreceived r hr]
      exact hfull r hr
    · exact hl.delivered_of_le hgt

/-! ## Steps -/

theorem Settled.leave (hb : c.Balanced) (h : Settled c (k + 1) σ) (hs : σ.scheduled = [])
    (hph : c.phases[k]? = some ph) :
    ∃ stage, Stage c (c.leave σ k ph) stage ∧ c.After k stage := by
  rw [Barrier.leave]
  split
  · refine ⟨_, .waiting (k := k + 1) ⟨h.ledger, h.completed, h.noted, h.delivered⟩ ?_, rfl⟩
    show σ.scheduled ++ [k + 1] = [k + 1]
    rw [hs]
    rfl
  · rename_i hwaits
    cases hnext : c.phases[k + 1]? with
    | none =>
        refine ⟨_, .done (h.openPhase_none hs hnext), ?_⟩
        have hle := h.ledger.started_le
        have := List.getElem?_eq_none_iff.mp hnext
        show k + 1 = c.phases.length
        omega
    | some ph' =>
        -- only a full-mesh collective goes on at once
        have hall : c.checksAll = true := by
          by_contra hnot
          have hlast := hb.staged (by simpa using hnot) k ph hph (by simpa using hwaits)
          obtain ⟨hlt, -⟩ := List.getElem?_eq_some_iff.mp hnext
          omega
        obtain ⟨heq, hl, hnoted, hdelivered, hzero⟩ := h.openPhase_some hnext
        rw [heq]
        refine ⟨_, .running (k := k + 1) ⟨hnext, hl, rfl, hs, h.completed, hnoted,
          fun j hj => hdelivered j (by omega), ⟨?_, ?_, ?_, ?_⟩, .inl hb.ranks, ?_⟩, rfl, hall⟩
        · intro r _
          exact (Finset.sum_eq_zero fun src _ => hzero src r).symm
        · simp [BarrierRun.marked]
        · intro r _ hmarked
          cases hmarked
        · rintro r hr (⟨hnot, -⟩ | ⟨htouched, -⟩)
          · rw [hall] at hnot
            cases hnot
          · rw [Barrier.Touched, if_pos hall] at htouched
            obtain ⟨q, -, hq⟩ := htouched
            cases hq
        · intro hnot
          rw [hall] at hnot
          cases hnot

theorem Settled.startPhase (hb : c.Balanced) (h : Settled c k σ) (hs : σ.scheduled = []) :
    ∃ stage, Stage c (c.startPhase σ k) stage ∧
      (stage = .running k ∨ (stage = .done ∧ k = c.phases.length) ∨
        ∃ ph, c.phases[k]? = some ph ∧ c.EndsAtStart ph ∧ c.After k stage) := by
  rw [Barrier.startPhase, if_neg (by simp [hb.void])]
  cases hk : c.phases[k]? with
  | none =>
      have hnone := h.openPhase_none hs hk
      rw [Barrier.openPhase, hk] at hnone
      refine ⟨_, .done hnone, .inr (.inl ⟨rfl, ?_⟩)⟩
      have hle := h.ledger.started_le
      have := List.getElem?_eq_none_iff.mp hk
      omega
  | some ph =>
      have hmem : ph ∈ c.phases := List.mem_of_getElem? hk
      obtain ⟨heq, hl, hnoted, hdelivered, hzero⟩ := h.openPhase_some hk
      dsimp only
      rw [heq]
      generalize hσ' : ({ σ with
        phase := k
        gpuReceivedBytes := fun _ => 0
        gpuPhaseComplete := fun _ => false
        completedGpuCount := 0
        log := σ.log ++ openingLog k ph } : BarrierRun) = σ'
      have hreceived : ∀ r, σ'.gpuReceivedBytes r = 0 := fun r => by rw [← hσ']
      have hsums : ∀ r, σ'.gpuReceivedBytes r =
          ∑ src ∈ Finset.range c.numGpus, deliveredOf σ'.log k src r := by
        intro r
        rw [hreceived, ← hσ']
        exact (Finset.sum_eq_zero fun src _ => hzero src r).symm
      have hsettled : ∀ τ : BarrierRun, τ.log = σ'.log → τ.completed = σ'.completed →
          τ.gpuReceivedBytes = σ'.gpuReceivedBytes →
          (∀ r < c.numGpus, ph.expected r = 0) → Settled c (k + 1) τ := by
        intro τ hlog hcompleted hbytes hnothing
        refine settled_of_full hb hk ?_ ?_ ?_ ?_ ?_ ?_
        · rw [hlog, ← hσ']
          exact hl
        · rw [hcompleted, ← hσ']
          exact h.completed
        · rw [hlog, ← hσ']
          exact hnoted
        · intro j hj
          rw [hlog, ← hσ']
          exact hdelivered j (by omega)
        · intro r _
          rw [hlog, hbytes]
          exact hsums r
        · intro r hr
          rw [hnothing r hr]
          exact Nat.zero_le _
      have hs' : σ'.scheduled = [] := by
        rw [← hσ']
        exact hs
      split
      · rename_i htrivial
        obtain ⟨stage, hstage, hafter⟩ :=
          (hsettled σ' rfl rfl rfl (hb.trivial ph hmem htrivial)).leave hb hs' hk
        exact ⟨stage, hstage, .inr (.inr ⟨ph, rfl, .inl htrivial, hafter⟩)⟩
      · rename_i htrivial
        have hmarks : Marks c.numGpus ph.credited (List.range c.numGpus) σ'
            (σ'.markWhere ph.credited (List.range c.numGpus)) :=
          marks_markWhere (fun gpu hgpu => List.mem_range.mp hgpu) σ'
        generalize σ'.markWhere ph.credited (List.range c.numGpus) = τ at hmarks
        have hmarked : ∀ r < c.numGpus, τ.gpuPhaseComplete r = true ↔ ph.credited r = true := by
          intro r hr
          rw [hmarks.marked_iff, ← hσ']
          simp [hr]
        have hcount : τ.completedGpuCount = (τ.marked c.numGpus).card := by
          apply hmarks.count
          rw [← hσ']
          simp [BarrierRun.marked]
        split
        · rename_i hover
          -- no rank waits for anything
          have hall : ∀ r < c.numGpus, ph.credited r = true := fun r hr =>
            (hmarked r hr).mp (all_marked hcount hover.2 r hr)
          obtain ⟨stage, hstage, hafter⟩ :=
            (hsettled τ hmarks.log hmarks.completed hmarks.gpuReceivedBytes fun r hr =>
              hb.credited ph hmem r hr (hall r hr)).leave hb (hmarks.scheduled.trans hs') hk
          exact ⟨stage, hstage, .inr (.inr ⟨ph, rfl, .inr ⟨hover.1, hall⟩, hafter⟩)⟩
        · rename_i hopen
          refine ⟨_, .running (k := k) ⟨hk, ?_, ?_, hmarks.scheduled.trans hs', ?_, ?_,
            ?_, ⟨?_, hcount, ?_, ?_⟩, ?_, fun _ => by simpa using htrivial⟩, .inl rfl⟩
          · rw [hmarks.log, ← hσ']
            exact hl
          · rw [hmarks.phase, ← hσ']
          · rw [hmarks.completed, ← hσ']
            exact h.completed
          · rw [hmarks.log, ← hσ']
            exact hnoted
          · intro j hj
            rw [hmarks.log, ← hσ']
            exact hdelivered j (by omega)
          · intro r _
            rw [hmarks.gpuReceivedBytes, hmarks.log]
            exact hsums r
          · intro r hr hm
            rw [hb.credited ph hmem r hr ((hmarked r hr).mp hm)]
            exact Nat.zero_le _
          · rintro r hr (⟨-, hcredited⟩ | ⟨htouched, -⟩)
            · exact (hmarked r hr).mpr hcredited
            -- nothing has been received yet
            · rw [Barrier.Touched, hmarks.gpuReceivedBytes] at htouched
              split at htouched
              · obtain ⟨q, -, hq⟩ := htouched
                rw [hreceived] at hq
                cases hq
              · rw [hreceived] at htouched
                cases htouched
          · by_cases hlt : τ.completedGpuCount < c.numGpus
            · exact .inl hlt
            · have hnot : ph.closes = false := by
                by_contra hcloses
                exact hopen ⟨by simpa using hcloses, by omega⟩
              refine .inr ⟨?_, hnot⟩
              by_contra hall
              have := hb.closes (by simpa using hall) ph hmem
              rw [hnot] at this
              cases this

theorem Running.of_enabled (hb : c.Balanced) (h : Running c k ph σ) {j : Nat}
    (hen : Barrier.Enabled σ (.deliver j t)) : j = k ∧ t.src < c.numGpus ∧ t.dst < c.numGpus := by
  obtain ⟨hbytes, hle⟩ := hen
  have hsent := h.ledger.sent j t.src t.dst
  have hpos : 0 < sentOf σ.log j t.src t.dst := by omega
  obtain rfl : j = k := by
    rcases lt_trichotomy j k with hlt | heq | hgt
    · have := h.delivered j hlt t.src t.dst
      omega
    · exact heq
    · rw [if_neg (by omega)] at hsent
      omega
  refine ⟨rfl, ?_⟩
  by_contra hout
  have hzero : c.planned j t.src t.dst = 0 := by
    rw [Barrier.planned, h.mem]
    refine Phase.between_eq_zero ?_
    rintro t' ht' ⟨hsrc, hdst⟩
    have := hb.placed ph (List.mem_of_getElem? h.mem) t' ht'
    rw [hsrc, hdst] at this
    exact hout this
  rw [hzero] at hsent
  split at hsent <;> omega

/-- A fragment of the open phase, before it is looked at. -/
def BarrierRun.take (σ : BarrierRun) (k : Nat) (t : Transfer) : BarrierRun :=
  { σ with
    log := σ.log ++ [.delivered k t (some k)]
    gpuReceivedBytes :=
      update σ.gpuReceivedBytes t.dst (σ.gpuReceivedBytes t.dst + t.bytes) }

theorem le_take (σ : BarrierRun) (k : Nat) (t : Transfer) (r : Nat) :
    σ.gpuReceivedBytes r ≤ (σ.take k t).gpuReceivedBytes r := by
  show _ ≤ update σ.gpuReceivedBytes t.dst _ r
  by_cases hr : r = t.dst
  · subst hr
    rw [update_self]
    exact Nat.le_add_right _ _
  · rw [update_of_ne hr]

/-- The ranks that a packet makes the collective look at. -/
def Barrier.lookedAt (c : Barrier) (dst : Nat) : List Nat :=
  if c.checksAll then List.range c.numGpus else [dst]

theorem Running.counting_take (h : Running c k ph σ) (hsrc : t.src < c.numGpus)
    (hm : Marks c.numGpus (fun gpu => (σ.take k t).gpuReceivedBytes gpu ≥ ph.expected gpu)
      (c.lookedAt t.dst) (σ.take k t) τ) : Counting c k ph τ where
  received r hr := by
    rw [hm.gpuReceivedBytes, hm.log]
    show update σ.gpuReceivedBytes t.dst _ r =
      ∑ src ∈ Finset.range c.numGpus, deliveredOf (σ.log ++ [.delivered k t (some k)]) k src r
    simp only [deliveredOf_append, deliveredOf_delivered, true_and]
    rw [Finset.sum_add_distrib, ← h.counting.received r hr]
    by_cases hdst : r = t.dst
    · subst hdst
      have hone : ∑ src ∈ Finset.range c.numGpus,
          (if t.src = src ∧ t.dst = t.dst then t.bytes else 0) = t.bytes := by
        rw [Finset.sum_eq_single t.src]
        · exact if_pos ⟨rfl, rfl⟩
        · exact fun src _ hne => if_neg fun heq => hne heq.1.symm
        · exact fun hout => absurd (Finset.mem_range.mpr hsrc) hout
      rw [hone, update_self]
    · rw [update_of_ne hdst, Nat.left_eq_add]
      exact Finset.sum_eq_zero fun src _ => if_neg fun heq => hdst heq.2.symm
  counted := hm.count h.counting.counted
  full r hr hmarked := by
    rw [hm.gpuReceivedBytes]
    rcases (hm.marked_iff r).mp hmarked with hold | ⟨-, hfull⟩
    · exact (h.counting.full r hr hold).trans (le_take σ k t r)
    · simpa using hfull
  prompt r hr hcause := by
    apply (hm.marked_iff r).mpr
    rw [hm.gpuReceivedBytes] at hcause
    rcases hcause with hcredited | ⟨htouched, hfull⟩
    · exact .inl (h.counting.prompt r hr (.inl hcredited))
    · have hp : decide ((σ.take k t).gpuReceivedBytes r ≥ ph.expected r) = true := by simpa using hfull
      by_cases hlooked : r ∈ c.lookedAt t.dst
      · exact .inr ⟨hlooked, hp⟩
      -- it was looked at before, and nothing has come since
      · left
        have hnot : c.checksAll = false ∧ r ≠ t.dst := by
          rw [Barrier.lookedAt] at hlooked
          split at hlooked
          · exact absurd (List.mem_range.mpr hr) hlooked
          · rename_i hchecks
            exact ⟨by simpa using hchecks, by simpa using hlooked⟩
        have hsame : (σ.take k t).gpuReceivedBytes r = σ.gpuReceivedBytes r :=
          update_of_ne hnot.2 _ _
        rw [Barrier.Touched, hnot.1, hm.gpuReceivedBytes, hsame] at htouched
        rw [hsame] at hfull
        refine h.counting.prompt r hr (.inr ⟨?_, hfull⟩)
        rw [Barrier.Touched, hnot.1]
        exact htouched

theorem Running.take_marks (hb : c.Balanced) (h : Running c k ph σ)
    (hen : Barrier.Enabled σ (.deliver k t))
    (hm : Marks c.numGpus (fun gpu => (σ.take k t).gpuReceivedBytes gpu ≥ ph.expected gpu)
      (c.lookedAt t.dst) (σ.take k t) τ) :
    ((τ.completedGpuCount < c.numGpus ∨ c.checksAll = false ∧ ph.closes = false) →
      Stage c τ (.running k)) ∧
    (τ.completedGpuCount ≥ c.numGpus →
      ∃ stage, Stage c (c.leave τ τ.phase ph) stage ∧ c.After k stage) := by
  obtain ⟨-, hsrc, -⟩ := h.of_enabled hb hen
  have hcounting := h.counting_take hsrc hm
  have hl : Ledger c τ.log (k + 1) := by
    rw [hm.log]
    exact h.ledger.deliver hen.2
  have hphase : τ.phase = k := hm.phase.trans h.phase
  have hscheduled : τ.scheduled = [] := hm.scheduled.trans h.scheduled
  have hcompleted : τ.completed = false := hm.completed.trans h.completed
  have hnoted : .completed ∉ τ.log := by
    rw [hm.log]
    intro hmem
    rcases List.mem_append.mp hmem with hmem | hmem
    · exact h.noted hmem
    · simp at hmem
  have hdelivered : ∀ j < k, Delivered τ.log j := by
    intro j hj src dst
    rw [hm.log]
    show deliveredOf (σ.log ++ [.delivered k t (some k)]) j src dst =
      sentOf (σ.log ++ [.delivered k t (some k)]) j src dst
    rw [deliveredOf_append, sentOf_append, deliveredOf_delivered, if_neg (by omega),
      h.delivered j hj src dst]
    rfl
  refine ⟨fun hwaiting => ?_, fun hover => ?_⟩
  · exact .running ⟨h.mem, hl, hphase, hscheduled, hcompleted, hnoted, hdelivered, hcounting,
      hwaiting, h.busy⟩
  · rw [hphase]
    have hall := all_marked hcounting.counted hover
    exact (settled_of_full hb h.mem hl hcompleted hnoted hdelivered hcounting.received
      fun r hr => hcounting.full r hr (hall r hr)).leave hb hscheduled h.mem

theorem Running.deliver (hb : c.Balanced) (h : Running c k ph σ) {j : Nat}
    (hen : Barrier.Enabled σ (.deliver j t)) (hex : c.exec σ (.deliver j t) = .ok τ) :
    ∃ stage, Stage c τ stage ∧ (stage = .running k ∨ c.After k stage) := by
  obtain ⟨rfl, -, -⟩ := h.of_enabled hb hen
  have hgo : (σ.completed && c.guarded) = false := by rw [h.completed, Bool.false_and]
  obtain rfl := h.phase
  cases hex
  simp only [Barrier.onPacketReceived, hgo, Bool.false_eq_true, if_false, h.mem]
  show ∃ stage, Stage c (if c.checksAll = true then
    (let υ := (σ.take σ.phase t).markWhere
        (fun gpu => (σ.take σ.phase t).gpuReceivedBytes gpu ≥ ph.expected gpu) (List.range c.numGpus)
      if υ.completedGpuCount ≥ c.numGpus then c.leave υ υ.phase ph else υ)
    else if (decide ((σ.take σ.phase t).gpuReceivedBytes t.dst ≥ ph.expected t.dst) &&
        !(σ.take σ.phase t).gpuPhaseComplete t.dst) = true then
      (let υ := (σ.take σ.phase t).mark t.dst
        if υ.completedGpuCount ≥ c.numGpus then c.leave υ υ.phase ph else υ)
    else σ.take σ.phase t) stage ∧ (stage = .running σ.phase ∨ c.After σ.phase stage)
  dsimp only
  split
  · rename_i hall
    have hlooked : c.lookedAt t.dst = List.range c.numGpus := by
      rw [Barrier.lookedAt, if_pos hall]
    have hm : Marks c.numGpus (fun gpu => (σ.take σ.phase t).gpuReceivedBytes gpu ≥ ph.expected gpu)
        (List.range c.numGpus) (σ.take σ.phase t) ((σ.take σ.phase t).markWhere
          (fun gpu => (σ.take σ.phase t).gpuReceivedBytes gpu ≥ ph.expected gpu)
          (List.range c.numGpus)) :=
      marks_markWhere (fun gpu hgpu => List.mem_range.mp hgpu) (σ.take σ.phase t)
    rw [← hlooked] at hm ⊢
    obtain ⟨hstay, hover⟩ := h.take_marks hb hen hm
    split
    · rename_i hge
      obtain ⟨stage, hstage, hafter⟩ := hover hge
      exact ⟨stage, hstage, .inr hafter⟩
    · rename_i hlt
      exact ⟨_, hstay (.inl (Nat.not_le.mp hlt)), .inl rfl⟩
  · rename_i hone
    have hlooked : c.lookedAt t.dst = [t.dst] := by rw [Barrier.lookedAt, if_neg hone]
    split
    · rename_i hnew
      simp only [Bool.and_eq_true, Bool.not_eq_true'] at hnew
      have hm : Marks c.numGpus (fun gpu => (σ.take σ.phase t).gpuReceivedBytes gpu ≥ ph.expected gpu)
          [t.dst] (σ.take σ.phase t) ((σ.take σ.phase t).mark t.dst) :=
        marks_mark (h.of_enabled hb hen).2.2 hnew.1 hnew.2
      rw [← hlooked] at hm
      obtain ⟨hstay, hover⟩ := h.take_marks hb hen hm
      split
      · rename_i hge
        obtain ⟨stage, hstage, hafter⟩ := hover hge
        exact ⟨stage, hstage, .inr hafter⟩
      · rename_i hlt
        exact ⟨_, hstay (.inl (Nat.not_le.mp hlt)), .inl rfl⟩
    · rename_i hold
      have hm : Marks c.numGpus (fun gpu => (σ.take σ.phase t).gpuReceivedBytes gpu ≥ ph.expected gpu)
          (c.lookedAt t.dst) (σ.take σ.phase t) (σ.take σ.phase t) := by
        apply Marks.refl
        intro gpu hgpu hp
        rw [hlooked] at hgpu
        obtain rfl := List.mem_singleton.mp hgpu
        rw [hp, Bool.true_and, Bool.not_eq_true', Bool.not_eq_false] at hold
        exact hold
      exact ⟨_, (h.take_marks hb hen hm).1 h.waiting, .inl rfl⟩

end ProtoBridge.Collective
