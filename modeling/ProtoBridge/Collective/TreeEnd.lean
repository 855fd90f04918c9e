import ProtoBridge.Collective.TreeBooks

/-!
# What a run of TreeAllReduce comes to

A rank is done when it has got all data from its parent, the root when it has got them from its
children. The callback is called when all are done, and nothing keeps a run from that.
-/

namespace ProtoBridge.Collective

open Lib Fabric
open Function (update update_of_ne update_self)

namespace TreeRun

variable {t : TreeAllReduce} {c c' : TreeRun} {flow : TreeFlow} {gpu src dst child : Nat}

/-- The callback is called behind all bytes. -/
def CompletesBehindArrivals (t : TreeAllReduce) (log : List TreeObs) : Prop :=
  Justified (fun pre e => e = .completed → AllDelivered t pre) log

/-- The logged steps are those of the schedule. -/
def StepsInRange (t : TreeAllReduce) (log : List TreeObs) : Prop :=
  ∀ gpu step, .stepComplete gpu step ∈ log → step < 2 * t.depth

theorem Settled.congr (h : Settled t c) (htree : c'.tree = c.tree)
    (hup : c'.upRecvFromChild = c.upRecvFromChild) (hdown : c'.downRecv = c.downRecv)
    (hsent : c'.sentBytes = c.sentBytes) (hpromised : ∀ s d, c'.promised s d = c.promised s d)
    (hdelivered : ∀ s d, edgeDelivered c'.log s d = edgeDelivered c.log s d)
    (hgrows : ∀ s d, edgeSent c.log s d ≤ edgeSent c'.log s d) : Settled t c' := by
  have hready := ready_congr htree hup hdown
  refine ⟨⟨htree.trans h.books.tree, ?_, ?_, ?_, ?_, ?_, ?_⟩, ?_⟩
  · intro flow s d hedge
    rw [hpromised, hsent]
    exact h.books.sent flow s d hedge
  · intro s d hnone
    rw [hpromised]
    exact h.books.confined s d hnone
  · intro g child hchild
    rw [hup, hdelivered]
    exact h.books.upGot g child hchild
  · intro g child hchild
    rw [hdown, hdelivered]
    exact h.books.downGot g child hchild
  · intro s d
    rw [hdelivered]
    exact (h.books.flown s d).trans (hgrows s d)
  · intro flow s d hedge
    rw [hready, hsent]
    exact h.books.cap flow s d hedge
  · intro flow g hg d hedge hall
    rw [hready] at hall
    rw [hsent]
    exact h.released flow g hg d hedge hall

/-- A run that has not completed, and what it has logged. -/
structure Unfinished (t : TreeAllReduce) (c : TreeRun) : Prop where
  initial : .triggerInitialSends ∉ c.scheduled
  pending : c.completed = false
  silent : c.log.count .completed = 0
  completes : CompletesBehindArrivals t c.log
  steps : StepsInRange t c.log

/-- A settled run that has not completed, apart from what it knows to be done. -/
structure Live (t : TreeAllReduce) (c : TreeRun) : Prop extends Settled t c, Unfinished t c

/-- The ranks know when they are done. -/
structure Knows (t : TreeAllReduce) (c : TreeRun) : Prop where
  rootDone : c.upDone 0 = true ↔ t.dataSize ≤ c.upReadyBytes 0
  downDone : ∀ gpu < t.numGpus, gpu ≠ 0 → (c.downDone gpu = true ↔ t.dataSize ≤ c.downRecv gpu)

/-- A run behind the first sends. -/
structure Kept (t : TreeAllReduce) (c : TreeRun) : Prop extends Settled t c, Knows t c where
  initial : .triggerInitialSends ∉ c.scheduled
  done : c.gpuDoneCount =
    ((Finset.range t.numGpus).filter fun gpu => t.dataSize ≤ c.downReadyBytes gpu).card
  ended : c.completed = true ↔ ∀ gpu < t.numGpus, t.dataSize ≤ c.downReadyBytes gpu
  once : c.log.count .completed = if c.completed then 1 else 0
  completes : CompletesBehindArrivals t c.log
  steps : StepsInRange t c.log

theorem downReadyBytes_zero : c.downReadyBytes 0 = c.upReadyBytes 0 := if_pos rfl

theorem dataSize_le_downReadyBytes (htree : c.tree = t) (hne : gpu ≠ 0) :
    t.dataSize ≤ c.downReadyBytes gpu ↔ t.dataSize ≤ c.downRecv gpu := by
  rw [downReadyBytes, if_neg hne, htree, le_min_iff]
  exact and_iff_left le_rfl

variable {e : TreeObs} {old : TreeRun} {bytes : UInt32}

theorem StepsInRange.snoc {log : List TreeObs} (h : StepsInRange t log)
    (he : ∀ gpu step, e = .stepComplete gpu step → step < 2 * t.depth)
    : StepsInRange t (log ++ [e]) := by
  intro g step hmem
  rcases List.mem_append.mp hmem with hmem | hmem
  · exact h g step hmem
  · exact he g step (List.mem_singleton.mp hmem).symm

theorem Settled.note (h : Settled t c)
    (he : ∀ s d, edgeSent [e] s d = 0 ∧ edgeDelivered [e] s d = 0) (htree : c'.tree = c.tree)
    (hup : c'.upRecvFromChild = c.upRecvFromChild) (hdown : c'.downRecv = c.downRecv)
    (hsent : c'.sentBytes = c.sentBytes) (hscheduled : c'.scheduled = c.scheduled)
    (hlog : c'.log = c.log ++ [e]) : Settled t c' := by
  have hsame : ∀ s d, edgeSent c'.log s d = edgeSent c.log s d := by
    intro s d
    rw [hlog, edgeSent_append, (he s d).1, Nat.add_zero]
  refine h.congr htree hup hdown hsent ?_ ?_ fun s d => (hsame s d).ge
  · intro s d
    rw [promised, promised, hsame, hscheduled]
  · intro s d
    rw [hlog, edgeDelivered_append, (he s d).2, Nat.add_zero]

theorem Live.mark (h : Live t c) (upDone downDone : Nat → Bool) (gpuDoneCount : Nat) :
    Live t { c with upDone, downDone, gpuDoneCount } :=
  ⟨h.toSettled.congr rfl rfl rfl rfl (fun _ _ => rfl) (fun _ _ => rfl) fun _ _ => le_rfl,
    ⟨h.initial, h.pending, h.silent, h.completes, h.steps⟩⟩

theorem Live.kept (h : Live t c) (hknows : Knows t c)
    (hnot : ¬ ∀ gpu < t.numGpus, t.dataSize ≤ c.downReadyBytes gpu)
    (hdone : c.gpuDoneCount =
      ((Finset.range t.numGpus).filter fun gpu => t.dataSize ≤ c.downReadyBytes gpu).card) :
    Kept t c := by
  refine ⟨h.toSettled, hknows, h.initial, hdone, iff_of_false (by simp [h.pending]) hnot, ?_,
    h.completes, h.steps⟩
  rw [h.pending]
  exact h.silent

theorem Live.markGpuDone (h : Live t c) (ht : t.Lawful) (hknows : Knows t c)
    (hdone : c.gpuDoneCount + 1 =
      ((Finset.range t.numGpus).filter fun gpu => t.dataSize ≤ c.downReadyBytes gpu).card) :
    Kept t c.markGpuDone := by
  have hcounted : Live t { c with gpuDoneCount := c.gpuDoneCount + 1 } := h.mark c.upDone c.downDone _
  have hsame : Knows t { c with gpuDoneCount := c.gpuDoneCount + 1 } := ⟨hknows.rootDone, hknows.downDone⟩
  unfold TreeRun.markGpuDone
  dsimp only
  split
  · rename_i hlast
    rw [h.books.tree, hdone] at hlast
    have hall := forall_of_card hlast
    refine ⟨h.toSettled.note (fun _ _ => ⟨rfl, rfl⟩) rfl rfl rfl rfl rfl rfl,
      ⟨hknows.rootDone, hknows.downDone⟩, h.initial, hdone, iff_of_true rfl hall, ?_, ?_, ?_⟩
    · show (c.log ++ [TreeObs.completed]).count TreeObs.completed = 1
      rw [List.count_append, h.silent]
      rfl
    · exact h.completes.snoc fun _ => h.books.allDelivered ht hall
    · exact h.steps.snoc fun _ _ heq => nomatch heq
  · rename_i hfew
    refine hcounted.kept hsame ?_ hdone
    intro hall
    replace hall : ∀ gpu < t.numGpus, t.dataSize ≤ c.downReadyBytes gpu := hall
    rw [Finset.filter_true_of_mem fun g hg => hall g (Finset.mem_range.mp hg),
      Finset.card_range] at hdone
    rw [h.books.tree] at hfew
    omega

theorem Live.logStepComplete (h : Live t c) {step : Int} (hpos : 0 ≤ step) (hlt : step < 2 * t.depth) :
    Live t (c.logStepComplete gpu step) := by
  unfold TreeRun.logStepComplete
  generalize hn : (step % 2 ^ 32).toNat = n
  have hn' : n < 2 * t.depth := by omega
  refine ⟨h.toSettled.note (fun _ _ => ⟨rfl, rfl⟩) rfl rfl rfl rfl rfl rfl, h.initial, h.pending, ?_, ?_, ?_⟩
  · show (c.log ++ [TreeObs.stepComplete gpu n]).count TreeObs.completed = 0
    rw [List.count_append, h.silent]
    rfl
  · exact h.completes.snoc fun heq => nomatch heq
  · refine h.steps.snoc fun g s heq => ?_
    cases heq
    exact hn'

/-! ## Arrivals -/

theorem Unfinished.sends {d d' : TreeRun} (h : Unfinished t d) (honly : SendsOnly d d') :
    Unfinished t d' := by
  obtain ⟨more, hlog, hsends⟩ := honly.log
  obtain ⟨events, hscheduled, hnone⟩ := honly.scheduled
  refine ⟨?_, honly.completed.trans h.pending, ?_, ?_, ?_⟩
  · rw [hscheduled]
    intro hmem
    exact (List.mem_append.mp hmem).elim h.initial hnone
  · rw [hlog, List.count_append, h.silent, Nat.zero_add, List.count_eq_zero]
    intro hmem
    obtain ⟨s, d, bytes, heq⟩ := hsends _ hmem
    cases heq
  · rw [hlog]
    refine h.completes.append _ ?_
    rintro e hmem pre rfl
    obtain ⟨s, d, bytes, heq⟩ := hsends _ hmem
    cases heq
  · rw [hlog]
    intro g step hmem
    rcases List.mem_append.mp hmem with hmem | hmem
    · exact h.steps g step hmem
    · obtain ⟨s, d, bytes, heq⟩ := hsends _ hmem
      cases heq

theorem live_of_pumped {d d' : TreeRun} (h : Pumped t flow gpu d d') (hunfinished : Unfinished t d)
    (hothers : ∀ flow' g, g < t.numGpus → (flow', g) ≠ (flow, gpu) → Released t d flow' g) : Live t d' := by
  refine ⟨⟨h.books, fun flow' g hg => ?_⟩, hunfinished.sends h.only⟩
  by_cases heq : (flow', g) = (flow, gpu)
  · obtain ⟨rfl, rfl⟩ := Prod.mk.inj heq
    exact h.released
  · exact h.others flow' g heq (hothers flow' g hg heq)

/-- A rank has got bytes from its parent. -/
theorem Live.finishDown (h : Live t c) (ht : t.Lawful) (hold : Knows t old)
    (holdTree : old.tree = t) (hgpu : gpu < t.numGpus) (hne : gpu ≠ 0)
    (hbefore : ¬ t.dataSize ≤ old.downRecv gpu) (hup : c.upRecvFromChild = old.upRecvFromChild)
    (hdown : ∀ g, g ≠ gpu → c.downRecv g = old.downRecv g) (hupDone : c.upDone = old.upDone)
    (hdownDone : c.downDone = old.downDone) (hcount : c.gpuDoneCount =
      ((Finset.range t.numGpus).filter fun gpu => t.dataSize ≤ old.downReadyBytes gpu).card) :
    Kept t (c.finishDown gpu) := by
  have hflag : c.downDone gpu = false := by
    rw [hdownDone, ← Bool.not_eq_true, hold.downDone gpu hgpu hne]
    exact hbefore
  have hroot : c.upReadyBytes 0 = old.upReadyBytes 0 :=
    upReadyBytes_eq (h.books.tree.trans holdTree.symm) hup 0
  have hbefore' : ¬ t.dataSize ≤ old.downReadyBytes gpu := by
    rwa [dataSize_le_downReadyBytes holdTree hne]
  have hothers : ∀ g, g ≠ gpu → (t.dataSize ≤ c.downReadyBytes g ↔ t.dataSize ≤ old.downReadyBytes g) := by
    intro g hg
    unfold downReadyBytes
    rw [hroot, hdown g hg, h.books.tree, holdTree]
  have hrootDone : c.upDone 0 = true ↔ t.dataSize ≤ c.upReadyBytes 0 := by
    rw [hupDone, hroot]
    exact hold.rootDone
  have htree := h.books.tree
  unfold TreeRun.finishDown
  split
  · rename_i hfull
    rw [htree] at hfull
    have hbound := TreeAllReduce.heapLevel_le_depth ht hgpu
    have hstep := TreeAllReduce.getTreeLevel_eq ht hgpu
    rw [heapLevel_of_ne hne] at hstep hbound
    rw [← htree] at hbound hstep
    have hmarked : Live t { c with downDone := update c.downDone gpu true } := h.mark c.upDone _ _
    refine (hmarked.logStepComplete ?_ ?_).markGpuDone ht ⟨hrootDone, ?_⟩ ?_
    · show (0 : Int) ≤ c.tree.depth + c.tree.getTreeLevel gpu - 1
      omega
    · show (c.tree.depth + c.tree.getTreeLevel gpu - 1 : Int) < 2 * t.depth
      rw [← htree]
      omega
    · intro g hg hgne
      show update c.downDone gpu true g = true ↔ t.dataSize ≤ c.downRecv g
      by_cases heq : g = gpu
      · rw [heq, update_self]
        exact iff_of_true rfl hfull.2
      · rw [update_of_ne heq, hdownDone, hdown g heq]
        exact hold.downDone g hg hgne
    · show c.gpuDoneCount + 1 = ((Finset.range t.numGpus).filter fun gpu =>
        t.dataSize ≤ c.downReadyBytes gpu).card
      rw [hcount]
      exact (card_filter_insert hgpu hbefore'
        ((dataSize_le_downReadyBytes h.books.tree hne).mpr hfull.2) hothers).symm
  · rename_i hpart
    have hnot : ¬ t.dataSize ≤ c.downRecv gpu := fun hfull => hpart ⟨hflag, htree ▸ hfull⟩
    have hnot' : ¬ t.dataSize ≤ c.downReadyBytes gpu := by
      rwa [dataSize_le_downReadyBytes h.books.tree hne]
    refine h.kept ⟨hrootDone, ?_⟩ (fun hall => hnot' (hall gpu hgpu)) ?_
    · intro g hg hgne
      by_cases heq : g = gpu
      · rw [heq]
        exact iff_of_false (by simp [hflag]) hnot
      · rw [hdownDone, hdown g heq]
        exact hold.downDone g hg hgne
    · rw [hcount]
      exact (card_filter_same (a := gpu) hbefore' hnot' hothers).symm

theorem upStep_bounds (ht : t.Lawful) (hchild : t.ChildOf gpu child) :
    (0 : Int) ≤ t.depth - 1 - t.getTreeLevel gpu ∧
      (t.depth - 1 - t.getTreeLevel gpu : Int) < 2 * t.depth := by
  have hgpu := hchild.lt.trans hchild.1
  have hbound := TreeAllReduce.heapLevel_le_depth ht hchild.1
  have hlevel := TreeAllReduce.getTreeLevel_eq ht hgpu
  rw [heapLevel_of_ne hchild.2.1, hchild.2.2] at hbound
  omega

theorem Live.flagUp (h : Live t c) (ht : t.Lawful) (hchild : t.ChildOf gpu child) :
    Live t (TreeRun.logStepComplete { c with upDone := update c.upDone gpu true } gpu
      (c.tree.depth - 1 - c.tree.getTreeLevel gpu)) := by
  have hmarked : Live t { c with upDone := update c.upDone gpu true } := h.mark _ c.downDone _
  have hbounds := upStep_bounds ht hchild
  rw [← h.books.tree] at hbounds
  refine hmarked.logStepComplete hbounds.1 ?_
  rw [← h.books.tree]
  exact hbounds.2

theorem Live.finishUp_root (h : Live t c) (ht : t.Lawful) (hold : Knows t old)
    (holdTree : old.tree = t) (hchild : t.ChildOf 0 child)
    (hbefore : ¬ t.dataSize ≤ old.upReadyBytes 0) (hdown : c.downRecv = old.downRecv)
    (hupDone : c.upDone = old.upDone) (hdownDone : c.downDone = old.downDone)
    (hcount : c.gpuDoneCount =
      ((Finset.range t.numGpus).filter fun gpu => t.dataSize ≤ old.downReadyBytes gpu).card) :
    Kept t (c.finishUp 0) := by
  have htree := h.books.tree
  have hpos : 0 < t.numGpus := hchild.lt.trans hchild.1
  have hflag : c.upDone 0 = false := by
    rw [hupDone, ← Bool.not_eq_true, hold.rootDone]
    exact hbefore
  have hbefore' : ¬ t.dataSize ≤ old.downReadyBytes 0 := by rwa [downReadyBytes_zero]
  have hothers : ∀ g, g ≠ 0 → (t.dataSize ≤ c.downReadyBytes g ↔ t.dataSize ≤ old.downReadyBytes g) := by
    intro g hg
    rw [dataSize_le_downReadyBytes htree hg, dataSize_le_downReadyBytes holdTree hg, hdown]
  have hleaves : ∀ g < t.numGpus, g ≠ 0 → (c.downDone g = true ↔ t.dataSize ≤ c.downRecv g) := by
    rw [hdownDone, hdown]
    exact hold.downDone
  unfold TreeRun.finishUp
  split
  · rename_i hfull
    rw [htree] at hfull
    dsimp only
    rw [if_pos rfl]
    refine (h.flagUp ht hchild).markGpuDone ht ⟨iff_of_true ?_ hfull.2, hleaves⟩ ?_
    · show update c.upDone 0 true 0 = true
      rw [update_self]
    · show c.gpuDoneCount + 1 = ((Finset.range t.numGpus).filter fun gpu =>
        t.dataSize ≤ c.downReadyBytes gpu).card
      rw [hcount]
      refine (card_filter_insert hpos hbefore' ?_ hothers).symm
      rw [downReadyBytes_zero]
      exact hfull.2
  · rename_i hpart
    have hnot : ¬ t.dataSize ≤ c.upReadyBytes 0 := fun hfull => hpart ⟨hflag, htree ▸ hfull⟩
    have hnot' : ¬ t.dataSize ≤ c.downReadyBytes 0 := by rwa [downReadyBytes_zero]
    refine h.kept ⟨iff_of_false (by simp [hflag]) hnot, hleaves⟩ (fun hall => hnot' (hall 0 hpos)) ?_
    rw [hcount]
    exact (card_filter_same (a := 0) hbefore' hnot' hothers).symm

theorem Live.finishUp_inner (h : Live t c) (ht : t.Lawful) (hold : Knows t old)
    (holdTree : old.tree = t) (hchild : t.ChildOf gpu child) (hne : gpu ≠ 0)
    (hroot : c.upReadyBytes 0 = old.upReadyBytes 0) (hdown : c.downRecv = old.downRecv)
    (hupDone : c.upDone = old.upDone) (hdownDone : c.downDone = old.downDone)
    (hnot : ¬ ∀ gpu < t.numGpus, t.dataSize ≤ old.downReadyBytes gpu) (hcount : c.gpuDoneCount =
      ((Finset.range t.numGpus).filter fun gpu => t.dataSize ≤ old.downReadyBytes gpu).card) :
    Kept t (c.finishUp gpu) := by
  have htree := h.books.tree
  have hsame : ∀ g, c.downReadyBytes g = old.downReadyBytes g := by
    intro g
    unfold downReadyBytes
    rw [hroot, hdown, htree, holdTree]
  have hrootDone : c.upDone 0 = true ↔ t.dataSize ≤ c.upReadyBytes 0 := by
    rw [hupDone, hroot]
    exact hold.rootDone
  have hleaves : ∀ g < t.numGpus, g ≠ 0 → (c.downDone g = true ↔ t.dataSize ≤ c.downRecv g) := by
    rw [hdownDone, hdown]
    exact hold.downDone
  have hnot' : ¬ ∀ gpu < t.numGpus, t.dataSize ≤ c.downReadyBytes gpu := by
    intro hall
    apply hnot
    intro g hg
    rw [← hsame]
    exact hall g hg
  have hcount' : c.gpuDoneCount =
      ((Finset.range t.numGpus).filter fun gpu => t.dataSize ≤ c.downReadyBytes gpu).card := by
    simp only [hsame]
    exact hcount
  unfold TreeRun.finishUp
  split
  · dsimp only
    refine (h.flagUp ht hchild).kept ⟨?_, hleaves⟩ hnot' hcount'
    show update c.upDone gpu true 0 = true ↔ t.dataSize ≤ c.upReadyBytes 0
    rw [update_of_ne (Ne.symm hne)]
    exact hrootDone
  · exact h.kept ⟨hrootDone, hleaves⟩ hnot' hcount'

theorem onPacketReceived_down {booked : TreeRun} (ht : t.Lawful) (htree : c.tree = t)
    (hpending : c.completed = false) (hchild : t.ChildOf gpu child) (hbytes : bytes ≠ 0)
    (hroom : c.downRecv child + bytes.toNat ≤ t.dataSize) (hbooked : booked = { c with
      downRecv := update c.downRecv child (c.downRecv child + bytes.toNat) }) (now : Nat)
    (packetSize : UInt32) :
    c.onPacketReceived now (fragmentHeader gpu child bytes) packetSize =
      (booked.pumpDown now child).finishDown child := by
  have hlt := hchild.lt
  have hin := hchild.1
  have hfew := ht.few
  have hsender : (UInt16.ofNat gpu).toNat = gpu :=
    UInt16.toNat_ofNat_of_lt' (by simp [UInt16.size]; omega)
  have hdest : (UInt16.ofNat child).toNat = child :=
    UInt16.toNat_ofNat_of_lt' (by simp [UInt16.size]; omega)
  have hadd : wadd 64 (c.downRecv child) bytes.toNat = c.downRecv child + bytes.toNat :=
    wadd_eq (lt_of_le_of_lt hroom ht.size)
  have hparent : gpu = TreeAllReduce.getParent child := by
    rw [ht.getParent_of_ne hin hchild.2.1]
    exact hchild.2.2.symm
  subst hbooked
  unfold onPacketReceived
  rw [if_neg (by simp [fragmentHeader]),
    if_neg (show ¬ (fragmentHeader gpu child bytes).effectiveDataSize = 0 from hbytes)]
  dsimp only [fragmentHeader]
  simp only [hsender, hdest, hadd]
  rw [if_neg (by rw [htree, hpending]; simp [hin]), if_pos hparent]

theorem onPacketReceived_up {booked : TreeRun} (ht : t.Lawful) (htree : c.tree = t)
    (hpending : c.completed = false) (hchild : t.ChildOf gpu child) (hbytes : bytes ≠ 0)
    (hroom : c.upRecvFromChild child + bytes.toNat ≤ t.dataSize) (hbooked : booked = { c with
      upRecvFromChild :=
        update c.upRecvFromChild child (c.upRecvFromChild child + bytes.toNat) })
    (now : Nat) (packetSize : UInt32) :
    c.onPacketReceived now (fragmentHeader child gpu bytes) packetSize =
      (if gpu = 0 then booked.pumpDown now 0 else booked.pumpUp now gpu).finishUp gpu := by
  have hlt := hchild.lt
  have hin := hchild.1
  have hfew := ht.few
  have hgpu : gpu < t.numGpus := hlt.trans hin
  have hsender : (UInt16.ofNat child).toNat = child :=
    UInt16.toNat_ofNat_of_lt' (by simp [UInt16.size]; omega)
  have hdest : (UInt16.ofNat gpu).toNat = gpu :=
    UInt16.toNat_ofNat_of_lt' (by simp [UInt16.size]; omega)
  have hadd : wadd 64 (c.upRecvFromChild child) bytes.toNat =
      c.upRecvFromChild child + bytes.toNat := wadd_eq (lt_of_le_of_lt hroom ht.size)
  -- the child is not the parent
  have hparent : child ≠ TreeAllReduce.getParent gpu := by
    by_cases hzero : gpu = 0
    · rw [hzero]
      exact ht.ne_noRank hin
    · rw [ht.getParent_of_ne hgpu hzero]
      have := heapParent_lt hzero
      omega
  have hfamily := (ht.childOf_iff hgpu hin).mp hchild
  subst hbooked
  unfold onPacketReceived
  rw [if_neg (by simp [fragmentHeader]),
    if_neg (show ¬ (fragmentHeader child gpu bytes).effectiveDataSize = 0 from hbytes)]
  dsimp only [fragmentHeader]
  simp only [hsender, hdest, hadd]
  rw [if_neg (by rw [htree, hpending]; simp [hgpu]), if_neg hparent, if_pos (by rw [htree]; exact hfamily)]

theorem Kept.unfinished (h : Kept t c) (hpending : c.completed = false)
    (he : ∃ s d bytes, e = .delivered s d bytes) : Unfinished t { c with log := c.log ++ [e] } := by
  obtain ⟨s, d, bytes, rfl⟩ := he
  refine ⟨h.initial, hpending, ?_, h.completes.snoc (fun heq => nomatch heq),
    h.steps.snoc (fun _ _ heq => nomatch heq)⟩
  show (c.log ++ [TreeObs.delivered s d bytes]).count TreeObs.completed = 0
  rw [List.count_append, h.once, hpending]
  rfl

theorem Kept.pending_of_flight (h : Kept t c) (ht : t.Lawful) (hedge : t.Edge flow src dst)
    (hflight : edgeDelivered c.log src dst < edgeSent c.log src dst) : c.completed = false := by
  by_contra hover
  have hall := h.books.allDelivered ht (h.ended.mp (by simpa using hover))
  have hle := h.books.edgeSent_le_dataSize ht hedge
  have := hall flow src dst hedge
  omega

theorem Kept.deliver_down (h : Kept t c) (ht : t.Lawful) (hchild : t.ChildOf gpu child)
    (hbytes : bytes ≠ 0)
    (hfits : edgeDelivered c.log gpu child + bytes.toNat ≤ edgeSent c.log gpu child) (now : Nat)
    (packetSize : UInt32) :
    Kept t (onPacketReceived { c with log := c.log ++ [.delivered gpu child bytes.toNat] } now
      (fragmentHeader gpu child bytes) packetSize) := by
  have hpos : bytes.toNat ≠ 0 := fun hzero => hbytes (UInt32.toNat_inj.mp hzero)
  have hedge : t.Edge .down gpu child := hchild
  have hpending := h.pending_of_flight ht hedge (by omega)
  have hgot := h.books.downGot gpu child hchild
  have hle := h.books.edgeSent_le_dataSize ht hedge
  have hroom : c.downRecv child + bytes.toNat ≤ t.dataSize := by omega
  have hopen := h.unfinished hpending ⟨gpu, child, bytes.toNat, rfl⟩
  generalize hbooked : ({ c with
    downRecv := update c.downRecv child (c.downRecv child + bytes.toNat)
    log := c.log ++ [.delivered gpu child bytes.toNat] } : TreeRun) = d
  rw [onPacketReceived_down (c := { c with log := c.log ++ [.delivered gpu child bytes.toNat] })
    ht h.books.tree hpending hchild hbytes hroom hbooked.symm]
  have hrecv : d.downRecv = update c.downRecv child (c.downRecv child + bytes.toNat) := by
    rw [← hbooked]
  have hup : d.upRecvFromChild = c.upRecvFromChild := by rw [← hbooked]
  have htree : d.tree = c.tree := by rw [← hbooked]
  have hsent : d.sentBytes = c.sentBytes := by rw [← hbooked]
  have hbooks : Books t d := by
    refine h.books.arrive ht hedge hfits htree hsent (by rw [← hbooked]) (by rw [← hbooked]) ?_ ?_
    · intro g
      rw [hup]
      simp
    · intro g
      rw [hrecv]
      by_cases heq : g = child
      · rw [heq, update_self, if_pos ⟨rfl, rfl⟩]
      · rw [update_of_ne heq, if_neg fun hin => heq hin.2, Nat.add_zero]
  have hothers : ∀ flow' g, g < t.numGpus → (flow', g) ≠ (.down, child) → Released t d flow' g := by
    intro flow' g hg hne dst' hedge' hall
    rw [hsent]
    refine h.released flow' g hg dst' hedge' ?_
    cases flow' with
    | up =>
        change t.dataSize ≤ d.upReadyBytes g at hall
        rwa [upReadyBytes_eq htree hup] at hall
    | down =>
        have hother : g ≠ child := fun heq => hne (by rw [heq])
        have hsame : d.downReadyBytes g = c.downReadyBytes g := by
          unfold downReadyBytes
          rw [upReadyBytes_eq htree hup, htree, hrecv, update_of_ne hother]
        change t.dataSize ≤ d.downReadyBytes g at hall
        rwa [hsame] at hall
  have hpumped := pumped_pumpDown hbooks ht hchild.1 now
  have hunfinished : Unfinished t d := by
    rw [← hbooked]
    exact ⟨hopen.initial, hopen.pending, hopen.silent, hopen.completes, hopen.steps⟩
  have hlive := live_of_pumped hpumped hunfinished hothers
  refine hlive.finishDown ht h.toKnows h.books.tree hchild.1 hchild.2.1 (by omega)
    (hpumped.only.upRecv.trans hup) ?_ (hpumped.only.upDone.trans (by rw [← hbooked]))
    (hpumped.only.downDone.trans (by rw [← hbooked]))
    ((hpumped.only.gpuDoneCount.trans (by rw [← hbooked])).trans h.done)
  intro g hg
  rw [hpumped.only.downRecv, hrecv, update_of_ne hg]

theorem Kept.deliver_up (h : Kept t c) (ht : t.Lawful) (hchild : t.ChildOf gpu child)
    (hbytes : bytes ≠ 0)
    (hfits : edgeDelivered c.log child gpu + bytes.toNat ≤ edgeSent c.log child gpu) (now : Nat)
    (packetSize : UInt32) :
    Kept t (onPacketReceived { c with log := c.log ++ [.delivered child gpu bytes.toNat] } now
      (fragmentHeader child gpu bytes) packetSize) := by
  have hpos : bytes.toNat ≠ 0 := fun hzero => hbytes (UInt32.toNat_inj.mp hzero)
  have hedge : t.Edge .up child gpu := hchild
  have hgpu : gpu < t.numGpus := hchild.lt.trans hchild.1
  have hpending := h.pending_of_flight ht hedge (by omega)
  have hgot := h.books.upGot gpu child hchild
  have hle := h.books.edgeSent_le_dataSize ht hedge
  have hroom : c.upRecvFromChild child + bytes.toNat ≤ t.dataSize := by omega
  have hopen := h.unfinished hpending ⟨child, gpu, bytes.toNat, rfl⟩
  generalize hbooked : ({ c with
    upRecvFromChild := update c.upRecvFromChild child (c.upRecvFromChild child + bytes.toNat)
    log := c.log ++ [.delivered child gpu bytes.toNat] } : TreeRun) = d
  rw [onPacketReceived_up (c := { c with log := c.log ++ [.delivered child gpu bytes.toNat] })
    ht h.books.tree hpending hchild hbytes hroom hbooked.symm]
  have hrecv : d.upRecvFromChild =
      update c.upRecvFromChild child (c.upRecvFromChild child + bytes.toNat) := by
    rw [← hbooked]
  have hdown : d.downRecv = c.downRecv := by rw [← hbooked]
  have htree : d.tree = c.tree := by rw [← hbooked]
  have hsent : d.sentBytes = c.sentBytes := by rw [← hbooked]
  have hupDone : d.upDone = c.upDone := by rw [← hbooked]
  have hdownDone : d.downDone = c.downDone := by rw [← hbooked]
  have hcount : d.gpuDoneCount = c.gpuDoneCount := by rw [← hbooked]
  have hbooks : Books t d := by
    refine h.books.arrive ht hedge hfits htree hsent (by rw [← hbooked]) (by rw [← hbooked]) ?_ ?_
    · intro g
      rw [hrecv]
      by_cases heq : g = child
      · rw [heq, update_self, if_pos ⟨rfl, rfl⟩]
      · rw [update_of_ne heq, if_neg fun hin => heq hin.2, Nat.add_zero]
    · intro g
      rw [hdown]
      simp
  -- only the parent has more ready
  have hready : ∀ g < t.numGpus, g ≠ gpu → d.upReadyBytes g = c.upReadyBytes g := by
    intro g hg hne
    refine upReadyBytes_congr ht h.books.tree hbooks.tree hg ?_
    intro g' hg'
    have hother : g' ≠ child := fun heq => hne (hg'.2.2.symm.trans (heq ▸ hchild.2.2))
    rw [hrecv, update_of_ne hother]
  have hzero : 0 < t.numGpus := Nat.lt_of_le_of_lt (Nat.zero_le _) hgpu
  have hdownReady : ∀ g, g ≠ 0 ∨ gpu ≠ 0 → d.downReadyBytes g = c.downReadyBytes g := by
    intro g hne
    unfold downReadyBytes
    rw [htree, hdown]
    split
    · rename_i heq
      exact hready 0 hzero (Ne.symm (hne.resolve_left (not_not.mpr heq)))
    · rfl
  have hothers : ∀ flow' g, g < t.numGpus → (flow', g) ≠ (.up, gpu) →
      ¬ (flow' = .down ∧ g = 0 ∧ gpu = 0) → Released t d flow' g := by
    intro flow' g hg hne hne' dst' hedge' hall
    rw [hsent]
    refine h.released flow' g hg dst' hedge' ?_
    cases flow' with
    | up =>
        change t.dataSize ≤ d.upReadyBytes g at hall
        rwa [hready g hg fun heq => hne (by rw [heq])] at hall
    | down =>
        change t.dataSize ≤ d.downReadyBytes g at hall
        rwa [hdownReady g (by
          by_contra hboth
          push Not at hboth
          exact hne' ⟨rfl, hboth⟩)] at hall
  have hunfinished : Unfinished t d := by
    rw [← hbooked]
    exact ⟨hopen.initial, hopen.pending, hopen.silent, hopen.completes, hopen.steps⟩
  by_cases hroot : gpu = 0
  · subst hroot
    rw [if_pos rfl]
    have hpumped := pumped_pumpDown hbooks ht hzero now
    have hlive : Live t (d.pumpDown now 0) := by
      refine live_of_pumped hpumped hunfinished ?_
      intro flow' g hg hne
      by_cases hup : (flow', g) = (.up, 0)
      · obtain ⟨rfl, rfl⟩ := Prod.mk.inj hup
        exact fun dst' hedge' => absurd rfl hedge'.2.1
      · exact hothers flow' g hg hup fun heq => hne (by rw [heq.1, heq.2.1])
    have hbefore : ¬ t.dataSize ≤ c.upReadyBytes 0 := by
      intro hall
      have := hall.trans (upReadyBytes_le_child ht h.books.tree hchild)
      omega
    exact hlive.finishUp_root ht h.toKnows h.books.tree hchild hbefore
      (hpumped.only.downRecv.trans hdown) (hpumped.only.upDone.trans hupDone)
      (hpumped.only.downDone.trans hdownDone)
      ((hpumped.only.gpuDoneCount.trans hcount).trans h.done)
  · rw [if_neg hroot]
    have hpumped := pumped_pumpUp hbooks ht hgpu now
    have hlive : Live t (d.pumpUp now gpu) := by
      refine live_of_pumped hpumped hunfinished ?_
      intro flow' g hg hne
      exact hothers flow' g hg hne fun heq => hroot heq.2.2
    refine hlive.finishUp_inner ht h.toKnows h.books.tree hchild hroot ?_
      (hpumped.only.downRecv.trans hdown) (hpumped.only.upDone.trans hupDone)
      (hpumped.only.downDone.trans hdownDone) ?_
      ((hpumped.only.gpuDoneCount.trans hcount).trans h.done)
    · rw [upReadyBytes_eq hpumped.only.tree hpumped.only.upRecv]
      exact hready 0 hzero (Ne.symm hroot)
    · intro hall
      rw [h.ended.mpr hall] at hpending
      cases hpending

theorem Kept.deliver (h : Kept t c) (ht : t.Lawful) (hbytes : bytes ≠ 0)
    (hfits : edgeDelivered c.log src dst + bytes.toNat ≤ edgeSent c.log src dst) (now : Nat)
    (packetSize : UInt32) :
    Kept t (onPacketReceived { c with log := c.log ++ [.delivered src dst bytes.toNat] } now
      (fragmentHeader src dst bytes) packetSize) := by
  have hpos : bytes.toNat ≠ 0 := fun hzero => hbytes (UInt32.toNat_inj.mp hzero)
  obtain ⟨flow, hedge⟩ : ∃ flow, t.Edge flow src dst := by
    by_contra hnone
    push Not at hnone
    have := h.books.confined src dst hnone
    unfold promised at this
    omega
  cases flow with
  | up => exact h.deliver_up ht hedge hbytes hfits now packetSize
  | down => exact h.deliver_down ht hedge hbytes hfits now packetSize

theorem Kept.send (h : Kept t c) {i bytes : Nat} (hevent : c.scheduled[i]? = some (.doSend src dst bytes)) :
    Kept t (doSend { c with scheduled := c.scheduled.eraseIdx i } src dst bytes) := by
  obtain ⟨hi, hget⟩ := List.getElem?_eq_some_iff.mp hevent
  have hperm : List.Perm (.doSend src dst bytes :: c.scheduled.eraseIdx i) c.scheduled := by
    rw [← hget]
    exact List.getElem_cons_eraseIdx_perm hi
  have hdue : ∀ s d, due c.scheduled s d =
      (if src = s ∧ dst = d then bytes else 0) + due (c.scheduled.eraseIdx i) s d := by
    intro s d
    unfold due
    rw [← (hperm.map (dueOn s d)).sum_eq, List.map_cons, List.sum_cons]
    rfl
  have hsent : ∀ s d, edgeSent (c.log ++ [TreeObs.sent src dst bytes]) s d =
      edgeSent c.log s d + if src = s ∧ dst = d then bytes else 0 := by
    intro s d
    rw [edgeSent_append, edgeSent_sent]
  refine ⟨h.toSettled.congr rfl rfl rfl rfl ?_ ?_ ?_, ⟨h.rootDone, h.downDone⟩,
    fun hmem => h.initial (List.eraseIdx_subset hmem), h.done, h.ended, ?_, ?_, ?_⟩
  · intro s d
    show edgeSent (c.log ++ [TreeObs.sent src dst bytes]) s d + due (c.scheduled.eraseIdx i) s d = _
    rw [hsent, promised, hdue, Nat.add_assoc]
  · intro s d
    show edgeDelivered (c.log ++ [TreeObs.sent src dst bytes]) s d = _
    rw [edgeDelivered_append]
    rfl
  · intro s d
    exact (Nat.le_add_right _ _).trans (hsent s d).ge
  · show (c.log ++ [TreeObs.sent src dst bytes]).count TreeObs.completed = _
    rw [List.count_append, h.once]
    rfl
  · refine h.completes.snoc ?_
    rintro ⟨⟩
  · refine h.steps.snoc ?_
    rintro _ _ ⟨⟩

/-! ## The first sends -/

theorem books_nil (t : TreeAllReduce) : Books t { tree := t } := by
  refine ⟨rfl, fun _ _ _ _ => rfl, fun _ _ _ => rfl, fun _ _ _ => rfl, fun _ _ _ => rfl,
    fun _ _ => le_rfl, ?_⟩
  intro flow s d _
  exact Nat.zero_le _

theorem not_upReady_nil (ht : t.Lawful) (htree : c.tree = t) (hrecv : c.upRecvFromChild = fun _ => 0)
    (hchild : t.ChildOf gpu child) : ¬ t.dataSize ≤ c.upReadyBytes gpu := by
  intro hall
  have hzero := hall.trans (upReadyBytes_le_child ht htree hchild)
  rw [hrecv] at hzero
  exact absurd ht.data (Nat.not_lt.mpr hzero)

theorem not_downReady_nil (ht : t.Lawful) (htree : c.tree = t)
    (hup : c.upRecvFromChild = fun _ => 0) (hdown : c.downRecv = fun _ => 0) :
    ¬ t.dataSize ≤ c.downReadyBytes gpu := by
  by_cases hzero : gpu = 0
  · rw [hzero, downReadyBytes_zero]
    have htwo := ht.two
    have hchild : t.ChildOf 0 1 := ⟨by omega, by decide, rfl⟩
    exact not_upReady_nil ht htree hup hchild
  · rw [dataSize_le_downReadyBytes htree hzero, hdown]
    exact Nat.not_le.mpr ht.data

theorem pumped_leaves (ht : t.Lawful) (now : Nat) (ranks : List Nat)
    (hranks : ∀ g ∈ ranks, g < t.numGpus) (h : Books t c) (hup : c.upRecvFromChild = fun _ => 0)
    (hothers : ∀ flow, ∀ g < t.numGpus, (flow = .up → g ∉ ranks) → Released t c flow g) :
    Settled t (ranks.foldl (fun c gpu =>
      if c.tree.getLeftChild gpu = TreeAllReduce.noRank ∧
          c.tree.getRightChild gpu = TreeAllReduce.noRank then c.pumpUp now gpu else c) c) ∧
    SendsOnly c (ranks.foldl (fun c gpu =>
      if c.tree.getLeftChild gpu = TreeAllReduce.noRank ∧
          c.tree.getRightChild gpu = TreeAllReduce.noRank then c.pumpUp now gpu else c) c) := by
  induction ranks generalizing c with
  | nil => exact ⟨⟨h, fun flow g hg => hothers flow g hg fun _ => List.not_mem_nil⟩, SendsOnly.refl c⟩
  | cons gpu rest ih =>
      have hgpu := hranks gpu List.mem_cons_self
      have hrest : ∀ g ∈ rest, g < t.numGpus := fun g hg => hranks g (List.mem_cons_of_mem _ hg)
      rw [List.foldl_cons]
      by_cases hleft : t.getLeftChild gpu = TreeAllReduce.noRank
      · rw [h.tree, if_pos ⟨hleft, ht.no_right hgpu hleft⟩]
        have hpumped := pumped_pumpUp h ht hgpu now
        obtain ⟨hsettled, honly⟩ := ih hrest hpumped.books (hpumped.only.upRecv.trans hup) (by
          intro flow g hg hnew
          by_cases heq : (flow, g) = (.up, gpu)
          · obtain ⟨rfl, rfl⟩ := Prod.mk.inj heq
            exact hpumped.released
          · refine hpumped.others flow g heq (hothers flow g hg ?_)
            rintro rfl hmem
            rcases List.mem_cons.mp hmem with rfl | hmem
            · exact heq rfl
            · exact hnew rfl hmem)
        exact ⟨hsettled, hpumped.only.trans honly⟩
      · rw [h.tree, if_neg fun hnone => hleft hnone.1]
        refine ih hrest h hup ?_
        intro flow g hg hnew
        by_cases heq : (flow, g) = (.up, gpu)
        · obtain ⟨rfl, rfl⟩ := Prod.mk.inj heq
          exact fun _ _ hall => absurd hall (not_upReady_nil ht h.tree hup (ht.childOf_left hgpu hleft))
        · refine hothers flow g hg ?_
          rintro rfl hmem
          rcases List.mem_cons.mp hmem with rfl | hmem
          · exact heq rfl
          · exact hnew rfl hmem

theorem kept_of_sendsOnly (ht : t.Lawful) (h : Settled t c) (honly : SendsOnly { tree := t } c) :
    Kept t c := by
  have htwo := ht.two
  have hnot : ∀ g, ¬ t.dataSize ≤ c.downReadyBytes g := fun g =>
    not_downReady_nil ht h.books.tree honly.upRecv honly.downRecv
  have hstart : Unfinished t { tree := t } :=
    ⟨List.not_mem_nil, rfl, rfl, .nil, fun _ _ hmem => absurd hmem List.not_mem_nil⟩
  have hlive : Live t c := ⟨h, hstart.sends honly⟩
  refine hlive.kept ⟨?_, ?_⟩ (fun hall => hnot 0 (hall 0 (by omega))) ?_
  · rw [honly.upDone, ← downReadyBytes_zero]
    exact iff_of_false Bool.false_ne_true (hnot 0)
  · intro g _ hne
    rw [honly.downDone, honly.downRecv]
    exact iff_of_false Bool.false_ne_true (Nat.not_le.mpr ht.data)
  · rw [honly.gpuDoneCount, Finset.filter_false_of_mem fun g _ => hnot g]
    rfl

theorem kept_triggerInitialSends (ht : t.Lawful) (now : Nat) :
    Kept t (triggerInitialSends { tree := t } now) := by
  have htwo := ht.two
  have hranks : ∀ g ∈ List.range' 1 (t.numGpus - 1), g < t.numGpus := by
    intro g hg
    rw [List.mem_range'_1] at hg
    omega
  obtain ⟨hsettled, honly⟩ := pumped_leaves (c := { tree := t }) ht now _ hranks (books_nil t) rfl (by
    intro flow g hg hnew d hedge hall
    refine absurd hall ?_
    cases flow with
    | up =>
        refine absurd (List.mem_range'_1.mpr ?_) (hnew rfl)
        have := hedge.2.1
        omega
    | down => exact not_downReady_nil ht rfl rfl rfl)
  unfold triggerInitialSends
  rw [if_neg (by dsimp only; omega)]
  exact kept_of_sendsOnly ht hsettled honly

/-! ## Runs -/

theorem onPacketReceived_other {q : Header} (hdata : q.packetType ≠ .data) (now : Nat)
    (packetSize : UInt32) : c.onPacketReceived now q packetSize = c := by
  unfold onPacketReceived
  rw [if_pos hdata]

/-- What a run is at: the first sends are scheduled, or the data flow. -/
def Stage (t : TreeAllReduce) (c : TreeRun) : Prop :=
  c = { tree := t, scheduled := [.triggerInitialSends] } ∨ Kept t c

theorem Stage.exec (h : Stage t c) (ht : t.Lawful) {a : Act} (hen : c.enabled a)
    (hex : c.exec a = .ok c') : Stage t c' := by
  rcases h with rfl | h
  · cases a with
    | fire now i =>
        have hi : i = 0 := Nat.lt_one_iff.mp hen
        subst hi
        cases hex
        exact .inr (kept_triggerInitialSends ht now)
    | deliver now s d bytes packetSize =>
        obtain ⟨hbytes, hfits⟩ := hen
        have hzero : bytes.toNat = 0 := Nat.le_zero.mp ((Nat.le_add_left _ _).trans hfits)
        exact absurd (UInt32.toNat_inj.mp hzero) hbytes
    | receive now q packetSize =>
        cases hex
        rw [onPacketReceived_other hen]
        exact .inl rfl
  · right
    cases a with
    | fire now i =>
        have hi : i < c.scheduled.length := hen
        unfold TreeRun.exec at hex
        dsimp only at hex
        rw [List.getElem?_eq_getElem hi] at hex
        cases hex
        cases hevent : c.scheduled[i] with
        | triggerInitialSends => exact absurd (hevent ▸ List.getElem_mem hi) h.initial
        | doSend s d bytes =>
            exact h.send ((List.getElem?_eq_getElem hi).trans (congrArg some hevent))
    | deliver now s d bytes packetSize =>
        cases hex
        exact h.deliver ht hen.1 hen.2 now packetSize
    | receive now q packetSize =>
        cases hex
        rw [onPacketReceived_other hen]
        exact h

theorem stage_invariant {numGpus : UInt16} {dataSize perStep perByte : UInt64}
    (h : TreeAllReduce.initialized numGpus dataSize perStep perByte = .ok t) (ht : t.Lawful) :
    (treeMachine numGpus dataSize perStep perByte).Invariant (Stage t) := by
  refine Machine.Inductive.invariant ⟨?_, ?_⟩
  · rintro c ⟨t', h', rfl⟩
    cases h.symm.trans h'
    left
    unfold start
    rw [if_neg ht.data.ne']
    rfl
  · intro c a c' hc hen hex
    exact hc.exec ht hen hex

/-- The acts of the network and of the clock. -/
def Act.Moves : Act → Prop
  | .receive _ _ _ => False
  | _ => True

end TreeRun

/-! ## Guarantees -/

/-- Bytes go along the edges of the tree only. A rank has sent up no more than it has got from each of its
children, and down no more than it has got from its parent, the root no more than it has got from all its
children. The callback is called once, when the root has got all data from its children and the others
from their parents, and then all data have gone over each edge, both ways. The steps that are logged are
those of the schedule. Nothing keeps a run from the callback. -/
structure TreeReduces (t : TreeAllReduce) (c : TreeRun) : Prop where
  confined : ∀ src dst, (∀ flow, ¬ t.Edge flow src dst) →
    TreeRun.edgeSent c.log src dst = 0 ∧ TreeRun.edgeDelivered c.log src dst = 0
  counted : ∀ gpu child, t.ChildOf gpu child →
    c.upRecvFromChild child = TreeRun.edgeDelivered c.log child gpu ∧
      c.downRecv child = TreeRun.edgeDelivered c.log gpu child
  wire : ∀ flow src dst, t.Edge flow src dst →
    TreeRun.edgeSent c.log src dst ≤ c.sentBytes (flow, src)
  upBehind : ∀ gpu child, gpu ≠ 0 → t.ChildOf gpu child →
    c.sentBytes (.up, gpu) ≤ c.upRecvFromChild child
  downBehind : ∀ gpu child, t.ChildOf gpu child →
    c.sentBytes (.down, gpu) ≤ if gpu = 0 then c.upReadyBytes 0 else c.downRecv gpu
  reduced : ∀ child, t.ChildOf 0 child → c.upReadyBytes 0 ≤ c.upRecvFromChild child
  ended : c.completed = true ↔ c.upReadyBytes 0 = t.dataSize ∧
    ∀ gpu < t.numGpus, gpu ≠ 0 → c.downRecv gpu = t.dataSize
  total : c.completed = true → ∀ flow src dst, t.Edge flow src dst →
    TreeRun.edgeSent c.log src dst = t.dataSize ∧ TreeRun.edgeDelivered c.log src dst = t.dataSize
  completes : TreeRun.CompletesBehindArrivals t c.log
  once : c.log.count .completed = if c.completed then 1 else 0
  steps : TreeRun.StepsInRange t c.log
  quiet : c.Quiet → c.completed = true
  goesOn : ¬ c.Quiet → ∃ a : TreeRun.Act, a.Moves ∧ c.enabled a

namespace TreeRun

variable {t : TreeAllReduce} {c : TreeRun}

/-- What the books say of a run. -/
theorem reduces_of_books (ht : t.Lawful) (h : Books t c)
    (hended : c.completed = true ↔ ∀ gpu < t.numGpus, t.dataSize ≤ c.downReadyBytes gpu)
    (honce : c.log.count .completed = if c.completed then 1 else 0)
    (hcompletes : CompletesBehindArrivals t c.log) (hsteps : StepsInRange t c.log)
    (hquiet : c.Quiet → c.completed = true)
    (hgoesOn : ¬ c.Quiet → ∃ a : Act, a.Moves ∧ c.enabled a) : TreeReduces t c := by
  have htwo := ht.two
  refine
    { confined := ?_
      counted := fun gpu child hchild => ⟨h.upGot gpu child hchild, h.downGot gpu child hchild⟩
      wire := fun flow src dst hedge => h.edgeSent_le hedge
      upBehind := ?_
      downBehind := ?_
      reduced := fun child hchild => upReadyBytes_le_child ht h.tree hchild
      ended := ?_
      total := ?_
      completes := hcompletes
      once := honce
      steps := hsteps
      quiet := hquiet
      goesOn := hgoesOn }
  · intro src dst hnone
    have hzero : edgeSent c.log src dst + due c.scheduled src dst = 0 := h.confined src dst hnone
    have hflown := h.flown src dst
    omega
  · intro gpu child hne hchild
    have hedge : t.Edge .up gpu (heapParent gpu) := ⟨hchild.lt.trans hchild.1, hne, rfl⟩
    exact (h.cap .up gpu _ hedge).trans (upReadyBytes_le_child ht h.tree hchild)
  · intro gpu child hchild
    refine (h.cap .down gpu child hchild).trans ?_
    show c.downReadyBytes gpu ≤ _
    unfold downReadyBytes
    split
    · exact le_rfl
    · exact min_le_left _ _
  · rw [hended]
    constructor
    · intro hall
      refine ⟨le_antisymm (upReadyBytes_le ht h.tree (by omega)) (hall 0 (by omega)), ?_⟩
      intro gpu hgpu hne
      have hedge : t.ChildOf (heapParent gpu) gpu := ⟨hgpu, hne, rfl⟩
      refine le_antisymm ?_ ((dataSize_le_downReadyBytes h.tree hne).mp (hall gpu hgpu))
      exact (h.downRecv_le hedge).trans (ready_le ht h.tree (hedge.lt.trans hgpu) .down)
    · rintro ⟨hroot, hrest⟩ gpu hgpu
      by_cases hzero : gpu = 0
      · rw [hzero, downReadyBytes_zero, hroot]
      · rw [dataSize_le_downReadyBytes h.tree hzero, hrest gpu hgpu hzero]
  · intro hover flow src dst hedge
    have hcame := h.allDelivered ht (hended.mp hover) flow src dst hedge
    exact ⟨le_antisymm (h.edgeSent_le_dataSize ht hedge) (hcame ▸ h.flown src dst), hcame⟩

theorem Kept.reduces (h : Kept t c) (ht : t.Lawful) : TreeReduces t c := by
  refine reduces_of_books ht h.books h.ended h.once h.completes h.steps ?_ ?_
  · intro hquiet
    exact h.ended.mpr (h.toSettled.ready_of_quiet ht hquiet)
  · intro hbusy
    cases hscheduled : c.scheduled with
    | cons e rest =>
        refine ⟨.fire 0 0, trivial, ?_⟩
        show 0 < c.scheduled.length
        rw [hscheduled]
        exact Nat.succ_pos _
    | nil =>
        have hflight : ∃ src dst, edgeDelivered c.log src dst ≠ edgeSent c.log src dst := by
          by_contra hnone
          push Not at hnone
          exact hbusy ⟨hscheduled, hnone⟩
        obtain ⟨src, dst, hne⟩ := hflight
        have hle := h.books.flown src dst
        refine ⟨.deliver 0 src dst 1 0, trivial, by decide, ?_⟩
        show edgeDelivered c.log src dst + 1 ≤ _
        omega

theorem Stage.reduces (h : Stage t c) (ht : t.Lawful) : TreeReduces t c := by
  rcases h with rfl | h
  · have htwo := ht.two
    have hbooks : Books t { tree := t, scheduled := [.triggerInitialSends] } := by
      refine ⟨rfl, fun _ _ _ _ => rfl, fun _ _ _ => rfl, fun _ _ _ => rfl, fun _ _ _ => rfl,
        fun _ _ => le_rfl, ?_⟩
      intro flow s d _
      exact Nat.zero_le _
    refine reduces_of_books ht hbooks ?_ rfl Justified.nil ?_ ?_ ?_
    · refine iff_of_false Bool.false_ne_true fun hall => ?_
      exact not_downReady_nil ht rfl rfl rfl (hall 0 (by omega))
    · exact fun _ _ hmem => absurd hmem List.not_mem_nil
    · exact fun hquiet => absurd hquiet.1 (List.cons_ne_nil _ _)
    · exact fun _ => ⟨.fire 0 0, trivial, Nat.succ_pos _⟩
  · exact h.reduces ht

end TreeRun

/-- In every run of the TreeAllReduce, whatever its pacing. -/
theorem tree_reduces (numGpus : UInt16) (dataSize perStepSwOverheadNs swOverheadPerByteNs : UInt64)
    (htwo : 2 ≤ numGpus.toNat) (hfew : numGpus.toNat ≤ 32767) (hdata : 1 ≤ dataSize.toNat) :
    ∃ t, TreeAllReduce.initialized numGpus dataSize perStepSwOverheadNs swOverheadPerByteNs = .ok t ∧
      t.numGpus = numGpus.toNat ∧ t.dataSize = dataSize.toNat ∧
      ∀ c, (treeMachine numGpus dataSize perStepSwOverheadNs swOverheadPerByteNs).Reachable c →
        TreeReduces t c := by
  have hsome : numGpus ≠ 0 := by
    rintro rfl
    exact absurd htwo (by decide)
  obtain ⟨t, hinit⟩ : ∃ t,
      TreeAllReduce.initialized numGpus dataSize perStepSwOverheadNs swOverheadPerByteNs = .ok t := by
    unfold TreeAllReduce.initialized
    rw [if_neg hsome]
    exact ⟨_, rfl⟩
  have ht := TreeAllReduce.lawful_of_initialized hinit htwo hfew hdata
  have hfields : t.numGpus = numGpus.toNat ∧ t.dataSize = dataSize.toNat := by
    unfold TreeAllReduce.initialized at hinit
    rw [if_neg hsome] at hinit
    cases hinit
    exact ⟨rfl, rfl⟩
  refine ⟨t, hinit, hfields.1, hfields.2, ?_⟩
  intro c hc
  exact (TreeRun.stage_invariant hinit ht c hc).reduces ht

/-- Five ranks, paced. -/
theorem tree_reduces_five :
    ∃ t, TreeAllReduce.initialized 5 300000 100 1 = .ok t ∧ t.numGpus = 5 ∧ t.dataSize = 300000 ∧
      ∀ c, (treeMachine 5 300000 100 1).Reachable c → TreeReduces t c :=
  tree_reduces 5 300000 100 1 (by decide) (by decide) (by decide)

end ProtoBridge.Collective
