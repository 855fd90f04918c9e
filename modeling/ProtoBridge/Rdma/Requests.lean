import ProtoBridge.Rdma.Accounting
import ProtoBridge.Rdma.PutSignal

/-!
# Logical requests

A request is over when the last of its works has been observed. The count of works to go
is kept apart from the works themselves; it is right in every run, so the callback runs at
most once, with what its works say. That it runs at all needs the completion entries, and
with them that staging copies end in turn.
-/

namespace ProtoBridge.Rdma

open Lib Relation
open Function (update update_apply update_of_ne update_self)

/-- What the callback of a request was called with. -/
def completionsOf (r : Nat) (log : List Event) : List Bool :=
  log.filterMap fun
    | .completed r' success => if r' = r then some success else none
    | _ => none

theorem mem_completionsOf {r : Nat} {success : Bool} {log : List Event} :
    success ∈ completionsOf r log ↔ .completed r success ∈ log := by
  simp only [completionsOf, List.mem_filterMap]
  constructor
  · rintro ⟨e, he, hs⟩
    cases e with
    | completed r' s =>
        simp only [Option.ite_none_right_eq_some, Option.some.injEq] at hs
        obtain ⟨rfl, rfl⟩ := hs
        exact he
    | _ => cases hs
  · exact fun h => ⟨_, h, by simp⟩

namespace View

variable {C : View → Nat → Prop} {v v' : View} {id : Nat} {w w' : Work} {key : QpKey} {r : Nat}

/-- The works of a request that are still in the map. -/
def worksOf (v : View) (r : Nat) : Finset Nat :=
  (Finset.range v.nextId).filter fun id => ∃ w ∈ v.work id, w.time.requestId = r

/-- The works of a request that are erased and still to be finished. -/
def unfinishedOf (v : View) (r : Nat) : List Work :=
  v.unfinished.filter fun w => w.time.requestId = r

theorem mem_worksOf (hn : Numbered v) :
    id ∈ v.worksOf r ↔ ∃ w, v.work id = some w ∧ w.time.requestId = r := by
  simp only [worksOf, Finset.mem_filter, Finset.mem_range, Option.mem_def]
  constructor
  · exact fun h => h.2
  · rintro ⟨w, hw, hreq⟩
    exact ⟨(hn.works id w hw).2.2.1, w, hw, hreq⟩

/-! ## The count -/

/-- The count of a request is that of its works in the map and those to be finished. -/
def Tallied (v : View) : Prop :=
  ∀ r, v.remaining r = (v.worksOf r).card + (v.unfinishedOf r).length

theorem length_unfinished_observe (hn : Numbered v) {ids : List Nat} (hids : ids.Nodup)
    (hlive : ∀ id ∈ ids, v.work id ≠ none) :
    ((ids.filterMap v.work).filter fun w => w.time.requestId = r).length =
      (v.worksOf r ∩ ids.toFinset).card := by
  have hset : v.worksOf r ∩ ids.toFinset =
      (ids.filter fun id => decide (id ∈ v.worksOf r)).toFinset := by
    ext id
    simp only [Finset.mem_inter, List.mem_toFinset, List.mem_filter, decide_eq_true_eq]
    exact And.comm
  rw [hset, List.toFinset_card_of_nodup (hids.filter _)]
  clear hset hids
  induction ids with
  | nil => rfl
  | cons id ids ih =>
      obtain ⟨w, hw⟩ := Option.ne_none_iff_exists'.mp (hlive id List.mem_cons_self)
      have hmem : id ∈ v.worksOf r ↔ w.time.requestId = r := by
        rw [mem_worksOf hn]
        simp [hw]
      have hrest := ih fun j hj => hlive j (List.mem_cons_of_mem _ hj)
      rw [List.filterMap_cons_some hw, List.filter_cons, List.filter_cons]
      by_cases hreq : w.time.requestId = r
      · simp only [hreq, hmem, decide_true, if_true, List.length_cons, hrest]
      · simp only [hreq, hmem, decide_false, Bool.false_eq_true, if_false, hrest]

theorem tallied_frame (hv : Tallied v) (hrem : v'.remaining = v.remaining)
    (hunf : v'.unfinished = v.unfinished) (hworks : ∀ r, v'.worksOf r = v.worksOf r) :
    Tallied v' := by
  intro r
  rw [hrem, hworks, unfinishedOf, hunf]
  exact hv r

theorem tallied_flag (hv : Tallied v) {j : Nat} {u u' : Work} (hu : v.work j = some u)
    (hw : v'.work = update v.work j (some u')) (htime : u'.time = u.time)
    (hnext : v'.nextId = v.nextId) (hrem : v'.remaining = v.remaining)
    (hunf : v'.unfinished = v.unfinished) : Tallied v' := by
  refine tallied_frame hv hrem hunf ?_
  intro r
  ext id
  simp only [worksOf, Finset.mem_filter, hnext, hw]
  refine and_congr_right ?_
  intro _
  by_cases hid : id = j
  · subst hid
    simp [hu, htime]
  · rw [update_of_ne hid]

theorem tallied_add (hv : Tallied v) {w₀ : Work}
    (hnext : v'.nextId = v.nextId + 1)
    (hw : v'.work = update v.work v.nextId (some w₀))
    (hrem : v'.remaining = update v.remaining w₀.time.requestId
      (v.remaining w₀.time.requestId + 1)) (hunf : v'.unfinished = v.unfinished) : Tallied v' := by
  intro r
  have hnot : v.nextId ∉ v.worksOf r := by
    simp [worksOf]
  have hset : v'.worksOf r =
      if w₀.time.requestId = r then insert v.nextId (v.worksOf r) else v.worksOf r := by
    ext id
    simp only [worksOf, Finset.mem_filter, Finset.mem_range, hnext, hw]
    by_cases hid : id = v.nextId
    · subst hid
      by_cases hreq : w₀.time.requestId = r <;> simp [hreq]
    · rw [update_of_ne hid]
      have hlt : id < v.nextId + 1 ↔ id < v.nextId := by omega
      by_cases hreq : w₀.time.requestId = r <;> simp [hreq, hid, hlt]
  have hold := hv r
  rw [hset, hrem, unfinishedOf, hunf]
  by_cases hreq : w₀.time.requestId = r
  · rw [if_pos hreq, ← hreq, update_self, hreq, Finset.card_insert_of_notMem hnot, hold]
    simp only [unfinishedOf]
    omega
  · rw [if_neg hreq, update_of_ne (Ne.symm hreq), hold]
    rfl

theorem worksOf_fresh (hr : Recorded v) (hg : Grouped v) (hg' : Gated v) (hn : Numbered v) :
    v.worksOf v.nextId = ∅ ∧ v.unfinishedOf v.nextId = [] := by
  have hlt : ∀ t, .submitted t ∈ v.log → t.requestId ≠ v.nextId := by
    intro t ht
    have h₁ := (hr.ids t ht).2
    have h₂ := (hg.bound t ht).2
    omega
  constructor
  · refine Finset.eq_empty_of_forall_notMem ?_
    intro id hid
    obtain ⟨w, hw, hreq⟩ := (mem_worksOf hn).mp hid
    exact hlt w.time (hr.live id w hw) hreq
  · refine List.filter_eq_nil_iff.mpr ?_
    intro w hw
    simpa using hlt w.time (hg'.unfinished w hw).1

theorem tallied_step (hb : Books v) (hr : Recorded v) (hg : Grouped v) (hg' : Gated v)
    (hv : Tallied v) (h : Micro C v v') : Tallied v' := by
  have hn := hb.numbered
  cases h with
  | openRequest s hs =>
      obtain ⟨hworks, hunf⟩ := worksOf_fresh hr hg hg' hn
      intro r
      by_cases hreq : r = v.nextId
      · subst hreq
        change update v.remaining v.nextId 0 v.nextId =
          (v.worksOf v.nextId).card + (v.unfinishedOf v.nextId).length
        rw [update_self, hworks, hunf]
        rfl
      · change update v.remaining v.nextId 0 r =
          (v.worksOf r).card + (v.unfinishedOf r).length
        rw [update_of_ne hreq]
        exact hv r
  | addData _ _ _ hreq | addSignal _ _ hreq =>
      exact tallied_add hv rfl rfl (by rw [hreq]) rfl
  | reserve _ _ _ _ _ hu | execute _ _ _ _ _ hu | refuse _ _ _ _ _ hu | fail _ _ hu | ack _ _ hu =>
      exact tallied_flag hv hu rfl rfl rfl rfl rfl
  | observe key i through own hdue hdone hi =>
      intro r
      have hlive : ∀ j ∈ v.covered key through, v.work j ≠ none := by
        intro j hj
        obtain ⟨-, w, hw, -⟩ := mem_covered.mp hj
        rw [hw]
        exact Option.some_ne_none w
      have hmoved := length_unfinished_observe (r := r) hn (covered_nodup v key through) hlive
      have hset : ∀ work : Nat → Option Work,
          (work = fun id => if id ∈ v.covered key through then none else v.work id) →
          ((Finset.range v.nextId).filter fun id => ∃ w ∈ work id, w.time.requestId = r) =
            v.worksOf r \ (v.covered key through).toFinset := by
        rintro work rfl
        ext id
        simp only [worksOf, Finset.mem_filter, Finset.mem_sdiff, List.mem_toFinset]
        by_cases hc : id ∈ v.covered key through <;> simp [hc]
      have hold := hv r
      have hzero : v.unfinishedOf r = [] := by
        rw [unfinishedOf, hdone]
        rfl
      have hinter : (v.worksOf r ∩ (v.covered key through).toFinset).card ≤ (v.worksOf r).card :=
        Finset.card_le_card Finset.inter_subset_left
      rw [hzero, List.length_nil, Nat.add_zero] at hold
      change v.remaining r =
        ((Finset.range v.nextId).filter fun id =>
          ∃ w ∈ (if id ∈ v.covered key through then none else v.work id),
            w.time.requestId = r).card +
        (((v.covered key through).filterMap v.work).filter fun w => w.time.requestId = r).length
      rw [hset _ rfl, hmoved, Finset.card_sdiff, hold,
        Finset.inter_comm (v.covered key through).toFinset]
      omega
  | finish w rest hw hidle =>
      intro r
      have hold := hv r
      have hunf : v.unfinishedOf r =
          if w.time.requestId = r then w :: rest.filter (fun w => w.time.requestId = r)
          else rest.filter fun w => w.time.requestId = r := by
        rw [unfinishedOf, hw, List.filter_cons]
        by_cases hreq : w.time.requestId = r <;> simp [hreq]
      change update v.remaining w.time.requestId (v.remaining w.time.requestId - 1) r =
        (v.worksOf r).card + (rest.filter fun w => w.time.requestId = r).length
      rw [hunf] at hold
      by_cases hreq : w.time.requestId = r
      · rw [← hreq, update_self, hreq, hold, if_pos hreq, List.length_cons]
        omega
      · rw [update_of_ne (Ne.symm hreq), hold, if_neg hreq]
  | _ => exact tallied_frame hv rfl rfl fun _ => rfl

/-! ## The callback -/

/-- The callback of a request runs when the last of its works is gone, once, with what the
works say. -/
structure Answered (v : View) : Prop where
  closed : ∀ r success, .completed r success ∈ v.log →
    v.remaining r = 0 ∧ 0 < r ∧ r < v.nextId ∧ r ≠ v.request.requestId
  current : ∀ t, .submitted t ∈ v.log → t.requestId = v.request.requestId →
    0 < v.remaining t.requestId
  due : ∀ t, .submitted t ∈ v.log → v.remaining t.requestId = 0 →
    ∃ success, .completed t.requestId success ∈ v.log
  once : ∀ r, (completionsOf r v.log).length ≤ 1
  truthful : ∀ r success, .completed r success ∈ v.log → (success = true ↔
    ∀ t, .submitted t ∈ v.log → t.requestId = r → .failed t.id ∉ v.log)

theorem answered_frame (hv : Answered v) (es : List Event) (hlog : v'.log = v.log ++ es)
    (hes : ∀ e ∈ es, (∀ t, e ≠ .submitted t) ∧ (∀ id, e ≠ .failed id) ∧
      ∀ r success, e ≠ .completed r success)
    (hrem : v'.remaining = v.remaining) (hnext : v'.nextId = v.nextId)
    (hrequest : v'.request = v.request) : Answered v' := by
  have hsub : ∀ t, .submitted t ∈ v'.log ↔ .submitted t ∈ v.log := by
    intro t
    rw [hlog, List.mem_append, or_iff_left]
    exact fun h => (hes _ h).1 t rfl
  have hfail : ∀ id, .failed id ∈ v'.log ↔ .failed id ∈ v.log := by
    intro id
    rw [hlog, List.mem_append, or_iff_left]
    exact fun h => (hes _ h).2.1 id rfl
  have hcomp : ∀ r s, .completed r s ∈ v'.log ↔ .completed r s ∈ v.log := by
    intro r s
    rw [hlog, List.mem_append, or_iff_left]
    exact fun h => (hes _ h).2.2 r s rfl
  have hof : ∀ r, completionsOf r v'.log = completionsOf r v.log := by
    intro r
    have hnil : completionsOf r es = [] := by
      refine List.eq_nil_iff_forall_not_mem.mpr ?_
      intro s hs
      exact (hes _ (mem_completionsOf.mp hs)).2.2 r s rfl
    rw [completionsOf] at hnil
    rw [hlog, completionsOf, List.filterMap_append, hnil, List.append_nil]
    rfl
  obtain ⟨h₁, h₂, h₃, h₄, h₅⟩ := hv
  constructor <;> simpa only [hsub, hfail, hcomp, hof, hrem, hnext, hrequest]

theorem answered_add (hv : Answered v) {t : WorkTiming}
    (hreq : t.requestId = v.request.requestId) (hlog : v'.log = v.log ++ [.submitted t])
    (hrem : v'.remaining = update v.remaining v.request.requestId
      (v.remaining v.request.requestId + 1)) (hnext : v'.nextId = v.nextId + 1)
    (hrequest : v'.request = v.request) : Answered v' := by
  have hof : ∀ r, completionsOf r (v.log ++ [.submitted t]) = completionsOf r v.log := by
    intro r
    simp [completionsOf]
  -- the current request is not over, so no answer is about it
  obtain ⟨hclosed, hcurrent, hdue, honce, htruthful⟩ := hv
  constructor <;> simp only [hof, hlog, hrem, hnext, hrequest, List.mem_append, List.mem_singleton,
    update_apply] <;> grind

theorem answered_fail (hb : Books v) (hr : Recorded v) (htally : Tallied v) (hv : Answered v)
    {j : Nat} {u : Work} (hu : v.work j = some u) (hlog : v'.log = v.log ++ [.failed j])
    (hrem : v'.remaining = v.remaining) (hnext : v'.nextId = v.nextId)
    (hrequest : v'.request = v.request) : Answered v' := by
  have hcomp : ∀ r s, .completed r s ∈ v'.log ↔ .completed r s ∈ v.log := by
    simp [hlog]
  have hsub : ∀ t, .submitted t ∈ v'.log ↔ .submitted t ∈ v.log := by
    simp [hlog]
  have hof : ∀ r, completionsOf r v'.log = completionsOf r v.log := by
    intro r
    simp [hlog, completionsOf]
  have hopen : 0 < v.remaining u.time.requestId := by
    rw [htally]
    have hmem : j ∈ v.worksOf u.time.requestId := (mem_worksOf hb.numbered).mpr ⟨u, hu, rfl⟩
    have hpos := Finset.card_pos.mpr ⟨j, hmem⟩
    omega
  obtain ⟨hclosed, hcurrent, hdue, honce, htruthful⟩ := hv
  refine ⟨?_, ?_, ?_, ?_, ?_⟩
  · simpa only [hcomp, hrem, hnext, hrequest]
  · simpa only [hsub, hrem, hrequest]
  · simpa only [hsub, hcomp, hrem]
  · simpa only [hof]
  -- truthful
  · intro r s hs
    rw [hcomp] at hs
    rw [htruthful r s hs]
    simp only [hsub]
    refine forall₃_congr ?_
    intro t ht hreq
    rw [hlog, List.mem_append, List.mem_singleton, Event.failed.injEq, not_or, and_iff_left]
    rintro rfl
    -- the request of a work that is there is not over
    rw [← hr.same t u ht hu] at hreq
    rw [hreq, (hclosed r s hs).1] at hopen
    exact lt_irrefl _ hopen

/-- A work is finished. -/
theorem answered_finish (hg : Grouped v) (hg' : Gated v) (htally : Tallied v) (hv : Answered v)
    {u : Work} {rest : List Work} (hu : v.unfinished = u :: rest) (hidle : v.request.requestId = 0)
    (hlog : v'.log = if v.remaining u.time.requestId - 1 = 0 then
        v.log ++ [.completed u.time.requestId (v.succeeded u.time.requestId && !u.failed)]
      else v.log)
    (hrem : v'.remaining = update v.remaining u.time.requestId
      (v.remaining u.time.requestId - 1)) (hnext : v'.nextId = v.nextId)
    (hrequest : v'.request = v.request) (hr : Recorded v) : Answered v' := by
  obtain ⟨husub, hufail⟩ := hg'.unfinished u (hu ▸ List.mem_cons_self)
  have hupos : 0 < v.remaining u.time.requestId := by
    rw [htally]
    have hmem : u ∈ v.unfinishedOf u.time.requestId := by
      simp [unfinishedOf, hu]
    have hpos := List.length_pos_of_mem hmem
    omega
  have hlt : u.time.requestId < v.nextId := lt_of_le_of_lt (hg.bound _ husub).2 (hr.ids _ husub).2
  have hreqpos := (hg.bound _ husub).1
  have hsub : ∀ t, .submitted t ∈ v'.log ↔ .submitted t ∈ v.log := by
    intro t
    rw [hlog]
    split <;> simp
  have hfail : ∀ id, .failed id ∈ v'.log ↔ .failed id ∈ v.log := by
    intro id
    rw [hlog]
    split <;> simp
  -- the value the callback gets
  have hvalue : (v.succeeded u.time.requestId && !u.failed) = true ↔
      ∀ t, .submitted t ∈ v.log → t.requestId = u.time.requestId → .failed t.id ∉ v.log := by
    rw [← hg'.healthy, Bool.and_eq_true, and_iff_left_iff_imp]
    intro hok
    by_contra hbad
    exact (hg'.healthy _).mp hok u.time husub rfl (hufail (by simpa using hbad))
  have hcomp : ∀ r s, .completed r s ∈ v'.log ↔ .completed r s ∈ v.log ∨
      v.remaining u.time.requestId - 1 = 0 ∧ r = u.time.requestId ∧
        s = (v.succeeded u.time.requestId && !u.failed) := by
    intro r s
    rw [hlog]
    split <;> simp_all
  have hnone : ∀ s, .completed u.time.requestId s ∉ v.log := by
    intro s hs
    have hzero := (hv.closed _ s hs).1
    omega
  obtain ⟨hclosed, hcurrent, hdue, honce, htruthful⟩ := hv
  refine ⟨?_, ?_, ?_, ?_, ?_⟩
  -- closed: a request closes with its last work
  · intro r s hs
    rw [hrem, hnext, hrequest]
    rcases (hcomp r s).mp hs with hs | ⟨hzero, rfl, -⟩
    · have hne : r ≠ u.time.requestId := fun heq => hnone s (heq ▸ hs)
      rw [update_of_ne hne]
      exact hclosed r s hs
    · rw [update_self]
      exact ⟨hzero, hreqpos, hlt, by omega⟩
  · intro t ht hreq
    rw [hsub] at ht
    rw [hrequest, hidle] at hreq
    have hpos := (hg.bound t ht).1
    omega
  -- due
  · intro t ht hzero
    rw [hsub] at ht
    rw [hrem] at hzero
    by_cases hreq : t.requestId = u.time.requestId
    · rw [hreq, update_self] at hzero
      exact ⟨_, (hcomp _ _).mpr (.inr ⟨hzero, hreq, rfl⟩)⟩
    · rw [update_of_ne hreq] at hzero
      obtain ⟨s, hs⟩ := hdue t ht hzero
      exact ⟨s, (hcomp _ _).mpr (.inl hs)⟩
  -- once: it was not completed before
  · intro r
    rw [hlog]
    split
    · by_cases hreq : r = u.time.requestId
      · have hnil : completionsOf r v.log = [] := by
          refine List.eq_nil_iff_forall_not_mem.mpr ?_
          intro s hs
          exact hnone s (hreq ▸ mem_completionsOf.mp hs)
        rw [completionsOf] at hnil
        rw [completionsOf, List.filterMap_append, hnil]
        simp [hreq]
      · have hold := honce r
        simpa [completionsOf, Ne.symm hreq] using hold
    · exact honce r
  · intro r s hs
    simp only [hsub, hfail]
    rcases (hcomp r s).mp hs with hs | ⟨-, rfl, rfl⟩
    · exact htruthful r s hs
    · exact hvalue

theorem answered_step (hb : Books v) (hr : Recorded v) (hg : Grouped v) (hg' : Gated v)
    (htally : Tallied v) (hv : Answered v) (h : Micro C v v') : Answered v' := by
  cases h with
  | openRequest s hs =>
      have hlt : ∀ t, .submitted t ∈ v.log → t.requestId < v.nextId := fun t ht =>
        lt_of_le_of_lt (hg.bound t ht).2 (hr.ids t ht).2
      obtain ⟨hclosed, hcurrent, hdue, honce, htruthful⟩ := hv
      refine ⟨?_, ?_, ?_, honce, htruthful⟩
      · intro r success hmem
        obtain ⟨h₁, h₂, h₃, -⟩ := hclosed r success hmem
        dsimp only
        rw [update_of_ne (ne_of_lt h₃)]
        exact ⟨h₁, h₂, h₃, by omega⟩
      · intro t ht hreq
        exact absurd (hlt t ht) (by dsimp only at hreq; omega)
      · intro t ht hzero
        dsimp only at hzero
        rw [update_of_ne (ne_of_lt (hlt t ht))] at hzero
        exact hdue t ht hzero
  | closeRequest s hs =>
      obtain ⟨hclosed, hcurrent, hdue, honce, htruthful⟩ := hv
      refine ⟨?_, ?_, hdue, honce, htruthful⟩
      · intro r success hmem
        obtain ⟨h₁, h₂, h₃, -⟩ := hclosed r success hmem
        exact ⟨h₁, h₂, h₃, by dsimp only; omega⟩
      · intro t ht hreq
        have hpos := (hg.bound t ht).1
        dsimp only at hreq
        omega
  | addData _ _ _ hreq | addSignal _ _ hreq =>
      exact answered_add hv hreq rfl rfl rfl rfl
  | fail j u hu hex hok => exact answered_fail hb hr htally hv hu rfl rfl rfl rfl
  | finish w rest hw hidle =>
      exact answered_finish hg hg' htally hv hw hidle rfl rfl rfl rfl hr
  | reserve | execute | refuse | ack | signal | observe | fence | quieted =>
      exact answered_frame hv [_] rfl (by simp) rfl rfl rfl
  | _ => exact answered_frame hv [] (List.append_nil _).symm (by simp) rfl rfl rfl

end View

namespace Submission

theorem requests_invariant : submissionMachine.Invariant fun σ =>
    σ.ledger.Gated ∧ σ.ledger.Tallied ∧ σ.ledger.Answered := by
  intro σ hreach
  refine (run_invariant
    (P := fun v => v.Fenced ∧ v.Grouped ∧ v.Gated ∧ v.Tallied ∧ v.Answered) ?_ ?_ σ hreach).2.2.2.2
  · intro c hc
    refine ⟨fenced_idle c, grouped_idle c, gated_idle c, ?_, ?_⟩
    · intro r
      simp [idle, ledger, view, View.worksOf, View.unfinishedOf]
    · constructor <;> simp [idle, ledger, view, completionsOf]
  · rintro v v' hb hr ⟨hf, hg, hg', ht, ha⟩ h
    exact ⟨View.fenced_step hb hr hf h, View.grouped_step hr hg h, View.gated_step hb hr hf hg hg' h,
      View.tallied_step hb hr hg hg' ht h, View.answered_step hb hr hg hg' ht ha h⟩

/-- No completion write of the queue pair is in flight, and nothing it has outstanding is
unacknowledged. -/
def Settled (σ : Submission) (key : QpKey) : Prop :=
  (σ.qps key).completions = [] ∧
    ∀ id ∈ (σ.qps key).outstanding, ∃ w, σ.work id = some w ∧ w.acked = true

/-- No tail is lost. A settled queue pair is empty. A request is answered at most once,
after all its works are acknowledged and with the conjunction of their success; and it is
answered when they are and their queue pairs are settled. -/
structure Completes (σ : Submission) : Prop where
  drained : ∀ key, σ.Settled key → (σ.qps key).outstanding = [] ∧ (σ.qps key).occupied = 0
  once : ∀ r, (completionsOf r σ.log).length ≤ 1
  truthful : ∀ r success, .completed r success ∈ σ.log →
    (∀ t, .submitted t ∈ σ.log → t.requestId = r → .acked t.id ∈ σ.log) ∧
      (success = true ↔ ∀ t, .submitted t ∈ σ.log → t.requestId = r → .failed t.id ∉ σ.log)
  answered : ∀ t, .submitted t ∈ σ.log →
    (∀ t', .submitted t' ∈ σ.log → t'.requestId = t.requestId →
      .acked t'.id ∈ σ.log ∧ σ.Settled (t'.peer, t'.qp)) →
    ∃ success, completionsOf t.requestId σ.log = [success]

theorem drained_of_settled {σ : Submission} {key : QpKey} (hb : σ.ledger.Books)
    (hv : σ.ledger.InOrder) (hset : σ.Settled key) :
    (σ.qps key).outstanding = [] ∧ (σ.qps key).occupied = 0 := by
  obtain ⟨hcomp, hacked⟩ := hset
  have hempty : (σ.qps key).outstanding = [] := by
    refine hv.prompt key (by exact nofun) hcomp ?_
    intro id hid
    obtain ⟨w, hw, hyes⟩ := hacked id hid
    exact (acked_view σ {} hw).trans hyes
  refine ⟨hempty, ?_⟩
  have hlen := View.occupied_eq_length hb hv.ordered hv.sited hcomp
  change (σ.qps key).occupied = (σ.qps key).outstanding.length at hlen
  rw [hlen, hempty]
  rfl

/-- **CQ moderation loses no tail**, in every run whose staging copies end in turn. -/
theorem completes_of_copiesInTurn {σ : Submission}
    (hreach : (submissionMachine.restrict CopiesInTurn).Reachable σ) : σ.Completes := by
  obtain ⟨hb, hr, hv⟩ := inOrder_invariant σ hreach
  obtain ⟨-, htally, hanswer⟩ := requests_invariant σ hreach.of_restrict
  have hover : ∀ r, σ.ledger.remaining r = 0 → ∀ t, .submitted t ∈ σ.log → t.requestId = r →
      σ.ledger.work t.id = none := by
    intro r hzero t ht hreq
    by_contra hlive
    obtain ⟨w, hw⟩ := Option.ne_none_iff_exists'.mp hlive
    have hmem : t.id ∈ σ.ledger.worksOf r := by
      refine (View.mem_worksOf hb.numbered).mpr ⟨w, hw, ?_⟩
      rw [hr.same t w ht hw, hreq]
    have hpos := Finset.card_pos.mpr ⟨_, hmem⟩
    have hcount := htally r
    omega
  refine ⟨fun key hset => drained_of_settled hb hv hset, hanswer.once, ?_, ?_⟩
  · intro r success hs
    refine ⟨?_, hanswer.truthful r success hs⟩
    intro t ht hreq
    exact hr.gone t ht (hover r (hanswer.closed r success hs).1 t ht hreq)
  · intro t ht hall
    have hzero : σ.ledger.remaining t.requestId = 0 := by
      rw [htally, Nat.add_eq_zero_iff]
      refine ⟨Finset.card_eq_zero.mpr (Finset.eq_empty_of_forall_notMem ?_), rfl⟩
      intro id hid
      obtain ⟨w, hw, hreq⟩ := (View.mem_worksOf hb.numbered).mp hid
      obtain ⟨hacked, hset⟩ := hall w.time (hr.live id w hw) hreq
      rw [(hb.numbered.works id w hw).1] at hacked
      -- an acknowledged work holds a slot, and a settled queue pair has none
      have hslot := hb.flagged.reserved_of_acked hw ((hr.acked id w hw).mpr hacked)
      rcases hv.sited.held id w hw hslot with h | h
      · replace h : id ∈ (σ.qps (w.time.peer, w.time.qp)).outstanding := h
        rw [(drained_of_settled hb hv hset).1] at h
        cases h
      · obtain ⟨e, he, -⟩ := List.mem_flatMap.mp h
        replace he : e ∈ (σ.qps (w.time.peer, w.time.qp)).completions := he
        rw [hset.1] at he
        cases he
    obtain ⟨success, hs⟩ := hanswer.due t ht hzero
    refine ⟨success, ?_⟩
    have hmem := mem_completionsOf.mpr hs
    have hone := hanswer.once t.requestId
    obtain ⟨a, ha⟩ := List.length_eq_one_iff.mp (le_antisymm hone (List.length_pos_of_mem hmem))
    change completionsOf t.requestId σ.log = [a] at ha
    change success ∈ completionsOf t.requestId σ.log at hmem
    rw [ha, List.mem_singleton] at hmem
    rw [ha, hmem]

/-- The two writes of `overtakenRun` with their copies in turn. The first one fails. -/
def inTurnRun : List Act :=
  [.submit .write 1 512 none, .submit .write 1 4 none, .copied 0, .copied 0, .publish (1, 0),
    .fetchPublished 0, .fetched 0, .publish (1, 0), .fetchPublished 0, .fetched 0,
    .notifyOperationComplete 2 true, .notifyOperationComplete 1 false, .completionWritten (1, 0) 0]

/-- Both requests have been answered, each with its own success. -/
theorem completes_of_copiesInTurn_inTurnRun :
    ∃ σ, (submissionMachine.restrict CopiesInTurn).Reachable σ ∧ .completed 1 false ∈ σ.log ∧
      .completed 2 true ∈ σ.log ∧ σ.Completes := by
  have hrun : ((submissionMachine.restrict CopiesInTurn).runs (idle stagedConfig) inTurnRun).map
      (fun σ => decide (.completed 1 false ∈ σ.log ∧ .completed 2 true ∈ σ.log)) = some true := by
    decide +kernel
  have hinit : (submissionMachine.restrict CopiesInTurn).init (idle stagedConfig) :=
    ⟨_, by decide, rfl⟩
  obtain ⟨σ, hreach, hσ⟩ := Machine.Reachable.exists_of_runs hinit hrun
  obtain ⟨h₁, h₂⟩ := of_decide_eq_true hσ
  exact ⟨σ, hreach, h₁, h₂, completes_of_copiesInTurn hreach⟩

/-- The overtaken copy again: the queue pair is settled, and a slot is still taken. -/
theorem tailLost_overtakenRun : ¬ ∀ σ, submissionMachine.Reachable σ → σ.Completes := by
  intro hall
  have hrun : (submissionMachine.runs (idle stagedConfig) overtakenRun).map
      (fun σ => decide ((σ.qps (1, 0)).outstanding = [] ∧ (σ.qps (1, 0)).completions = [] ∧
        (σ.qps (1, 0)).occupied = 1)) = some true := by
    decide +kernel
  have hinit : submissionMachine.init (idle stagedConfig) := ⟨_, by decide, rfl⟩
  obtain ⟨σ, hreach, hσ⟩ := Machine.Reachable.exists_of_runs hinit hrun
  obtain ⟨hout, hcomp, hocc⟩ := of_decide_eq_true hσ
  have hzero := ((hall σ hreach).drained (1, 0) ⟨hcomp, by simp [hout]⟩).2
  omega

end Submission

end ProtoBridge.Rdma
