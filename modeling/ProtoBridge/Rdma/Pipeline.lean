import ProtoBridge.Rdma.Accounting

/-!
# From the send queue to execution

A work that got a slot is published, its doorbell is rung and its descriptor is fetched
before it is executed. Whatever the works of other queue pairs do meanwhile, the line of
a queue pair is first in, first out: the works that got a slot are those that were
executed, followed by those in the line, in the same order.
-/

namespace ProtoBridge.Rdma

open Lib Relation

/-- The works that reached `ExecuteWork`, in order. -/
def executedIds (log : List Event) : List Nat :=
  log.filterMap fun
    | .executed id _ => some id
    | _ => none

/-- Those of a queue pair. -/
def executedOn (key : QpKey) (log : List Event) : List Nat :=
  (executedIds log).filter fun id => id ∈ reservedIds key log

theorem reservedIds_snoc (key : QpKey) (log : List Event) (e : Event) :
    reservedIds key (log ++ [e]) = reservedIds key log ++ reservedIds key [e] :=
  List.filterMap_append

theorem executedIds_snoc (log : List Event) (e : Event) :
    executedIds (log ++ [e]) = executedIds log ++ executedIds [e] :=
  List.filterMap_append

/-- The event moves nothing along a line. -/
def Event.Still (e : Event) : Prop :=
  (∀ key, reservedIds key [e] = []) ∧ executedIds [e] = []

theorem reservedIds_append_still {key : QpKey} {log es : List Event} (hes : ∀ e ∈ es, e.Still) :
    reservedIds key (log ++ es) = reservedIds key log := by
  induction es generalizing log with
  | nil => rw [List.append_nil]
  | cons e es ih =>
      rw [List.append_cons, ih fun e' he' => hes e' (List.mem_cons_of_mem _ he'), reservedIds_snoc,
        (hes e List.mem_cons_self).1, List.append_nil]

theorem executedIds_append_still {log es : List Event} (hes : ∀ e ∈ es, e.Still) :
    executedIds (log ++ es) = executedIds log := by
  induction es generalizing log with
  | nil => rw [List.append_nil]
  | cons e es ih =>
      rw [List.append_cons, ih fun e' he' => hes e' (List.mem_cons_of_mem _ he'), executedIds_snoc,
        (hes e List.mem_cons_self).2, List.append_nil]

namespace View

variable {C : View → Nat → Prop} {v v' : View} {id : Nat} {w w' : Work} {key : QpKey}

/-- The lines agree with the history. -/
structure Piped (v : View) : Prop where
  origin : ∀ key id, id ∈ reservedIds key v.log →
    ∃ t, .submitted t ∈ v.log ∧ t.id = id ∧ (t.peer, t.qp) = key
  once : ∀ key, (reservedIds key v.log).Nodup
  source : ∀ id ∈ executedIds v.log, ∃ key, id ∈ reservedIds key v.log
  order : ∀ key, reservedIds key v.log = executedOn key v.log ++ (v.qps key).line

theorem Piped.key_eq (hr : Recorded v) (hv : Piped v) (hw : v.work id = some w)
    (hid : id ∈ reservedIds key v.log) : w.key = key := by
  obtain ⟨t, ht, rfl, rfl⟩ := hv.origin key id hid
  rw [Work.key, hr.same t w ht hw]

theorem piped_frame (hv : Piped v) (es : List Event) (hes : ∀ e ∈ es, e.Still)
    (hlog : v'.log = v.log ++ es) (hline : ∀ key, (v'.qps key).line = (v.qps key).line) :
    Piped v' := by
  have hres : ∀ key, reservedIds key v'.log = reservedIds key v.log := by
    intro key
    rw [hlog]
    exact reservedIds_append_still hes
  have hexe : executedIds v'.log = executedIds v.log := by
    rw [hlog]
    exact executedIds_append_still hes
  constructor
  · intro key id hid
    rw [hres] at hid
    obtain ⟨t, ht, hrest⟩ := hv.origin key id hid
    exact ⟨t, hlog ▸ List.mem_append_left _ ht, hrest⟩
  · intro key
    rw [hres]
    exact hv.once key
  · intro id hid
    rw [hexe] at hid
    obtain ⟨key, hkey⟩ := hv.source id hid
    exact ⟨key, hres key ▸ hkey⟩
  · intro key
    rw [executedOn, hres, hexe, hline]
    exact hv.order key

/-- A work takes its place at the end of a line. -/
theorem piped_reserve (hn : Numbered v) (hr : Recorded v) (hv : Piped v)
    (hu : v.work id = some w) (hkey : w.key = key) (hslot : w.reserved = false)
    (hlog : v'.log = v.log ++ [.reserved key id])
    (hline : (v'.qps key).line = (v.qps key).line ++ [id])
    (hother : ∀ k, k ≠ key → (v'.qps k).line = (v.qps k).line) : Piped v' := by
  have hfresh : ∀ k, id ∉ reservedIds k v.log := by
    intro k hk
    have heq := hv.key_eq hr hu hk
    have hyes := (hr.reserved id w hu).mpr (mem_reservedIds.mp (heq ▸ hk))
    rw [hslot] at hyes
    cases hyes
  have hres : ∀ k, reservedIds k v'.log = reservedIds k v.log ++ if k = key then [id] else [] := by
    intro k
    rw [hlog, reservedIds_snoc]
    congr 1
    by_cases hk : k = key
    · simp [reservedIds, hk]
    · simp [reservedIds, hk, Ne.symm hk]
  have hexe : executedIds v'.log = executedIds v.log := by
    rw [hlog, executedIds_snoc]
    exact List.append_nil _
  -- a work without a slot was not executed, so the new slot changes nothing about the past
  have hpast : ∀ k, executedOn k v'.log = executedOn k v.log := by
    intro k
    rw [executedOn, executedOn, hexe]
    apply List.filter_congr
    intro j hj
    have hne : j ≠ id := by
      rintro rfl
      obtain ⟨k', hk'⟩ := hv.source j hj
      exact hfresh k' hk'
    rw [hres]
    split <;> simp [hne]
  constructor
  · intro k j hj
    rw [hres, List.mem_append] at hj
    rcases hj with hj | hj
    · obtain ⟨t, ht, hrest⟩ := hv.origin k j hj
      exact ⟨t, hlog ▸ List.mem_append_left _ ht, hrest⟩
    · split at hj
      · rename_i hk
        rw [List.mem_singleton] at hj
        subst hj hk
        exact ⟨w.time, hlog ▸ List.mem_append_left _ (hr.live j w hu), (hn.works j w hu).1, hkey⟩
      · cases hj
  · intro k
    rw [hres]
    split
    · exact List.nodup_append.mpr ⟨hv.once k, List.nodup_singleton id, by
        intro a ha b hb heq
        rw [List.mem_singleton] at hb
        exact hfresh k (hb ▸ heq ▸ ha)⟩
    · rw [List.append_nil]
      exact hv.once k
  · intro j hj
    rw [hexe] at hj
    obtain ⟨k, hk⟩ := hv.source j hj
    exact ⟨k, by rw [hres]; exact List.mem_append_left _ hk⟩
  · intro k
    rw [hres, hpast, hv.order k, List.append_assoc]
    congr 1
    split
    · rename_i hk
      rw [hk, hline]
    · rename_i hk
      rw [hother k hk, List.append_nil]

/-- The first of a line is executed. -/
theorem piped_execute (hr : Recorded v) (hv : Piped v) {rest : List Nat} {launched : Bool}
    (hid : (v.qps key).line = id :: rest) (hu : v.work id = some w)
    (hlog : v'.log = v.log ++ [.executed id launched]) (hline : (v'.qps key).line = rest)
    (hother : ∀ k, k ≠ key → (v'.qps k).line = (v.qps k).line) : Piped v' := by
  have hres : ∀ k, reservedIds k v'.log = reservedIds k v.log := by
    intro k
    rw [hlog, reservedIds_snoc]
    exact List.append_nil _
  have hexe : executedIds v'.log = executedIds v.log ++ [id] := by
    rw [hlog, executedIds_snoc]
    rfl
  have hmem : id ∈ reservedIds key v.log := by
    rw [hv.order key, hid]
    exact List.mem_append_right _ List.mem_cons_self
  have honly : ∀ k, id ∈ reservedIds k v.log → k = key := by
    intro k hk
    exact (hv.key_eq hr hu hk).symm.trans (hv.key_eq hr hu hmem)
  constructor
  · intro k j hj
    rw [hres] at hj
    obtain ⟨t, ht, hrest⟩ := hv.origin k j hj
    exact ⟨t, hlog ▸ List.mem_append_left _ ht, hrest⟩
  · intro k
    rw [hres]
    exact hv.once k
  · intro j hj
    rw [hexe, List.mem_append, List.mem_singleton] at hj
    rcases hj with hj | rfl
    · obtain ⟨k, hk⟩ := hv.source j hj
      exact ⟨k, hres k ▸ hk⟩
    · exact ⟨key, hres key ▸ hmem⟩
  · intro k
    rw [executedOn, hres, hexe, List.filter_append]
    by_cases hk : k = key
    · subst hk
      rw [hline, List.filter_singleton, decide_eq_true hmem]
      show _ = _ ++ [id] ++ rest
      rw [List.append_assoc, List.singleton_append, ← hid]
      exact hv.order k
    · have hno : id ∉ reservedIds k v.log := fun h => hk (honly k h)
      rw [hother k hk, List.filter_singleton, decide_eq_false hno]
      show _ = _ ++ [] ++ _
      rw [List.append_nil]
      exact hv.order k

theorem piped_step (hb : Books v) (hr : Recorded v) (hv : Piped v) (h : Micro C v v') :
    Piped v' := by
  have hother : ∀ {k : QpKey} {q : Ledger}, ∀ j, j ≠ k →
      (Function.update v.qps k q j).line = (v.qps j).line := by
    intro k q j hj
    rw [Function.update_of_ne hj]
  cases h with
  | addData | addSignal | fail | ack | fence | quieted =>
      exact piped_frame hv [_] (by simp [Event.Still, reservedIds, executedIds]) rfl fun _ => rfl
  | start | copy =>
      exact piped_frame hv [] (by simp) (List.append_nil _).symm (update_same Ledger.line (by rfl))
  | reserve key j rest u hid hu hslot hcredit hfence =>
      obtain ⟨hkey, hfree⟩ := hb.placed.head hid hu
      refine piped_reserve hb.numbered hr hv hu hkey hfree rfl ?_ hother
      simp [View.record, View.setQp]
  | execute _ _ _ _ hid hu | refuse _ _ _ _ hid hu =>
      refine piped_execute hr hv hid hu rfl ?_ hother
      simp [View.record, View.setQp]
  | skip key j rest hid hu =>
      -- the works of a line are there
      obtain ⟨u, hu', -⟩ := hb.flagged.line key j (hid ▸ List.mem_cons_self)
      rw [hu] at hu'
      cases hu'
  | signal | observe =>
      exact piped_frame hv [_] (by simp [Event.Still, reservedIds, executedIds]) rfl
        (update_same Ledger.line (by rfl))
  | finish u rest hu hidle =>
      by_cases hlast : v.remaining u.time.requestId - 1 = 0
      · exact piped_frame hv [_] (by simp [Event.Still, reservedIds, executedIds]) (if_pos hlast)
          fun _ => rfl
      · refine piped_frame hv [] (by simp) ?_ fun _ => rfl
        rw [List.append_nil]
        exact if_neg hlast
  | _ => exact piped_frame hv [] (by simp) (List.append_nil _).symm fun _ => rfl

theorem Piped.executed_nodup (hv : Piped v) : (executedIds v.log).Nodup := by
  rw [List.nodup_iff_count_le_one]
  intro j
  by_cases hj : j ∈ executedIds v.log
  · obtain ⟨k, hk⟩ := hv.source j hj
    have hnodup : (executedOn k v.log).Nodup := (List.nodup_append.mp (hv.order k ▸ hv.once k)).1
    have hcount : (executedOn k v.log).count j = (executedIds v.log).count j :=
      List.count_filter (decide_eq_true hk)
    rw [← hcount]
    exact List.nodup_iff_count_le_one.mp hnodup j
  · rw [List.count_eq_zero_of_not_mem hj]
    exact Nat.zero_le 1

end View

namespace Submission

theorem piped_invariant : submissionMachine.Invariant fun σ =>
    σ.ledger.Books ∧ σ.ledger.Recorded ∧ σ.ledger.Piped := by
  refine run_invariant ?_ fun v v' hb hr hv h => View.piped_step hb hr hv h
  intro c _
  constructor <;> simp [idle, ledger, view, Qp.ledger, reservedIds, executedIds, executedOn]

end Submission

end ProtoBridge.Rdma
