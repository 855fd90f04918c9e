import ProtoBridge.Rdma.Record

/-!
# Fences

A call of `Fence` splits the works of a peer into those submitted before and those
submitted after. The fence level is taken when a work is submitted and looked at again
each time its queue is pumped; the theorem is that this keeps the two groups apart on
every queue pair, whatever the order of acknowledgements.
-/

namespace ProtoBridge.Rdma

open Lib Relation

/-- The event is one of a work that leaves its waiting queue, or has left it. -/
def Event.Leaves : Event → Nat → Prop
  | .reserved _ id, j => id = j
  | .executed id _, j => id = j
  | _, _ => False

/-- A work that leaves finds everything acknowledged that was submitted to its peer before
a fence it comes after. -/
def FenceRule (pre : List Event) (e : Event) : Prop :=
  ∀ peer t t', e.Leaves t.id → t.peer = peer → t'.peer = peer →
    Between pre (.submitted t') (.fenced peer) (.submitted t) → .acked t'.id ∈ pre

namespace View

variable {C : View → Nat → Prop} {v v' : View} {id : Nat} {w w' : Work} {key : QpKey}

/-- What the levels of the fences stand for. -/
structure Fenced (v : View) : Prop where
  level : ∀ peer t, Before v.log (.submitted t) (.fenced peer) → t.id ≤ v.fences peer
  behind : ∀ peer t t', Between v.log (.submitted t') (.fenced peer) (.submitted t) →
    t.peer = peer → ∀ w, v.work t.id = some w → t'.id ≤ w.fenceThrough
  passed : ∀ id w, v.work id = some w → w.reserved = true →
    ∀ t, .submitted t ∈ v.log → t.peer = w.time.peer → t.id ≤ w.fenceThrough → .acked t.id ∈ v.log
  rule : Justified FenceRule v.log

theorem acked_of_unblocked (hr : Recorded v) (hfence : v.blockedByFence w = false)
    {t : WorkTiming} (ht : .submitted t ∈ v.log) (hpeer : t.peer = w.time.peer)
    (hle : t.id ≤ w.fenceThrough) : .acked t.id ∈ v.log := by
  cases hw : v.work t.id with
  | none => exact hr.gone t ht hw
  | some u =>
      have hsame := hr.same t u ht hw
      have hfree := List.any_eq_false.mp hfence t.id (List.mem_range.mpr (by omega))
      simp only [hw, hsame, hpeer, beq_self_eq_true, Bool.true_and, Bool.not_eq_true,
        Bool.not_eq_false'] at hfree
      exact (hr.acked _ u hw).mp hfree

theorem fenceRule_of_passed (hr : Recorded v) (hv : Fenced v) (hw : v.work id = some w)
    (hpassed : ∀ t, .submitted t ∈ v.log → t.peer = w.time.peer → t.id ≤ w.fenceThrough →
      .acked t.id ∈ v.log) {e : Event} (he : ∀ j, e.Leaves j → j = id) : FenceRule v.log e := by
  intro peer t t' hleaves hpeer hpeer' hbetween
  obtain rfl := he _ hleaves
  have hbehind := hv.behind peer t t' hbetween hpeer w hw
  obtain ⟨pre, post, hlog, ht', ht⟩ := hbetween
  have hsame : w.time = t := by
    refine hr.same t w ?_ hw
    rw [hlog]
    exact List.mem_append_right _ (List.mem_cons_of_mem _ ht)
  refine hpassed t' ?_ ?_ hbehind
  · rw [hlog]
    exact List.mem_append_left _ ht'
  · rw [hsame, hpeer, hpeer']

/-- A step with an event that neither submits nor fences. The works keep their fences, and
those that newly have a slot have passed theirs. -/
theorem fenced_frame (hv : Fenced v) (es : List Event) (hes : es = [] ∨ ∃ e, es = [e])
    (hlog : v'.log = v.log ++ es) (hfences : v'.fences = v.fences)
    (hquiet : ∀ e ∈ es, (∀ t, e ≠ .submitted t) ∧ (∀ peer, e ≠ .fenced peer) ∧ FenceRule v.log e)
    (hwork : ∀ id w', v'.work id = some w' → ∃ w, v.work id = some w ∧ Grows w w' ∧
      (w'.reserved = true → w.reserved = true ∨ v.blockedByFence w = false))
    (hr : Recorded v) : Fenced v' := by
  have hsub : ∀ t, .submitted t ∈ v'.log ↔ .submitted t ∈ v.log := by
    intro t
    rw [hlog, List.mem_append, or_iff_left]
    exact fun h => (hquiet _ h).1 t rfl
  have hbefore : ∀ t peer, Before v'.log (.submitted t) (.fenced peer) →
      Before v.log (.submitted t) (.fenced peer) := by
    intro t peer h
    rcases hes with rfl | ⟨e, rfl⟩
    · rwa [hlog, List.append_nil] at h
    · rw [hlog, before_snoc] at h
      rcases h with h | ⟨rfl, -⟩
      · exact h
      · exact absurd rfl ((hquiet _ List.mem_cons_self).2.1 peer)
  have hbetween : ∀ t t' peer, Between v'.log (.submitted t') (.fenced peer) (.submitted t) →
      Between v.log (.submitted t') (.fenced peer) (.submitted t) := by
    intro t t' peer h
    rcases hes with rfl | ⟨e, rfl⟩
    · rwa [hlog, List.append_nil] at h
    · rw [hlog, between_snoc] at h
      rcases h with h | ⟨rfl, -⟩
      · exact h
      · exact absurd rfl ((hquiet _ List.mem_cons_self).1 t)
  have hacked : ∀ id, .acked id ∈ v.log → .acked id ∈ v'.log := by
    intro id h
    rw [hlog]
    exact List.mem_append_left _ h
  refine ⟨?_, ?_, ?_, ?_⟩
  · intro peer t h
    rw [hfences]
    exact hv.level peer t (hbefore t peer h)
  · intro peer t t' h hpeer w' hw'
    obtain ⟨w, hw, hgrow, -⟩ := hwork _ w' hw'
    rw [hgrow.fenceThrough]
    exact hv.behind peer t t' (hbetween t t' peer h) hpeer w hw
  -- passed: a work with a new slot is not held by a fence
  · intro id w' hw' hres t ht hpeer hle
    obtain ⟨w, hw, hgrow, hslot⟩ := hwork id w' hw'
    rw [hgrow.time] at hpeer
    rw [hgrow.fenceThrough] at hle
    refine hacked _ ?_
    rcases hslot hres with hold | hfree
    · exact hv.passed id w hw hold t ((hsub t).mp ht) hpeer hle
    · exact acked_of_unblocked hr hfree ((hsub t).mp ht) hpeer hle
  · rcases hes with rfl | ⟨e, rfl⟩
    · rw [hlog, List.append_nil]
      exact hv.rule
    · rw [hlog]
      exact hv.rule.snoc (hquiet e List.mem_cons_self).2.2

/-- The work just submitted waits for everything a fence of its peer has in front of it. -/
theorem fenced_add (hr : Recorded v) (hv : Fenced v) {w₀ : Work} (hid : w₀.time.id = v.nextId)
    (hres : w₀.reserved = false) (hlog : v'.log = v.log ++ [.submitted w₀.time])
    (hfences : v'.fences = v.fences) (hw : v'.work = Function.update v.work v.nextId (some w₀))
    (hfence : ∀ t, Before v.log (.submitted t) (.fenced w₀.time.peer) → t.id ≤ w₀.fenceThrough)
    (hn : Numbered v) : Fenced v' := by
  refine ⟨?_, ?_, ?_, ?_⟩
  · intro peer t h
    rw [hlog, before_snoc] at h
    rw [hfences]
    rcases h with h | ⟨heq, -⟩
    · exact hv.level peer t h
    · cases heq
  -- behind: the new work waits for all its fences name
  · intro peer t t' h hpeer w hwt
    rw [hlog, between_snoc] at h
    rcases h with h | ⟨heq, hbefore⟩
    · have hlt : t.id < v.nextId := by
        obtain ⟨pre, post, hpre, -, ht⟩ := h
        refine (hr.ids t ?_).2
        rw [hpre]
        exact List.mem_append_right _ (List.mem_cons_of_mem _ ht)
      rw [hw, Function.update_of_ne (ne_of_lt hlt)] at hwt
      exact hv.behind peer t t' h hpeer w hwt
    · cases heq
      rw [hw, hid, Function.update_self] at hwt
      cases hwt
      subst hpeer
      exact hfence t' hbefore
  -- passed: the new work has no slot
  · intro id w hwi hslot t ht hpeer hle
    rw [hlog] at ht ⊢
    rw [hw] at hwi
    refine List.mem_append_left _ ?_
    rcases update_eq hwi with ⟨rfl, ⟨⟩⟩ | ⟨-, hwi⟩
    · rw [hres] at hslot
      cases hslot
    · rcases List.mem_append.mp ht with ht | ht
      · exact hv.passed id w hwi hslot t ht hpeer hle
      · -- the new work comes after everything an older one waits for
        obtain ⟨-, -, hlt, hback⟩ := hn.works id w hwi
        cases List.mem_singleton.mp ht
        omega
  · rw [hlog]
    refine hv.rule.snoc ?_
    intro peer t t' hleaves
    exact hleaves.elim

theorem fenced_step (hb : Books v) (hr : Recorded v) (hv : Fenced v) (h : Micro C v v') :
    Fenced v' := by
  have hn := hb.numbered
  have hf := hb.flagged
  -- works after one of them had a flag set
  have hset : ∀ {j : Nat} {u u' : Work}, v.work j = some u → Grows u u' →
      (u'.reserved = true → u.reserved = true ∨ v.blockedByFence u = false) →
      ∀ id w', Function.update v.work j (some u') id = some w' →
        ∃ w, v.work id = some w ∧ Grows w w' ∧
          (w'.reserved = true → w.reserved = true ∨ v.blockedByFence w = false) := by
    intro j u u' hu hgrow hslot
    refine forall_update (fun id w hw => ⟨w, hw, .refl w, .inl⟩) ?_
    exact ⟨u, hu, hgrow, hslot⟩
  have hkeep : ∀ id w', v.work id = some w' → ∃ w, v.work id = some w ∧ Grows w w' ∧
      (w'.reserved = true → w.reserved = true ∨ v.blockedByFence w = false) :=
    fun id w hw => ⟨w, hw, .refl w, .inl⟩
  -- events that are no business of fences
  have hrule : ∀ {e : Event}, (∀ j, ¬ e.Leaves j) → FenceRule v.log e :=
    fun hno peer t t' hleaves => absurd hleaves (hno _)
  have hother : ∀ {e : Event}, (∀ t, e ≠ .submitted t) → (∀ peer, e ≠ .fenced peer) →
      (∀ j, ¬ e.Leaves j) → ∀ e' ∈ [e], (∀ t, e' ≠ .submitted t) ∧ (∀ peer, e' ≠ .fenced peer) ∧
        FenceRule v.log e' := by
    intro e hsub hfen hno e' he
    obtain rfl := List.mem_singleton.mp he
    exact ⟨hsub, hfen, hrule hno⟩
  cases h with
  | addData w₀ raw hid hreq hpeer hflags hopen hop hraw hfence =>
      refine fenced_add hr hv hid hflags.2.2.1 rfl rfl rfl ?_ hn
      intro t hbefore
      rw [hfence]
      exact le_max_of_le_left (hv.level _ t hbefore)
  | addSignal w₀ hid hreq hpeer hflags hopen hop hfence =>
      refine fenced_add hr hv hid hflags.2.2.1 rfl rfl rfl ?_ hn
      rintro t ⟨pre, post, hlog, ht⟩
      have hlt := (hr.ids t (hlog ▸ List.mem_append_left _ ht)).2
      omega
  | reserve key j rest u hid hu hslot hcredit hfence =>
      refine fenced_frame hv [_] (.inr ⟨_, rfl⟩) rfl rfl ?_
        (hset hu ⟨rfl, rfl, fun _ => rfl, fun h => h⟩ fun _ => .inr hfence) hr
      intro e he
      obtain rfl := List.mem_singleton.mp he
      refine ⟨by simp, by simp, ?_⟩
      exact fenceRule_of_passed hr hv hu (fun t => acked_of_unblocked hr hfence)
        fun i hi => Eq.symm hi
  | execute _ j _ u hid hu | refuse _ j _ u hid hu =>
      have hslot := (hf.head hid hu).2.1
      refine fenced_frame hv [_] (.inr ⟨_, rfl⟩) rfl rfl ?_
        (hset hu ⟨rfl, rfl, fun h => h, fun h => h⟩ .inl) hr
      intro e he
      obtain rfl := List.mem_singleton.mp he
      refine ⟨by simp, by simp, ?_⟩
      exact fenceRule_of_passed hr hv hu (hv.passed j u hu hslot) fun i hi => Eq.symm hi
  | fail j u hu hex hok =>
      exact fenced_frame hv [_] (.inr ⟨_, rfl⟩) rfl rfl
        (hother (by simp) (by simp) fun _ h => h)
        (hset hu ⟨rfl, rfl, fun h => h, fun h => h⟩ .inl) hr
  | ack j u hu hex hok hdue hr' =>
      exact fenced_frame hv [_] (.inr ⟨_, rfl⟩) rfl rfl
        (hother (by simp) (by simp) fun _ h => h)
        (hset hu ⟨rfl, rfl, fun h => h, fun _ => rfl⟩ .inl) hr
  | signal | quieted =>
      exact fenced_frame hv [_] (.inr ⟨_, rfl⟩) rfl rfl
        (hother (by simp) (by simp) fun _ h => h) hkeep hr
  | observe key i through ids hdue hdone hi =>
      refine fenced_frame hv [_] (.inr ⟨_, rfl⟩) rfl rfl
        (hother (by simp) (by simp) fun _ h => h) ?_ hr
      intro id w' hw'
      simp only [View.record, View.setQp] at hw'
      split at hw'
      · cases hw'
      · exact hkeep id w' hw'
  | finish w rest hw =>
      by_cases hlast : v.remaining w.time.requestId - 1 = 0
      · exact fenced_frame hv [_] (.inr ⟨_, rfl⟩) (if_pos hlast) rfl
          (hother (by simp) (by simp) fun _ h => h) hkeep hr
      · refine fenced_frame hv [] (.inl rfl) ?_ rfl (by simp) hkeep hr
        simp [hlast]
  | fence peer =>
      obtain ⟨hlevel, hbehind, hpassed, hfollow⟩ := hv
      refine ⟨?_, ?_, ?_, hfollow.snoc (hrule fun _ h => h)⟩
      · intro peer' t h
        simp only [View.record] at h ⊢
        rw [before_snoc] at h
        have hpos := hn.pos
        rcases h with h | ⟨heq, ht⟩
        · have hlt := hn.fences peer'
          have hle := hlevel peer' t h
          rw [Function.update_apply]
          split <;> omega
        · cases heq
          have hlt := (hr.ids t ht).2
          rw [Function.update_self]
          omega
      · intro peer' t t' h
        simp only [View.record] at h
        rw [between_snoc] at h
        rcases h with h | ⟨heq, -⟩
        · exact hbehind peer' t t' h
        · cases heq
      · intro id w hw hslot t ht hpeer hle
        simp only [View.record, List.mem_append, List.mem_singleton, reduceCtorEq, or_false] at ht ⊢
        exact hpassed id w hw hslot t ht hpeer hle
  | _ =>
      exact fenced_frame hv [] (.inl rfl) (List.append_nil _).symm rfl (by simp) hkeep hr

end View

namespace Submission

theorem fenced_idle (c : Config) : (idle c).ledger.Fenced := by
  refine ⟨?_, ?_, ?_, Justified.nil⟩
  · rintro peer t ⟨pre, post, hlog, -⟩
    simp [idle, ledger, view] at hlog
  · rintro peer t t' ⟨pre, post, hlog, -⟩
    simp [idle, ledger, view] at hlog
  · intro id w hw
    simp [idle, ledger, view] at hw

theorem fenced_invariant :
    submissionMachine.Invariant fun σ => σ.ledger.Books ∧ σ.ledger.Recorded ∧ σ.ledger.Fenced :=
  run_invariant (fun c _ => fenced_idle c) fun _ _ hb hr hv h => View.fenced_step hb hr hv h

/-- The descriptors of a queue pair that are published or on their way to the NIC. -/
def Published (σ : Submission) (key : QpKey) (id : Nat) : Prop :=
  id ∈ (σ.qps key).publishing ++ (σ.qps key).published ++ (σ.qps key).fetching ++
    (σ.qps key).pcieFetched

/-- **Fence ordering.** Wherever a work leaves its waiting queue or executes after a fence
that it was submitted behind, all works submitted to that peer before the fence are
acknowledged by then; the same goes for every work found published. The unacknowledged
work of a peer with the smallest number is never blocked. -/
theorem fence_orders {σ : Submission} (hreach : submissionMachine.Reachable σ) :
    Justified FenceRule σ.log ∧
      (∀ peer t t' key, Between σ.log (.submitted t') (.fenced peer) (.submitted t) →
        t.peer = peer → t'.peer = peer → σ.Published key t.id → .acked t'.id ∈ σ.log) ∧
      ∀ peer id w, σ.work id = some w → w.time.peer = peer →
        (∀ id' w', σ.work id' = some w' → w'.time.peer = peer → w'.acked = false → id ≤ id') →
        σ.blockedByFence w = false := by
  obtain ⟨hb, hr, hv⟩ := fenced_invariant σ hreach
  refine ⟨hv.rule, ?_, ?_⟩
  · intro peer t t' key hbetween hpeer hpeer' hpub
    -- what is published stands in the line, or in the list the model in use keeps empty
    have hline : t.id ∈ (σ.ledger.qps key).line := by
      have hstray := hb.numbered.stray key
      simp only [ledger, view, Function.comp_apply, Qp.ledger] at hstray ⊢
      simp only [Published, List.mem_append] at hpub
      split at hstray <;> rename_i hmodel <;> simp only [hmodel, if_true, if_false] <;>
        simp only [hstray, List.not_mem_nil, or_false] at hpub <;>
        simp only [List.mem_append] <;> tauto
    obtain ⟨w, hw, -, hslot, -⟩ := hb.flagged.line key _ hline
    have hle := hv.behind peer t t' hbetween hpeer w hw
    obtain ⟨pre, post, hlog, ht', ht⟩ := hbetween
    have hlog' : σ.ledger.log = pre ++ .fenced peer :: post := hlog
    have hsame : w.time = t := by
      refine hr.same t w ?_ hw
      rw [hlog']
      exact List.mem_append_right _ (List.mem_cons_of_mem _ ht)
    refine hv.passed _ w hw hslot t' ?_ ?_ hle
    · rw [hlog']
      exact List.mem_append_left _ ht'
    · rw [hsame, hpeer, hpeer']
  · intro peer id w hw hpeer hleast
    have hback := (hb.numbered.works id w.core (view_work_eq hw)).2.2.2
    refine List.any_eq_false.mpr ?_
    intro j hj
    have hlt : j < id := lt_of_le_of_lt (Nat.lt_succ_iff.mp (List.mem_range.mp hj)) hback
    cases hwj : σ.work j with
    | none => simp
    | some u =>
        simp only [Bool.and_eq_true, beq_iff_eq, Bool.not_eq_true', not_and, Bool.not_eq_false]
        intro hsame
        by_contra hno
        have hle := hleast j u hwj (hsame.trans hpeer) (by simpa using hno)
        omega

/-- Two writes to one peer with a fence between them. -/
def fencedRun : List Act :=
  [.submit .write 1 64 none, .fence 1, .submit .write 1 64 none, .publish (1, 0), .execute (1, 0),
    .notifyOperationComplete 1 true, .publish (1, 0), .execute (1, 0)]

/-- The second write got its slot after the first was acknowledged. -/
theorem fence_orders_fencedRun :
    ∃ σ pre post, submissionMachine.Reachable σ ∧ σ.log = pre ++ .reserved (1, 0) 2 :: post ∧
      .acked 1 ∈ pre := by
  let t (id : Nat) : WorkTiming := { id, requestId := id, bytes := 64, peer := 1 }
  let log : List Event :=
    [.submitted (t 1), .reserved (1, 0) 1, .fenced 1, .submitted (t 2), .executed 1 true, .acked 1,
      .signalled (1, 0) 1 [1], .reserved (1, 0) 2, .executed 2 true]
  have hrun : (submissionMachine.runs (idle {}) fencedRun).map (fun σ => σ.log) = some log := by
    decide +kernel
  have hinit : submissionMachine.init (idle {}) := ⟨{}, by decide, rfl⟩
  obtain ⟨σ, hreach, hlog⟩ := Machine.Reachable.exists_of_runs hinit hrun
  have hrule := (fence_orders hreach).1 (log.take 7) (.reserved (1, 0) 2) [.executed 2 true] hlog
  refine ⟨σ, log.take 7, [.executed 2 true], hreach, hlog, ?_⟩
  exact hrule 1 (t 2) (t 1) rfl rfl rfl
    ⟨[.submitted (t 1), .reserved (1, 0) 1], _, rfl, by decide, by decide⟩

end Submission

end ProtoBridge.Rdma
