import ProtoBridge.Rdma.Engine
import ProtoBridge.Rdma.Fence

/-!
# Put-signal

A put-signal request ends with a signal work of its own, fenced behind everything that
was submitted before it. Three facts make the guarantee: the works of a request are
submitted together and the signal last, the fence keeps the signal back until they are
acknowledged, and the flag of the request knows of every failure among them.
-/

namespace ProtoBridge.Rdma

open Lib Relation
open Function (update update_of_ne update_self)

/-- `t'` carries data of the request whose signal is `t`. -/
def WorkTiming.DataOf (t' t : WorkTiming) : Prop :=
  t'.requestId = t.requestId ∧ t'.opcode ≠ .signal

/-- Works are submitted in the order of their numbers. A signal executes after the data of
its request has been acknowledged; it is launched if none of the request has failed, and
refused if some has. -/
def SignalRule (pre : List Event) : Event → Prop
  | .submitted t => ∀ t', .submitted t' ∈ pre → t'.id < t.id
  | .executed id launched => ∃ t, .submitted t ∈ pre ∧ t.id = id ∧ (t.opcode = .signal →
      (∀ t', .submitted t' ∈ pre → t'.DataOf t → .acked t'.id ∈ pre) ∧
      (launched = true ↔
        ∀ t', .submitted t' ∈ pre → t'.requestId = t.requestId → .failed t'.id ∉ pre))
  | _ => True

theorem submitted_inj {log : List Event} (h : Justified SignalRule log) {t t' : WorkTiming}
    (ht : .submitted t ∈ log) (ht' : .submitted t' ∈ log) (hid : t.id = t'.id) : t = t' := by
  obtain ⟨pre, post, rfl⟩ := List.append_of_mem ht
  rcases List.mem_append.mp ht' with hpre | hrest
  · have hlt := h pre _ post rfl t' hpre
    omega
  rcases List.mem_cons.mp hrest with heq | hpost
  · cases heq
    rfl
  · obtain ⟨mid, tail, rfl⟩ := List.append_of_mem hpost
    have hlt := h (pre ++ .submitted t :: mid) (.submitted t') tail (by simp) t (by simp)
    omega

namespace View

variable {C : View → Nat → Prop} {v v' : View} {id : Nat} {w w' : Work} {key : QpKey}

/-! ## Requests -/

/-- How the works of a request belong together. -/
structure Grouped (v : View) : Prop where
  bound : ∀ t, .submitted t ∈ v.log → 0 < t.requestId ∧ t.requestId ≤ t.id
  current : v.request.requestId ≤ v.nextId
  mine : ∀ t, .submitted t ∈ v.log → t.requestId = v.request.requestId → t.peer = v.request.peer ∧
    (t.opcode = v.request.opcode ∨ t.opcode = .signal ∧ v.closed = true)
  pair : ∀ t t', .submitted t ∈ v.log → .submitted t' ∈ v.log → t'.requestId = t.requestId →
    t'.peer = t.peer ∧ (t.opcode = .signal → t'.opcode ≠ .signal → t'.id < t.id)

theorem grouped_frame (hv : Grouped v) (hsub : ∀ t, .submitted t ∈ v'.log ↔ .submitted t ∈ v.log)
    (hrequest : v'.request = v.request) (hclosed : v'.closed = v.closed)
    (hnext : v'.nextId = v.nextId) : Grouped v' := by
  obtain ⟨hbound, hcurrent, hmine, hpair⟩ := hv
  constructor <;> simpa only [hsub, hrequest, hclosed, hnext]

theorem grouped_add (hr : Recorded v) (hv : Grouped v) {t : WorkTiming} (hid : t.id = v.nextId)
    (hreq : t.requestId = v.request.requestId) (hpeer : t.peer = v.request.peer)
    (hopen : v.closed = false) (hcurrent : 0 < v.request.requestId)
    (hop : t.opcode = v.request.opcode ∨ t.opcode = .signal ∧ v'.closed = true)
    (hlog : v'.log = v.log ++ [.submitted t]) (hrequest : v'.request = v.request)
    (hnext : v'.nextId = v.nextId + 1) : Grouped v' := by
  have hmine : ∀ t', .submitted t' ∈ v.log → t'.requestId = v.request.requestId →
      t'.peer = v.request.peer ∧ t'.opcode = v.request.opcode := by
    intro t' ht' hreq'
    obtain ⟨hpeer', hop' | ⟨-, hclosed⟩⟩ := hv.mine t' ht' hreq'
    · exact ⟨hpeer', hop'⟩
    · rw [hopen] at hclosed
      cases hclosed
  have hle := hv.current
  have hold := hr.ids
  obtain ⟨hbound, -, -, hpair⟩ := hv
  constructor <;> simp only [hlog, hrequest, hnext, List.mem_append, List.mem_singleton,
    Event.submitted.injEq] <;> grind

theorem grouped_step (hr : Recorded v) (hv : Grouped v) (h : Micro C v v') : Grouped v' := by
  cases h with
  | openRequest s hs =>
      -- no work has the number of the new request yet
      have hnone : ∀ t, .submitted t ∈ v.log → t.requestId ≠ s.requestId := by
        intro t ht
        have hlt := (hr.ids t ht).2
        have hle := (hv.bound t ht).2
        omega
      exact ⟨hv.bound, hs.le, fun t ht hreq => absurd hreq (hnone t ht), hv.pair⟩
  | addData w₀ raw hid hreq hpeer hflags hopen hop hraw hfence hcurrent =>
      exact grouped_add hr hv hid hreq hpeer hopen hcurrent (.inl hop) rfl rfl rfl
  | addSignal w₀ hid hreq hpeer hflags hopen hop hfence hcurrent =>
      exact grouped_add hr hv hid hreq hpeer hopen hcurrent (.inr ⟨hop, rfl⟩) rfl rfl rfl
  | closeRequest s hs =>
      refine ⟨hv.bound, ?_, ?_, hv.pair⟩
      · change s.requestId ≤ v.nextId
        omega
      · intro t ht hreq
        have hpos := (hv.bound t ht).1
        change t.requestId = s.requestId at hreq
        omega
  | finish w rest hw =>
      refine grouped_frame hv ?_ rfl rfl rfl
      intro t
      dsimp only
      split <;> simp
  | _ =>
      exact grouped_frame hv (fun t => by simp [View.record, View.setQp, View.setWork]) rfl rfl rfl

/-! ## The signal -/

/-- What a signal work waits for, and what its request knows. -/
structure Gated (v : View) : Prop where
  level : ∀ id w, v.work id = some w → w.time.opcode = .signal →
    ∀ t, .submitted t ∈ v.log → t.DataOf w.time → t.id ≤ w.fenceThrough
  healthy : ∀ r, v.succeeded r = true ↔
    ∀ t, .submitted t ∈ v.log → t.requestId = r → .failed t.id ∉ v.log
  unfinished : ∀ w ∈ v.unfinished,
    .submitted w.time ∈ v.log ∧ (w.failed = true → .failed w.time.id ∈ v.log)
  refusing : ∀ id, v.refusing = some id → ∃ w, v.work id = some w ∧ w.acked = false
  refused : ∀ id, .executed id false ∈ v.log →
    v.refusing = some id ∨ .failed id ∈ v.log ∧ .acked id ∈ v.log
  rule : Justified SignalRule v.log

theorem submits_of_step (h : Micro C v v') :
    (v'.nextId = v.nextId ∧ ∀ t, .submitted t ∈ v'.log ↔ .submitted t ∈ v.log) ∨
      ∃ w₀ : Work, v'.nextId = v.nextId + 1 ∧ v'.log = v.log ++ [.submitted w₀.time] ∧
        v'.work = update v.work v.nextId (some w₀) ∧ w₀.time.id = v.nextId ∧
        w₀.time.requestId = v.request.requestId ∧ v.closed = false ∧
        (w₀.time.opcode = v.request.opcode ∨
          w₀.time.opcode = .signal ∧ w₀.fenceThrough = v.nextId - 1) := by
  cases h with
  | addData w₀ raw hid hreq hpeer hflags hopen hop hraw hfence hcurrent =>
      exact .inr ⟨w₀, rfl, rfl, rfl, hid, hreq, hopen, .inl hop⟩
  | addSignal w₀ hid hreq hpeer hflags hopen hop hfence hcurrent =>
      exact .inr ⟨w₀, rfl, rfl, rfl, hid, hreq, hopen, .inr ⟨hop, hfence⟩⟩
  | finish w rest hw =>
      refine .inl ⟨rfl, ?_⟩
      intro t
      dsimp only
      split <;> simp
  | _ => exact .inl ⟨rfl, fun t => by simp [View.record, View.setQp, View.setWork]⟩

theorem log_of_step (h : Micro C v v') : ∃ es, v'.log = v.log ++ es := by
  cases h with
  | finish w rest hw =>
      dsimp only
      split
      · exact ⟨_, rfl⟩
      · exact ⟨[], (List.append_nil _).symm⟩
  | openRequest | closeRequest | regroup | start | stage | copy | skip | settle | pass =>
      exact ⟨[], (List.append_nil _).symm⟩
  | _ => exact ⟨_, rfl⟩

theorem level_step (hr : Recorded v) (hg : Grouped v) (hv : Gated v) (h : Micro C v v')
    (hw' : v'.work id = some w') (hop : w'.time.opcode = .signal) {t : WorkTiming}
    (ht : .submitted t ∈ v'.log) (hdata : t.DataOf w'.time) : t.id ≤ w'.fenceThrough := by
  have hold : ∀ w, v.work id = some w → Grows w w' → .submitted t ∈ v.log →
      t.id ≤ w'.fenceThrough := by
    intro w hw hgrow hsub
    rw [hgrow.fenceThrough]
    rw [hgrow.time] at hop hdata
    exact hv.level id w hw hop t hsub hdata
  rcases submits_of_step h with ⟨hnext, hsub⟩ | ⟨w₀, hnext, hlog, hwork, hid, hreq, hopen, hkind⟩
  · rcases work_of_step h hw' with ⟨w, hw, hgrow⟩ | ⟨-, hnext', -⟩
    · exact hold w hw hgrow ((hsub t).mp ht)
    · omega
  -- before the signal of a request, all its works have the opcode of the request
  have hsame : ∀ u, .submitted u ∈ v.log → u.requestId = v.request.requestId →
      u.opcode = v.request.opcode := by
    intro u hu hureq
    rcases (hg.mine u hu hureq).2 with hop | ⟨-, hclosed⟩
    · exact hop
    · rw [hopen] at hclosed
      cases hclosed
  rw [hlog, List.mem_append, List.mem_singleton, Event.submitted.injEq] at ht
  rw [hwork] at hw'
  by_cases hi : id = v.nextId
  · rw [hi, update_self, Option.some.injEq] at hw'
    subst hw'
    rcases ht with ht | rfl
    · rcases hkind with hreqop | ⟨-, hfence⟩
      · have htop := hsame t ht (hdata.1.trans hreq)
        exact absurd (htop.trans (hreqop.symm.trans hop)) hdata.2
      · have hlt := (hr.ids t ht).2
        omega
    · exact absurd hop hdata.2
  · rw [update_of_ne hi] at hw'
    rcases ht with ht | rfl
    · exact hold w' hw' (.refl w') ht
    · have hwop := hsame w'.time (hr.live id w' hw') (hdata.1.symm.trans hreq)
      rcases hkind with hreqop | ⟨hsig, -⟩
      · exact absurd (hreqop.trans (hwop.symm.trans hop)) hdata.2
      · exact absurd hsig hdata.2

/-- The flag of a request falls with the first failure of one of its works. -/
theorem healthy_step (hb : Books v) (hr : Recorded v) (hg : Grouped v) (hv : Gated v) (h : Micro C v v') (r : Nat) :
    v'.succeeded r = true ↔
      ∀ t, .submitted t ∈ v'.log → t.requestId = r → .failed t.id ∉ v'.log := by
  have hold := hv.healthy r
  -- nothing has failed under a number that was not handed out
  have hfresh : .failed v.nextId ∉ v.log :=
    fun h => absurd (hr.known _ (0, 0) (.inr (.inl h))) (lt_irrefl _)
  have hadd : ∀ t : WorkTiming, t.id = v.nextId → (v.succeeded r = true ↔
      ∀ t', .submitted t' ∈ v.log ++ [.submitted t] → t'.requestId = r →
        .failed t'.id ∉ v.log ++ [.submitted t]) := by
    intro t ht
    rw [hold]
    simp only [List.mem_append, List.mem_singleton, reduceCtorEq, or_false, Event.submitted.injEq]
    constructor
    · rintro hall t' (ht' | rfl) hreq
      · exact hall t' ht' hreq
      · rw [ht]
        exact hfresh
    · exact fun hall t' ht' => hall t' (.inl ht')
  cases h with
  | openRequest s hs =>
      dsimp only
      by_cases hreq : r = v.nextId
      · subst hreq
        rw [update_self]
        refine ⟨fun _ t ht hreq => ?_, fun _ => rfl⟩
        have hlt := (hr.ids t ht).2
        have hle := (hg.bound t ht).2
        omega
      · rw [update_of_ne hreq]
        exact hold
  | addData _ _ hid | addSignal _ hid => exact hadd _ hid
  | fail j u hu hex hok =>
      have hsub := hr.live j u hu
      have hj := (hb.numbered.works j u hu).1
      simp only [View.record, View.setWork, List.mem_append, List.mem_singleton, reduceCtorEq,
        or_false, Event.failed.injEq]
      by_cases hreq : r = u.time.requestId
      · rw [hreq, update_self]
        refine iff_of_false Bool.false_ne_true ?_
        intro hall
        exact hall u.time hsub rfl (.inr hj)
      · rw [update_of_ne hreq, hold]
        refine forall₃_congr ?_
        intro t ht htreq
        rw [not_or, and_iff_left]
        intro htid
        rw [← htid] at hu
        exact hreq (htreq.symm.trans (by rw [hr.same t u ht hu]))
  | finish w rest hw =>
      obtain ⟨hsub, hfailed⟩ := hv.unfinished w (hw ▸ List.mem_cons_self)
      have hlog : ∀ t, (.submitted t ∈ (if v.remaining w.time.requestId - 1 = 0 then
            v.log ++ [.completed w.time.requestId (v.succeeded w.time.requestId && !w.failed)]
          else v.log) ↔ .submitted t ∈ v.log) ∧ (.failed t.id ∈ (if v.remaining w.time.requestId - 1 = 0 then
            v.log ++ [.completed w.time.requestId (v.succeeded w.time.requestId && !w.failed)]
          else v.log) ↔ .failed t.id ∈ v.log) := by
        intro t
        split <;> simp
      simp only [hlog]
      by_cases hreq : r = w.time.requestId
      · subst hreq
        rw [update_self, ← hold, Bool.and_eq_true, and_iff_left_iff_imp]
        intro hok
        by_contra hbad
        exact hold.mp hok w.time hsub rfl (hfailed (by simpa using hbad))
      · rw [update_of_ne hreq]
        exact hold
  | _ => simpa [View.record, View.setQp, View.setWork] using hold

theorem unfinished_step (hb : Books v) (hr : Recorded v) (hv : Gated v) (h : Micro C v v') {w : Work}
    (hw : w ∈ v'.unfinished) :
    .submitted w.time ∈ v'.log ∧ (w.failed = true → .failed w.time.id ∈ v'.log) := by
  obtain ⟨es, hlog⟩ := log_of_step h
  have hkeep : .submitted w.time ∈ v.log ∧ (w.failed = true → .failed w.time.id ∈ v.log) →
      .submitted w.time ∈ v'.log ∧ (w.failed = true → .failed w.time.id ∈ v'.log) := by
    rintro ⟨h₁, h₂⟩
    rw [hlog]
    exact ⟨List.mem_append_left _ h₁, fun hf => List.mem_append_left _ (h₂ hf)⟩
  refine hkeep ?_
  cases h with
  | observe key i through ids hdue hdone hi =>
      obtain ⟨id, -, hwork⟩ := List.mem_filterMap.mp hw
      have hsub := hr.live id w hwork
      refine ⟨hsub, ?_⟩
      rw [(hb.numbered.works id w hwork).1]
      exact (hr.failed id w hwork).mp
  | finish w₁ rest hfirst => exact hv.unfinished w (hfirst ▸ List.mem_cons_of_mem _ hw)
  | _ => exact hv.unfinished w hw

/-- While a signal is being refused, its work stays and is not acknowledged. -/
theorem refusing_step (hb : Books v) (hv : Gated v) (h : Micro C v v')
    (href : v'.refusing = some id) : ∃ w, v'.work id = some w ∧ w.acked = false := by
  have hkeep : ∀ {j : Nat} {u u' : Work}, v.refusing = some id → v.work j = some u →
      u'.acked = u.acked → ∃ w, update v.work j (some u') id = some w ∧ w.acked = false := by
    intro j u u' hid hu hsame
    obtain ⟨w, hw, hacked⟩ := hv.refusing id hid
    by_cases hj : id = j
    · subst hj
      rw [hw] at hu
      cases hu
      exact ⟨u', update_self .., hsame.trans hacked⟩
    · exact ⟨w, by rw [update_of_ne hj, hw], hacked⟩
  have hnew : ∀ w₀ : Work, v.refusing = some id →
      ∃ w, update v.work v.nextId (some w₀) id = some w ∧ w.acked = false := by
    intro w₀ hid
    obtain ⟨w, hw, hacked⟩ := hv.refusing id hid
    have hlt := (hb.numbered.works id w hw).2.2.1
    exact ⟨w, by rw [update_of_ne (ne_of_lt hlt), hw], hacked⟩
  cases h with
  | addData | addSignal => exact hnew _ href
  | reserve _ _ _ _ _ hu | fail _ _ hu => exact hkeep href hu rfl
  | execute key j rest u hid hu hr hok =>
      change v.refusing = some id at href
      rw [hr] at href
      cases href
  | refuse key j rest u hid hu hr hop hbad =>
      cases href
      have hunexecuted := (hb.flagged.head hid hu).2.2
      refine ⟨{ u with executed := true }, update_self .., ?_⟩
      by_contra hacked
      rw [(hb.flagged.order _ u hu).1 (by simpa using hacked)] at hunexecuted
      cases hunexecuted
  | settle j u hr hu hacked => cases href
  | ack j u hu hex hok hdue hr => cases href
  | observe key i through ids hdue hdone hi =>
      obtain ⟨w, hw, hacked⟩ := hv.refusing id href
      refine ⟨w, ?_, hacked⟩
      simp only [View.record, View.setQp]
      rw [if_neg ?_, hw]
      intro hcov
      obtain ⟨-, u, hu, -, hu'⟩ := mem_covered.mp hcov
      rw [hw] at hu
      cases hu
      rw [hacked] at hu'
      cases hu'
  | _ => exact hv.refusing id href

/-- A refused signal is being refused, or has been completed as failed. -/
theorem refused_step (hr : Recorded v) (hv : Gated v) (h : Micro C v v')
    (hexec : .executed id false ∈ v'.log) :
    v'.refusing = some id ∨ .failed id ∈ v'.log ∧ .acked id ∈ v'.log := by
  obtain ⟨es, hlog⟩ := log_of_step h
  have hkeep : .executed id false ∈ v.log → v'.refusing = v.refusing ∨ v.refusing = none →
      v'.refusing = some id ∨ .failed id ∈ v'.log ∧ .acked id ∈ v'.log := by
    intro hold hsame
    rw [hlog]
    rcases hv.refused id hold with href | ⟨h₁, h₂⟩
    · rcases hsame with hsame | hnone
      · exact .inl (hsame.trans href)
      · rw [hnone] at href
        cases href
    · exact .inr ⟨List.mem_append_left _ h₁, List.mem_append_left _ h₂⟩
  cases h with
  | refuse key j rest u hid hu hnone hop hbad =>
      simp only [View.record, List.mem_append, List.mem_singleton, Event.executed.injEq,
        and_true] at hexec
      rcases hexec with hold | rfl
      · exact hkeep hold (.inr hnone)
      · exact .inl rfl
  | settle j u href hu hacked =>
      obtain ⟨w, hw, hno⟩ := hv.refusing j href
      rw [hu] at hw
      cases hw
      rw [hacked] at hno
      cases hno
  | ack j u hu hex hok hdue href =>
      have hold : .executed id false ∈ v.log := by
        simpa [View.record, View.setWork] using hexec
      rcases href with hnone | ⟨hj, hfailed⟩
      · exact hkeep hold (.inr hnone)
      · rcases hv.refused id hold with hid | ⟨h₁, h₂⟩
        · rw [hj] at hid
          cases hid
          have hmem := (hr.failed id u hu).mp hfailed
          exact .inr ⟨List.mem_append_left _ hmem, List.mem_append_right _ List.mem_cons_self⟩
        · exact .inr ⟨List.mem_append_left _ h₁, List.mem_append_left _ h₂⟩
  | finish w rest hw =>
      refine hkeep ?_ (.inl rfl)
      dsimp only at hexec
      split at hexec <;> simpa using hexec
  | _ =>
      refine hkeep ?_ (.inl rfl)
      simpa [View.record, View.setQp, View.setWork] using hexec

theorem signalRule_head (hb : Books v) (hr : Recorded v) (hf : Fenced v) (hg : Grouped v)
    (hv : Gated v) {rest : List Nat} (hid : (v.qps key).line = id :: rest)
    (hw : v.work id = some w) {launched : Bool}
    (hflag : w.time.opcode = .signal → launched = v.succeeded w.time.requestId) :
    SignalRule v.log (.executed id launched) := by
  have hsub := hr.live id w hw
  have hslot := (hb.flagged.head hid hw).2.1
  refine ⟨w.time, hsub, (hb.numbered.works id w hw).1, ?_⟩
  intro hop
  constructor
  · intro t ht hdata
    have hpeer := (hg.pair w.time t hsub ht hdata.1).1
    exact hf.passed id w hw hslot t ht hpeer (hv.level id w hw hop t ht hdata)
  · rw [hflag hop]
    exact hv.healthy w.time.requestId

theorem rule_step (hb : Books v) (hr : Recorded v) (hf : Fenced v) (hg : Grouped v) (hv : Gated v)
    (h : Micro C v v') : Justified SignalRule v'.log := by
  have hadd : ∀ t : WorkTiming, t.id = v.nextId → Justified SignalRule (v.log ++ [.submitted t]) := by
    intro t ht
    refine hv.rule.snoc ?_
    intro t' ht'
    rw [ht]
    exact (hr.ids t' ht').2
  cases h with
  | addData _ _ hid | addSignal _ hid => exact hadd _ hid
  | execute key j rest u hid hu hnone hok =>
      refine hv.rule.snoc (signalRule_head hb hr hf hg hv hid hu ?_)
      intro hop
      rcases hok with hno | hok
      · exact absurd hop hno
      · exact hok.symm
  | refuse key j rest u hid hu hnone hop hbad =>
      exact hv.rule.snoc (signalRule_head hb hr hf hg hv hid hu fun _ => hbad.symm)
  | finish w rest hw =>
      dsimp only
      split
      · exact hv.rule.snoc trivial
      · exact hv.rule
  | openRequest | closeRequest | regroup | start | stage | copy | skip | settle | pass =>
      exact hv.rule
  | _ => exact hv.rule.snoc trivial

theorem gated_step (hb : Books v) (hr : Recorded v) (hf : Fenced v) (hg : Grouped v) (hv : Gated v)
    (h : Micro C v v') : Gated v' :=
  ⟨fun _ _ hw hop _ ht hdata => level_step hr hg hv h hw hop ht hdata, healthy_step hb hr hg hv h,
    fun _ hw => unfinished_step hb hr hv h hw, fun _ href => refusing_step hb hv h href,
    fun _ hexec => refused_step hr hv h hexec, rule_step hb hr hf hg hv h⟩

end View

namespace Submission

theorem grouped_idle (c : Config) : (idle c).ledger.Grouped := by
  constructor <;> simp [idle, ledger, view]

theorem gated_idle (c : Config) : (idle c).ledger.Gated := by
  refine ⟨?_, ?_, ?_, ?_, ?_, Justified.nil⟩ <;> simp [idle, ledger, view]

theorem gated_invariant :
    submissionMachine.Invariant fun σ => σ.ledger.Grouped ∧ σ.ledger.Gated := by
  intro σ hreach
  refine (run_invariant (P := fun v => v.Fenced ∧ v.Grouped ∧ v.Gated) ?_ ?_ σ hreach).2.2.2
  · exact fun c _ => ⟨fenced_idle c, grouped_idle c, gated_idle c⟩
  · rintro v v' hb hr ⟨hf, hg, hv⟩ h
    exact ⟨View.fenced_step hb hr hf h, View.grouped_step hr hg h, View.gated_step hb hr hf hg hv h⟩

/-- **Put-signal ordering.** The signal `t` of a request executes only after every data work
of the request has been acknowledged, and is launched only if none of them has failed by
then. Refused, it completes as failed, and the operation engine sends nothing for it. While
one of them is unacknowledged, it does not execute. -/
theorem put_signal_ordered {σ : Submission} (hreach : submissionMachine.Reachable σ) {t : WorkTiming}
    (ht : .submitted t ∈ σ.log) (hop : t.opcode = .signal) :
    (∀ pre launched post, σ.log = pre ++ .executed t.id launched :: post →
      ∀ t', .submitted t' ∈ σ.log → t'.DataOf t →
        .acked t'.id ∈ pre ∧ (.failed t'.id ∈ pre → launched = false)) ∧
      (.executed t.id false ∈ σ.log → .failed t.id ∈ σ.log ∧ .acked t.id ∈ σ.log) ∧
      (∀ t', .submitted t' ∈ σ.log → t'.DataOf t → .acked t'.id ∉ σ.log →
        ∀ launched, .executed t.id launched ∉ σ.log) ∧
      ∀ (e : Engine) (request : Request),
        e.execute request t false = .ok (e.notifyOperationComplete t.id false) := by
  obtain ⟨hg, hv⟩ := gated_invariant σ hreach
  have hordered : ∀ pre launched post, σ.log = pre ++ .executed t.id launched :: post →
      ∀ t', .submitted t' ∈ σ.log → t'.DataOf t →
        .acked t'.id ∈ pre ∧ (.failed t'.id ∈ pre → launched = false) := by
    intro pre launched post hlog t' ht' hdata
    obtain ⟨u, hu, huid, hrule⟩ := hv.rule pre _ post hlog
    -- numbers tell in which order works were submitted
    have hbefore : ∀ s, .submitted s ∈ σ.log → s.id ≤ t.id → .submitted s ∈ pre := by
      intro s hs hle
      rw [hlog, List.mem_append, List.mem_cons] at hs
      rcases hs with hs | hs | hs
      · exact hs
      · cases hs
      · obtain ⟨post₁, post₂, rfl⟩ := List.append_of_mem hs
        have hlt := hv.rule (pre ++ .executed t.id launched :: post₁) (.submitted s) post₂
          (hlog.trans (by simp)) u (List.mem_append_left _ hu)
        omega
    have hpre' := hbefore t' ht' ((hg.pair t t' ht ht' hdata.1).2 hop hdata.2).le
    have hsame : u = t := by
      refine submitted_inj hv.rule ?_ ht huid
      change .submitted u ∈ σ.log
      rw [hlog]
      exact List.mem_append_left _ hu
    subst hsame
    obtain ⟨hacked, hflag⟩ := hrule hop
    refine ⟨hacked t' hpre' hdata, ?_⟩
    intro hfailed
    by_contra hlaunched
    exact hflag.mp (by simpa using hlaunched) t' hpre' hdata.1 hfailed
  refine ⟨hordered, ?_, ?_, ?_⟩
  · intro hexec
    rcases hv.refused t.id hexec with href | hdone
    · cases href
    · exact hdone
  · intro t' ht' hdata hno launched hexec
    obtain ⟨pre, post, hlog⟩ := List.append_of_mem hexec
    have hacked := (hordered pre launched post hlog t' ht' hdata).1
    exact hno (hlog ▸ List.mem_append_left _ hacked)
  · intro e request
    simp only [Engine.execute, hop, true_and, if_true]

/-- A put-signal of two staged chunks, acknowledged out of order; the first one fails. -/
def refusedRun : List Act :=
  [.submit .putSignal 1 64 none, .copied 0, .copied 0, .publish (1, 0), .publish (1, 0),
    .execute (1, 0), .execute (1, 0), .notifyOperationComplete 2 true,
    .notifyOperationComplete 1 false, .publish (1, 0), .execute (1, 0)]

/-- The signal is reached, refused, and completed as failed. -/
theorem put_signal_ordered_refusedRun :
    ∃ σ, submissionMachine.Reachable σ ∧ .executed 3 false ∈ σ.log ∧ .failed 3 ∈ σ.log ∧
      .acked 3 ∈ σ.log := by
  let signal : WorkTiming :=
    { id := 3, requestId := 1, offset := 64, bytes := 8, peer := 1, opcode := .signal }
  let config : Config := { dataPath := .staged, stagingChunkBytes := 32, stagingBufferBytes := 64 }
  have hrun : (submissionMachine.runs (idle config) refusedRun).map
      (fun σ => decide (.submitted signal ∈ σ.log ∧ .executed 3 false ∈ σ.log)) = some true := by
    decide +kernel
  have hinit : submissionMachine.init (idle config) := ⟨config, by decide, rfl⟩
  obtain ⟨σ, hreach, hlog⟩ := Machine.Reachable.exists_of_runs hinit hrun
  obtain ⟨hsub, hexec⟩ := of_decide_eq_true hlog
  obtain ⟨hfailed, hacked⟩ := (put_signal_ordered hreach hsub rfl).2.1 hexec
  exact ⟨σ, hreach, hexec, hfailed, hacked⟩

/-- The data are acknowledged and the signal is sent. Then a copy of a data packet is lost for good, and
`NotifyFailure` marks the data as failed, which have not been observed yet. -/
def lateLossRun : List Act :=
  [.submit .putSignal 1 64 none, .publish (1, 0), .execute (1, 0), .notifyPacketAck 1 64,
    .publish (1, 0), .execute (1, 0), .notifyFailure 1]

/-- A signal may have been sent for data that are marked failed later on. -/
theorem signalSent_lateLossRun : ¬ ∀ σ, submissionMachine.Reachable σ →
    ∀ t, .submitted t ∈ σ.log → t.opcode = .signal → ∀ t', .submitted t' ∈ σ.log → t'.DataOf t →
      .failed t'.id ∈ σ.log → .executed t.id true ∉ σ.log := by
  let data : WorkTiming := { id := 1, requestId := 1, bytes := 64, peer := 1, opcode := .putSignal }
  let signal : WorkTiming :=
    { id := 2, requestId := 1, offset := 64, bytes := 8, peer := 1, opcode := .signal }
  have hrun : (submissionMachine.runs (idle {}) lateLossRun).map
      (fun σ => decide ((.submitted data ∈ σ.log ∧ .submitted signal ∈ σ.log) ∧
        .failed 1 ∈ σ.log ∧ .executed 2 true ∈ σ.log)) = some true := by
    decide +kernel
  have hinit : submissionMachine.init (idle {}) := ⟨{}, rfl, rfl⟩
  obtain ⟨σ, hreach, hlog⟩ := Machine.Reachable.exists_of_runs hinit hrun
  obtain ⟨⟨hdata, hsignal⟩, hfailed, hexec⟩ := of_decide_eq_true hlog
  intro hall
  exact hall σ hreach signal hsignal rfl data hdata ⟨rfl, by decide⟩ hfailed hexec

end Submission

end ProtoBridge.Rdma
