import ProtoBridge.Rdma.Completion

/-!
# The accounts of a queue pair

What the history says of the slots of a queue pair: which works got one, which left the
ledger under a completion entry, which were observed. The three agree with the counters
and the queues in every run whose staging copies end in turn.
-/

namespace ProtoBridge.Rdma

open Lib Relation
open Function (update update_apply update_of_ne)

/-- The works that got a slot of a queue pair, in order. -/
def reservedIds (key : QpKey) (log : List Event) : List Nat :=
  log.filterMap fun
    | .reserved k id => if k = key then some id else none
    | _ => none

/-- The works that left the ledger of a queue pair, in order. -/
def signalledIds (key : QpKey) (log : List Event) : List Nat :=
  log.flatMap fun
    | .signalled k _ ids => if k = key then ids else []
    | _ => []

/-- The works that were observed on a queue pair, in order. -/
def observedIds (key : QpKey) (log : List Event) : List Nat :=
  log.flatMap fun
    | .observed k _ ids => if k = key then ids else []
    | _ => []

/-- A completion entry that is observed was issued before. It covers only works that left
the ledger, and after it none of its own works is left. -/
def ObserveRule (pre : List Event) : Event → Prop
  | .observed key through ids =>
      (∀ id ∈ ids, id ≤ through ∧ id ∈ signalledIds key pre) ∧
        ∃ own, .signalled key through own ∈ pre ∧ ∀ id ∈ own, id ∈ ids ∨ id ∈ observedIds key pre
  | _ => True

/-- The event is none that the accounts are about. -/
def Event.Aside (e : Event) : Prop :=
  (∀ key id, e ≠ .reserved key id) ∧ (∀ key through ids, e ≠ .signalled key through ids) ∧
    ∀ key through ids, e ≠ .observed key through ids

theorem Event.Aside.ids {e : Event} (he : e.Aside) (key : QpKey) (log : List Event) :
    reservedIds key (log ++ [e]) = reservedIds key log ∧
      signalledIds key (log ++ [e]) = signalledIds key log ∧
      observedIds key (log ++ [e]) = observedIds key log := by
  obtain ⟨h₁, h₂, h₃⟩ := he
  cases e with
  | reserved k id => exact absurd rfl (h₁ k id)
  | signalled k through ids => exact absurd rfl (h₂ k through ids)
  | observed k through ids => exact absurd rfl (h₃ k through ids)
  | _ => simp [reservedIds, signalledIds, observedIds]

theorem mem_reservedIds {key : QpKey} {id : Nat} {log : List Event} :
    id ∈ reservedIds key log ↔ .reserved key id ∈ log := by
  simp only [reservedIds, List.mem_filterMap]
  constructor
  · rintro ⟨e, he, hid⟩
    cases e with
    | reserved k j =>
        simp only [Option.ite_none_right_eq_some, Option.some.injEq] at hid
        obtain ⟨rfl, rfl⟩ := hid
        exact he
    | _ => cases hid
  · exact fun h => ⟨_, h, by simp⟩

namespace View

variable {C : View → Nat → Prop} {v v' : View} {id : Nat} {w w' : Work} {key : QpKey}

/-- The history of the slots agrees with the ledgers. -/
structure Audited (v : View) : Prop where
  leaves : ∀ key, reservedIds key v.log = signalledIds key v.log ++ (v.qps key).outstanding
  once : ∀ key, (reservedIds key v.log).Nodup
  issued : ∀ key, ∀ e ∈ (v.qps key).completions, .signalled key e.1 e.2 ∈ v.log
  pending : ∀ key, ∀ id ∈ signalledIds key v.log, ∀ w, v.work id = some w →
    id ∈ (v.qps key).entries
  erased : ∀ key id, id ∈ observedIds key v.log ↔ id ∈ signalledIds key v.log ∧ v.work id = none
  observedOnce : ∀ key, (observedIds key v.log).Nodup
  rule : Justified ObserveRule v.log

theorem Audited.signalled_of_entry (hv : Audited v) (hid : id ∈ (v.qps key).entries) :
    id ∈ signalledIds key v.log := by
  obtain ⟨e, he, hide⟩ := List.mem_flatMap.mp hid
  refine List.mem_flatMap.mpr ⟨_, hv.issued key e he, ?_⟩
  simp only [if_true]
  exact hide

theorem Audited.signalled_lt (hr : Recorded v) (hv : Audited v) (hid : id ∈ signalledIds key v.log) :
    id < v.nextId := by
  refine hr.known id key (.inr (.inr (mem_reservedIds.mp ?_)))
  rw [hv.leaves]
  exact List.mem_append_left _ hid

/-- A step the accounts are not about. -/
theorem audited_frame (hr : Recorded v) (hv : Audited v) (es : List Event)
    (hes : es = [] ∨ ∃ e : Event, es = [e] ∧ e.Aside) (hlog : v'.log = v.log ++ es)
    (hout : ∀ k, (v'.qps k).outstanding = (v.qps k).outstanding)
    (hcomp : ∀ k, (v'.qps k).completions = (v.qps k).completions)
    (hgone : ∀ id < v.nextId, v'.work id = none ↔ v.work id = none) : Audited v' := by
  have hids : ∀ k, reservedIds k v'.log = reservedIds k v.log ∧
      signalledIds k v'.log = signalledIds k v.log ∧ observedIds k v'.log = observedIds k v.log := by
    intro k
    rcases hes with rfl | ⟨e, rfl, he⟩
    · rw [hlog, List.append_nil]
      exact ⟨rfl, rfl, rfl⟩
    · rw [hlog]
      exact he.ids k v.log
  refine ⟨?_, ?_, ?_, ?_, ?_, ?_, ?_⟩
  · intro k
    rw [(hids k).1, (hids k).2.1, hout]
    exact hv.leaves k
  · intro k
    rw [(hids k).1]
    exact hv.once k
  · intro k e he
    rw [hcomp] at he
    rw [hlog]
    exact List.mem_append_left _ (hv.issued k e he)
  -- pending: no work comes back, and the entries stay
  · intro k id hid w hw
    rw [(hids k).2.1] at hid
    obtain ⟨w₀, hw₀⟩ : ∃ w₀, v.work id = some w₀ := by
      refine Option.ne_none_iff_exists'.mp ?_
      intro hnone
      rw [(hgone id (hv.signalled_lt hr hid)).mpr hnone] at hw
      cases hw
    have hold := hv.pending k id hid w₀ hw₀
    simpa only [Ledger.entries, hcomp] using hold
  · intro k id
    rw [(hids k).2.1, (hids k).2.2, hv.erased]
    refine and_congr_right ?_
    intro hid
    exact (hgone id (hv.signalled_lt hr hid)).symm
  · intro k
    rw [(hids k).2.2]
    exact hv.observedOnce k
  -- rule: the event is no observation
  · rcases hes with rfl | ⟨e, rfl, he⟩
    · rw [hlog, List.append_nil]
      exact hv.rule
    · rw [hlog]
      refine hv.rule.snoc ?_
      cases e with
      | observed k through ids => exact absurd rfl (he.2.2 k through ids)
      | _ => trivial

/-- A work gets a slot. -/
theorem audited_reserve (hr : Recorded v) (hv : Audited v) {j : Nat} {u : Work}
    {q : Ledger} (hu : v.work j = some u) (hukey : u.key = key) (hures : u.reserved = false)
    (hlog : v'.log = v.log ++ [.reserved key j])
    (hw : v'.work = update v.work j (some { u with reserved := true }))
    (hqps : v'.qps = update v.qps key q)
    (hout : q.outstanding = (v.qps key).outstanding ++ [j])
    (hcomp : q.completions = (v.qps key).completions) : Audited v' := by
  have hnot : .reserved key j ∉ v.log := by
    intro hmem
    have hyes := (hr.reserved j u hu).mpr (hukey ▸ hmem)
    rw [hures] at hyes
    cases hyes
  have hres : ∀ k, reservedIds k v'.log =
      if k = key then reservedIds k v.log ++ [j] else reservedIds k v.log := by
    intro k
    rw [hlog]
    by_cases hk : k = key
    · simp [reservedIds, hk]
    · simp [reservedIds, hk, Ne.symm hk]
  have hsig : ∀ k, signalledIds k v'.log = signalledIds k v.log := by
    intro k
    simp [hlog, signalledIds]
  have hobs : ∀ k, observedIds k v'.log = observedIds k v.log := by
    intro k
    simp [hlog, observedIds]
  have hqs : ∀ k, v'.qps k = if k = key then q else v.qps k := by
    intro k
    rw [hqps, update_apply]
  have hent : ∀ k, (v'.qps k).completions = (v.qps k).completions := by
    intro k
    rw [hqs]
    split
    · rename_i hk
      rw [hcomp, hk]
    · rfl
  have hgone : ∀ id, v'.work id = none ↔ v.work id = none := by
    intro id
    rw [hw, update_apply]
    split
    · rename_i hid
      simp [hid, hu]
    · rfl
  refine ⟨?_, ?_, ?_, ?_, ?_, ?_, ?_⟩
  -- leaves: the work joins the outstanding ones
  · intro k
    rw [hres, hsig, hqs]
    split
    · rename_i hk
      subst hk
      rw [hv.leaves, hout, List.append_assoc]
    · exact hv.leaves k
  -- once: it had no slot before
  · intro k
    rw [hres]
    split
    · rename_i hk
      subst hk
      refine List.nodup_append.mpr ⟨hv.once k, List.nodup_singleton j, ?_⟩
      rintro id hid _ hj rfl
      rw [List.mem_singleton.mp hj] at hid
      exact hnot (mem_reservedIds.mp hid)
    · exact hv.once k
  · intro k e he
    rw [hent] at he
    rw [hlog]
    exact List.mem_append_left _ (hv.issued k e he)
  · intro k id hid w hwid
    rw [hsig] at hid
    obtain ⟨w₀, hw₀⟩ : ∃ w₀, v.work id = some w₀ := by
      refine Option.ne_none_iff_exists'.mp ?_
      intro hnone
      rw [(hgone id).mpr hnone] at hwid
      cases hwid
    simpa only [Ledger.entries, hent] using hv.pending k id hid w₀ hw₀
  · intro k id
    rw [hsig, hobs, hgone]
    exact hv.erased k id
  · intro k
    rw [hobs]
    exact hv.observedOnce k
  · rw [hlog]
    exact hv.rule.snoc trivial

/-- The acknowledged prefix leaves the ledger. -/
theorem audited_signal (hv : Audited v) {q : Ledger} {through : Nat} {ready : List Nat}
    (hready : ∀ id ∈ ready, v.work id ≠ none)
    (hlog : v'.log = v.log ++ [.signalled key through ready]) (hw : v'.work = v.work)
    (hqps : v'.qps = update v.qps key q)
    (hout : (v.qps key).outstanding = ready ++ q.outstanding)
    (hcomp : q.completions = (v.qps key).completions ++ [(through, ready)]) : Audited v' := by
  have hres : ∀ k, reservedIds k v'.log = reservedIds k v.log := by
    intro k
    simp [hlog, reservedIds]
  have hsig : ∀ k, signalledIds k v'.log =
      if k = key then signalledIds k v.log ++ ready else signalledIds k v.log := by
    intro k
    rw [hlog]
    by_cases hk : k = key
    · simp [signalledIds, hk]
    · simp [signalledIds, hk, Ne.symm hk]
  have hobs : ∀ k, observedIds k v'.log = observedIds k v.log := by
    intro k
    simp [hlog, observedIds]
  have hqs : ∀ k, v'.qps k = if k = key then q else v.qps k := by
    intro k
    rw [hqps, update_apply]
  have hent : q.entries = (v.qps key).entries ++ ready := by
    simp [Ledger.entries, hcomp]
  refine ⟨?_, ?_, ?_, ?_, ?_, ?_, ?_⟩
  -- leaves: the prefix moves from outstanding to signalled
  · intro k
    rw [hres, hsig, hqs, hv.leaves]
    split
    · rename_i hk
      subst hk
      rw [hout, List.append_assoc]
    · rfl
  · intro k
    rw [hres]
    exact hv.once k
  -- issued
  · intro k e he
    rw [hqs] at he
    rw [hlog]
    split at he
    · rename_i hk
      subst hk
      rw [hcomp] at he
      rcases List.mem_append.mp he with he | he
      · exact List.mem_append_left _ (hv.issued k e he)
      · rw [List.mem_singleton.mp he]
        exact List.mem_append_right _ List.mem_cons_self
    · exact List.mem_append_left _ (hv.issued k e he)
  -- pending: the new entry names the prefix
  · intro k id hid w hwid
    rw [hw] at hwid
    rw [hsig] at hid
    rw [hqs]
    split at hid
    · rename_i hk
      subst hk
      rw [if_pos rfl, hent]
      rcases List.mem_append.mp hid with hid | hid
      · exact List.mem_append_left _ (hv.pending k id hid w hwid)
      · exact List.mem_append_right _ hid
    · rename_i hk
      rw [if_neg hk]
      exact hv.pending k id hid w hwid
  -- erased: the works of the prefix are still there
  · intro k id
    rw [hsig, hobs, hw, hv.erased]
    split
    · refine ⟨fun h => ⟨List.mem_append_left _ h.1, h.2⟩, ?_⟩
      rintro ⟨hid, hnone⟩
      rcases List.mem_append.mp hid with hid | hid
      · exact ⟨hid, hnone⟩
      · exact absurd hnone (hready id hid)
    · rfl
  · intro k
    rw [hobs]
    exact hv.observedOnce k
  · rw [hlog]
    exact hv.rule.snoc trivial

/-- Covered works are erased, under an entry that was issued for the last of them. -/
theorem audited_observe (ho : Ordered v) (hs : Sited v) (hf : Flagged v) (hv : Audited v)
    {i through : Nat} {own : List Nat} {q : Ledger}
    (hi : (v.qps key).completions[i]? = some (through, own))
    (hlog : v'.log = v.log ++ [.observed key through (v.covered key through)])
    (hw : v'.work = fun id => if id ∈ v.covered key through then none else v.work id)
    (hqps : v'.qps = update v.qps key q) (hout : q.outstanding = (v.qps key).outstanding)
    (hcomp : q.completions = (v.qps key).completions.eraseIdx i) : Audited v' := by
  have hmem := List.mem_of_getElem? hi
  obtain ⟨hthrough, hle⟩ := ho.entry key _ hmem
  dsimp only at hthrough hle
  have hres : ∀ k, reservedIds k v'.log = reservedIds k v.log := by
    intro k
    simp [hlog, reservedIds]
  have hsig : ∀ k, signalledIds k v'.log = signalledIds k v.log := by
    intro k
    simp [hlog, signalledIds]
  have hobs : ∀ k, observedIds k v'.log = if k = key then
      observedIds k v.log ++ v.covered key through else observedIds k v.log := by
    intro k
    rw [hlog]
    by_cases hk : k = key
    · simp [observedIds, hk]
    · simp [observedIds, hk, Ne.symm hk]
  have hqs : ∀ k, v'.qps k = if k = key then q else v.qps k := by
    intro k
    rw [hqps, update_apply]
  -- what is covered holds a slot, is not outstanding, and so has an entry
  have hcov : ∀ j ∈ v.covered key through, j ∈ signalledIds key v.log ∧ v.work j ≠ none := by
    intro j hj
    obtain ⟨hjle, w, hwj, hk, hacked⟩ := mem_covered.mp hj
    refine ⟨?_, by rw [hwj]; exact Option.some_ne_none w⟩
    rcases hs.held j w hwj (hf.reserved_of_acked hwj hacked) with h | h
    · have hslots := (List.pairwise_append.mp (ho.sorted key)).1
      have hlt := (List.pairwise_append.mp hslots).2.2 through
        (List.mem_flatMap.mpr ⟨_, hmem, hthrough⟩) j (hk ▸ h)
      omega
    · exact hv.signalled_of_entry (hk ▸ h)
  have hown : ∀ j ∈ own, ∀ w, v.work j = some w → j ∈ v.covered key through := by
    intro j hj w hwj
    have hent := hs.entries key j (List.mem_flatMap.mpr ⟨_, hmem, hj⟩) w hwj
    exact mem_covered.mpr ⟨hle j hj, w, hwj, hent⟩
  have hother : ∀ k, k ≠ key → ∀ j ∈ signalledIds k v.log, j ∉ v.covered key through := by
    intro k hk j hj hc
    obtain ⟨-, w, hwj, hwk, -⟩ := mem_covered.mp hc
    exact hk ((hs.entries k j (hv.pending k j hj w hwj) w hwj).1.symm.trans hwk)
  refine ⟨?_, ?_, ?_, ?_, ?_, ?_, ?_⟩
  · intro k
    rw [hres, hsig, hqs, hv.leaves]
    split
    · rename_i hk
      rw [hout, hk]
    · rfl
  · intro k
    rw [hres]
    exact hv.once k
  -- issued: the entries left were issued before
  · intro k e he
    rw [hlog]
    refine List.mem_append_left _ (hv.issued k e ?_)
    rw [hqs] at he
    split at he
    · rename_i hk
      rw [hcomp] at he
      rw [hk]
      exact (List.eraseIdx_sublist _ _).subset he
    · exact he
  -- pending: the works of the observed entry are erased
  · intro k id hid w hwid
    rw [hw] at hwid
    rw [hsig] at hid
    rw [hqs]
    dsimp only at hwid
    split at hwid
    · cases hwid
    · rename_i hnot
      have hent := hv.pending k id hid w hwid
      split
      · rename_i hk
        subst hk
        obtain ⟨e, he, hide⟩ := List.mem_flatMap.mp hent
        refine List.mem_flatMap.mpr ⟨e, ?_, hide⟩
        rw [hcomp]
        have hperm := coe_eraseIdx_add hi
        have he' : e ∈ ((v.qps k).completions.eraseIdx i : Multiset (Nat × List Nat)) +
            {(through, own)} := by
          rw [hperm]
          exact he
        rcases Multiset.mem_add.mp he' with h | h
        · exact h
        · rw [Multiset.mem_singleton.mp h] at hide
          exact absurd (hown id hide w hwid) hnot
      · exact hent
  -- erased: exactly the covered works are erased
  · intro k id
    rw [hsig, hobs, hw]
    dsimp only
    split
    · rename_i hk
      subst hk
      rw [List.mem_append, hv.erased]
      constructor
      · rintro (⟨h₁, h₂⟩ | h)
        · exact ⟨h₁, by rw [h₂, ite_self]⟩
        · exact ⟨(hcov id h).1, if_pos h⟩
      · rintro ⟨h₁, h₂⟩
        split at h₂
        · rename_i hc
          exact .inr hc
        · exact .inl ⟨h₁, h₂⟩
    · rename_i hk
      rw [hv.erased]
      refine and_congr_right ?_
      intro hid
      rw [if_neg (hother k hk id hid)]
  -- observedOnce: a covered work was not observed before
  · intro k
    rw [hobs]
    split
    · rename_i hk
      subst hk
      refine List.nodup_append.mpr ⟨hv.observedOnce k, covered_nodup v k through, ?_⟩
      rintro id hid _ hj rfl
      exact (hcov id hj).2 ((hv.erased k id).mp hid).2
    · exact hv.observedOnce k
  -- rule: own works are covered, or were erased before
  · rw [hlog]
    refine hv.rule.snoc ⟨?_, own, hv.issued key _ hmem, ?_⟩
    · intro j hj
      exact ⟨(mem_covered.mp hj).1, (hcov j hj).1⟩
    · intro j hj
      cases hwj : v.work j with
      | some w => exact .inl (hown j hj w hwj)
      | none =>
          refine .inr ((hv.erased key j).mpr ⟨?_, hwj⟩)
          exact hv.signalled_of_entry (List.mem_flatMap.mpr ⟨_, hmem, hj⟩)

theorem audited_step (hb : Books v) (hr : Recorded v) (ho : Ordered v) (hs : Sited v)
    (hv : Audited v) (h : Micro InTurn v v') : Audited v' := by
  have hnew : ∀ (w₀ : Work), ∀ id < v.nextId,
      update v.work v.nextId (some w₀) id = none ↔ v.work id = none := by
    intro w₀ id hid
    rw [update_of_ne (ne_of_lt hid)]
  have hflag : ∀ {j : Nat} {u u' : Work}, v.work j = some u → ∀ id < v.nextId,
      update v.work j (some u') id = none ↔ v.work id = none := by
    intro j u u' hu id _
    rw [update_apply]
    split
    · rename_i hid
      simp [hid, hu]
    · rfl
  have haside : ∀ {e : Event}, e.Aside → [e] = [] ∨ ∃ e' : Event, [e] = [e'] ∧ e'.Aside :=
    fun he => .inr ⟨_, rfl, he⟩
  cases h with
  | addData w₀ | addSignal w₀ =>
      exact audited_frame hr hv [_] (haside (by simp [Event.Aside])) rfl (fun _ => rfl) (fun _ => rfl)
        (hnew w₀)
  | start | copy | skip =>
      exact audited_frame hr hv [] (.inl rfl) (List.append_nil _).symm
        (update_same Ledger.outstanding (by rfl)) (update_same Ledger.completions (by rfl)) fun _ _ => .rfl
  | reserve key j rest u hid hu hslot hcredit hfence =>
      obtain ⟨hukey, hures⟩ := hb.placed.head hid hu
      exact audited_reserve hr hv hu hukey hures rfl rfl rfl rfl rfl
  | execute _ _ _ _ _ hu | refuse _ _ _ _ _ hu =>
      exact audited_frame hr hv [_] (haside (by simp [Event.Aside])) rfl
        (update_same Ledger.outstanding (by rfl)) (update_same Ledger.completions (by rfl)) (hflag hu)
  | fail _ _ hu | ack _ _ hu =>
      exact audited_frame hr hv [_] (haside (by simp [Event.Aside])) rfl (fun _ => rfl) (fun _ => rfl)
        (hflag hu)
  | signal key hdue hready =>
      refine audited_signal hv ?_ rfl rfl rfl (takeWhile_append_drop _ _).symm rfl
      intro j hj hnone
      have hacked := List.mem_takeWhile_imp hj
      simp only [acked, hnone] at hacked
      cases hacked
  | observe key i through own hdue hdone hi =>
      exact audited_observe ho hs hb.flagged hv hi rfl rfl rfl rfl rfl
  | finish w rest hw hidle =>
      by_cases hlast : v.remaining w.time.requestId - 1 = 0
      · exact audited_frame hr hv [_] (haside (by simp [Event.Aside])) (if_pos hlast) (fun _ => rfl)
          (fun _ => rfl) fun _ _ => .rfl
      · exact audited_frame hr hv [] (.inl rfl) (by simp [hlast]) (fun _ => rfl)
          (fun _ => rfl) fun _ _ => .rfl
  | fence | quieted =>
      exact audited_frame hr hv [_] (haside (by simp [Event.Aside])) rfl (fun _ => rfl) (fun _ => rfl)
        fun _ _ => .rfl
  | _ =>
      exact audited_frame hr hv [] (.inl rfl) (List.append_nil _).symm (fun _ => rfl)
        (fun _ => rfl) fun _ _ => .rfl

/-- Everything that holds of the queue pairs while copies end in turn. -/
structure InOrder (v : View) : Prop where
  ordered : Ordered v
  sited : Sited v
  prompt : Prompt v
  audited : Audited v

theorem inOrder_step (hb : Books v) (hr : Recorded v) (hv : InOrder v) (h : Micro InTurn v v') :
    InOrder v' :=
  ⟨ordered_step hb hv.ordered h, sited_step hb hv.ordered hv.sited h,
    prompt_step hb hv.ordered hv.sited hv.prompt h,
    audited_step hb hr hv.ordered hv.sited hv.audited h⟩

end View

namespace Submission

theorem inOrder_idle (c : Config) : (idle c).ledger.InOrder := by
  refine ⟨?_, ?_, ?_, ?_⟩
  · constructor <;>
      simp [idle, ledger, view, upstream, Qp.ledger, Pool.owed, Ledger.roll, Ledger.entries]
  · constructor <;> simp [idle, ledger, view, Qp.ledger, Ledger.entries]
  · intro key _ _ _
    rfl
  · refine ⟨?_, ?_, ?_, ?_, ?_, ?_, Justified.nil⟩ <;>
      simp [idle, ledger, view, Qp.ledger, reservedIds, signalledIds, observedIds]

theorem inOrder_invariant : (submissionMachine.restrict CopiesInTurn).Invariant fun σ =>
    σ.ledger.Books ∧ σ.ledger.Recorded ∧ σ.ledger.InOrder :=
  history_invariant (fun _ _ h => meetsCopy_of_inTurn h) (fun c _ => inOrder_idle c)
    fun _ _ hb hr hv h => View.inOrder_step hb hr hv h

/-- The accounts of a queue pair are right. The counters count the works that have left the
queue and were not observed; the ledger is in order; every work leaves it once, and is
erased once, under a completion entry that covers it; and an acknowledged work is in the
ledger or covered by an entry on its way. -/
structure Accounted (σ : Submission) (key : QpKey) : Prop where
  occupied : (σ.qps key).occupied = (σ.ledger.held View.anyWork key).card
  depth : (σ.qps key).occupied ≤ σ.config.queueDepth
  readAtomicOccupied : (σ.qps key).readAtomicOccupied = (σ.ledger.held View.creditWork key).card
  credit : (σ.qps key).readAtomicOccupied ≤ σ.config.maxReadAtomic
  noUnderflow : ∀ through, (σ.covered key through).length ≤ (σ.qps key).occupied ∧
    (σ.credited (σ.covered key through)).length ≤ (σ.qps key).readAtomicOccupied
  increasing : (σ.qps key).outstanding.Pairwise (· < ·)
  leaves : reservedIds key σ.log = signalledIds key σ.log ++ (σ.qps key).outstanding ∧
    (reservedIds key σ.log).Nodup
  erased : (observedIds key σ.log).Nodup ∧
    ∀ id, id ∈ observedIds key σ.log ↔ id ∈ signalledIds key σ.log ∧ σ.work id = none
  rule : Justified ObserveRule σ.log
  notStranded : ∀ id w, σ.work id = some w → w.key = key → w.acked = true →
    id ∈ (σ.qps key).outstanding ∨ ∃ e ∈ (σ.qps key).completions, id ∈ e.2 ∧ id ≤ e.1

/-- **Queue-pair accounting**, in every run whose staging copies end in turn. -/
theorem accounted_of_copiesInTurn {σ : Submission}
    (hreach : (submissionMachine.restrict CopiesInTurn).Reachable σ) (key : QpKey) :
    σ.Accounted key := by
  obtain ⟨hb, -, ho, hs, -, ha⟩ := inOrder_invariant σ hreach
  have hc := hb.counted
  refine ⟨hc.occupied key, hc.depth key, hc.readAtomicOccupied key, hc.credit key, ?_, ?_,
    ⟨ha.leaves key, ha.once key⟩, ⟨ha.observedOnce key, ?_⟩, ha.rule, ?_⟩
  · intro through
    have hle := View.covered_le hb.numbered hb.flagged hc key through
    rw [ledger, credited_view, covered_view] at hle
    exact hle
  · exact (List.pairwise_append.mp (List.pairwise_append.mp (ho.sorted key)).1).2.1
  · intro id
    have herased := ha.erased key id
    simpa [ledger, view] using herased
  · intro id w hw hk hacked
    have hslot := hb.flagged.reserved_of_acked (view_work_eq hw) hacked
    rcases hs.held id w.core (view_work_eq hw) hslot with h | h
    · exact .inl (hk ▸ h)
    · obtain ⟨e, he, hid⟩ := List.mem_flatMap.mp h
      replace he : e ∈ (σ.qps w.key).completions := he
      rw [hk] at he
      exact .inr ⟨e, he, hid, ho.le_through he hid⟩

/-- The TLP model with staging. -/
def stagedConfig : Config := { pcieModel := .tlp, dataPath := .staged }

/-- Two staged writes whose copies end in turn are both outstanding, and accounted for. -/
theorem accounted_of_copiesInTurn_twoWrites :
    ∃ σ, (submissionMachine.restrict CopiesInTurn).Reachable σ ∧
      (σ.qps (1, 0)).outstanding = [1, 2] ∧ (σ.qps (1, 0)).occupied = 2 ∧ σ.Accounted (1, 0) := by
  have hrun : ((submissionMachine.restrict CopiesInTurn).runs (idle stagedConfig)
      [.submit .write 1 512 none, .submit .write 1 4 none, .copied 0, .copied 0]).map
        (fun σ => decide ((σ.qps (1, 0)).outstanding = [1, 2] ∧ (σ.qps (1, 0)).occupied = 2)) =
      some true := by
    decide +kernel
  have hinit : (submissionMachine.restrict CopiesInTurn).init (idle stagedConfig) :=
    ⟨_, by decide, rfl⟩
  obtain ⟨σ, hreach, hσ⟩ := Machine.Reachable.exists_of_runs hinit hrun
  obtain ⟨hout, hocc⟩ := of_decide_eq_true hσ
  exact ⟨σ, hreach, hout, hocc, accounted_of_copiesInTurn hreach (1, 0)⟩

/-- Two staged writes on one queue pair whose copies end in the wrong order: the short one is let past
while the long one waits for posted data credits. It is given the first slot; one completion entry
serves both, names the first write as the last, and leaves the second. -/
def overtakenRun : List Act :=
  [.submit .write 1 512 none, .submit .write 1 4 none, .copied 1, .copied 0, .publish (1, 0),
    .fetchPublished 0, .fetched 0, .publish (1, 0), .fetchPublished 0, .fetched 0,
    .notifyOperationComplete 1 true, .notifyOperationComplete 2 true, .completionWritten (1, 0) 0]

/-- Every completion entry has been observed, nothing is outstanding, and an acknowledged
work is still there. -/
theorem workStranded_overtakenRun : ¬ ∀ σ, submissionMachine.Reachable σ → ∀ key, σ.Accounted key := by
  intro hall
  have hrun : (submissionMachine.runs (idle stagedConfig) overtakenRun).map
      (fun σ => decide ((σ.qps (1, 0)).outstanding = [] ∧ (σ.qps (1, 0)).completions = [] ∧
        (σ.work 2).map (fun w => (w.key, w.acked)) = some ((1, 0), true))) = some true := by
    decide +kernel
  have hinit : submissionMachine.init (idle stagedConfig) := ⟨_, by decide, rfl⟩
  obtain ⟨σ, hreach, hσ⟩ := Machine.Reachable.exists_of_runs hinit hrun
  obtain ⟨hout, hcomp, hwork⟩ := of_decide_eq_true hσ
  obtain ⟨w, hw, hflags⟩ := Option.map_eq_some_iff.mp hwork
  simp only [Prod.mk.injEq] at hflags
  rcases (hall σ hreach (1, 0)).notStranded 2 w hw hflags.1 hflags.2 with h | ⟨e, he, -⟩
  · simp [hout] at h
  · simp [hcomp] at he

end Submission

end ProtoBridge.Rdma
