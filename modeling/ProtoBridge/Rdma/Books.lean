import ProtoBridge.Rdma.Steps

/-!
# What every run of the submission model keeps

Invariants of the ledger that need no assumption on the order in which copies end: works
have their own numbers, flags are set in one order, every work is in one place until it
gets a slot, and the two counters of a queue pair count exactly the works that hold one.
-/

namespace ProtoBridge.Rdma

open Lib Relation
open Function (update update_apply update_of_ne update_self)

namespace View

variable {C : View → Nat → Prop} {v v' : View} {id : Nat} {w w' : Work} {key : QpKey}

/-! ## Works -/

/-- A step sets flags of a work and changes nothing else of it. -/
structure Grows (w w' : Work) : Prop where
  time : w'.time = w.time
  fenceThrough : w'.fenceThrough = w.fenceThrough
  reserved : w.reserved = true → w'.reserved = true
  acked : w.acked = true → w'.acked = true

theorem Grows.refl (w : Work) : Grows w w := ⟨rfl, rfl, fun h => h, fun h => h⟩

theorem work_of_step (h : Micro C v v') (hw : v'.work id = some w') :
    (∃ w, v.work id = some w ∧ Grows w w') ∨
      (id = v.nextId ∧ v'.nextId = v.nextId + 1 ∧ w'.time.id = id ∧ w'.reserved = false ∧
        w'.acked = false ∧ w'.executed = false ∧ w'.failed = false) := by
  have hupdate : ∀ {j : Nat} {u u' : Work}, v.work j = some u → Grows u u' →
      update v.work j (some u') id = some w' →
      ∃ w, v.work id = some w ∧ Grows w w' := by
    intro j u u' hu hgrow hup
    rcases update_eq hup with ⟨rfl, ⟨⟩⟩ | ⟨-, hup⟩
    · exact ⟨u, hu, hgrow⟩
    · exact ⟨w', hup, .refl w'⟩
  cases h with
  | addData _ _ hid _ _ hflags | addSignal _ hid _ _ hflags =>
      rcases update_eq hw with ⟨rfl, ⟨⟩⟩ | ⟨-, hw⟩
      · exact .inr ⟨rfl, rfl, hid, hflags.2.2.1, hflags.1, hflags.2.2.2, hflags.2.1⟩
      · exact .inl ⟨w', hw, .refl w'⟩
  | reserve key j rest u hid hu hslot hcredit hfence =>
      refine .inl (hupdate hu ?_ hw)
      exact ⟨rfl, rfl, fun _ => rfl, fun h => h⟩
  | execute _ _ _ _ _ hu | refuse _ _ _ _ _ hu | fail _ _ hu =>
      refine .inl (hupdate hu ?_ hw)
      exact ⟨rfl, rfl, fun h => h, fun h => h⟩
  | ack j u hu hex hok hdue hr =>
      refine .inl (hupdate hu ?_ hw)
      exact ⟨rfl, rfl, fun h => h, fun _ => rfl⟩
  | observe key i through ids hdue hdone hi =>
      simp only [View.record, View.setQp] at hw
      split at hw
      · cases hw
      · exact .inl ⟨w', hw, .refl w'⟩
  | _ => exact .inl ⟨w', hw, .refl w'⟩

theorem nextId_mono (h : Micro C v v') : v.nextId ≤ v'.nextId := by
  cases h <;> simp [View.record, View.setQp, View.setWork]

theorem fence_of_step (h : Micro C v v') (hw : v'.work id = some w')
    (hnew : v.work id = none) (hfences : ∀ p, v.fences p < v.nextId) (hpos : 0 < v.nextId) :
    w'.fenceThrough < v.nextId := by
  have hupdate : ∀ {j : Nat} {u u' : Work}, v.work j = some u →
      update v.work j (some u') id ≠ some w' := by
    intro j u u' hu hup
    by_cases hj : id = j
    · subst hj
      rw [hnew] at hu
      cases hu
    · rw [update_of_ne hj, hnew] at hup
      cases hup
  cases h with
  | addData w₀ raw hid hreq hpeer hflags hopen hop hraw hfence =>
      rcases update_eq hw with ⟨rfl, ⟨⟩⟩ | ⟨-, hw⟩
      · rw [hfence]
        exact max_lt (hfences _) hraw
      · rw [hnew] at hw
        cases hw
  | addSignal w₀ hid hreq hpeer hflags hopen hop hfence =>
      rcases update_eq hw with ⟨rfl, ⟨⟩⟩ | ⟨-, hw⟩
      · omega
      · rw [hnew] at hw
        cases hw
  | reserve _ _ _ _ _ hu | execute _ _ _ _ _ hu | refuse _ _ _ _ _ hu | fail _ _ hu | ack _ _ hu =>
      exact absurd hw (hupdate hu)
  | observe key i through ids hdue hdone hi =>
      simp only [View.record, View.setQp] at hw
      split at hw
      · cases hw
      · rw [hnew] at hw
        cases hw
  | _ =>
      simp only [View.record, View.setQp] at hw
      rw [hnew] at hw
      cases hw

/-- Works are known by numbers below the next one, fences look back only, and what the
configuration leaves unused is empty. -/
structure Numbered (v : View) : Prop where
  pos : 0 < v.nextId
  stray : ∀ key, (v.qps key).stray = []
  idle : Submission.handoffDelay v.config = 0 → v.handoffs = []
  fences : ∀ p, v.fences p < v.nextId
  works : ∀ id w, v.work id = some w →
    w.time.id = id ∧ 0 < id ∧ id < v.nextId ∧ w.fenceThrough < id

theorem numbered_step (hv : Numbered v) (h : Micro C v v') : Numbered v' := by
  refine ⟨lt_of_lt_of_le hv.pos (nextId_mono h), ?_, ?_, ?_, ?_⟩
  · intro key
    rw [(Submission.stray_step h).1, hv.stray]
  · cases h with
    | regroup h hh =>
        intro h0
        rcases hh h0 with rfl | rfl
        · exact hv.idle h0
        · simp [hv.idle h0]
    | _ => exact hv.idle
  -- fences
  · intro p
    have hle := nextId_mono h
    cases h with
    | fence peer =>
        have hpos := hv.pos
        have hold := hv.fences p
        simp only [View.record, update_apply]
        split <;> omega
    | _ => exact lt_of_lt_of_le (hv.fences p) hle
  -- works
  · intro id w' hw'
    have hle := nextId_mono h
    cases hold : v.work id with
    | some w =>
        rcases work_of_step h hw' with ⟨w₁, hw₁, hgrow⟩ | ⟨rfl, -, -⟩
        · obtain ⟨h1, h2, h3, h4⟩ := hv.works id w₁ hw₁
          exact ⟨hgrow.time ▸ h1, h2, lt_of_lt_of_le h3 hle, hgrow.fenceThrough ▸ h4⟩
        · exact absurd (hv.works _ w hold).2.2.1 (lt_irrefl _)
    | none =>
        have hfence := fence_of_step h hw' hold hv.fences hv.pos
        rcases work_of_step h hw' with ⟨w₁, hw₁, -⟩ | ⟨rfl, hnext, hid, -⟩
        · rw [hold] at hw₁
          cases hw₁
        · exact ⟨hid, hv.pos, by omega, hfence⟩

/-! ## Flags -/

variable {j through : Nat} {u : Work} {ids rest : List Nat} {q : Ledger}

theorem forall_update {P : Nat → Work → Prop} {f : Nat → Option Work}
    (hold : ∀ id w, f id = some w → P id w) (hnew : P j u) :
    ∀ id w, update f j (some u) id = some w → P id w := by
  intro id w hw
  rcases update_eq hw with ⟨rfl, ⟨⟩⟩ | ⟨-, hw⟩
  · exact hnew
  · exact hold id w hw

/-- Flags are set in one order. The line of a queue pair holds its works that have a slot
and were not executed, once each. -/
structure Flagged (v : View) : Prop where
  order : ∀ id w, v.work id = some w → (w.acked = true → w.executed = true) ∧
    (w.executed = true → w.reserved = true) ∧ (w.failed = true → w.executed = true)
  line : ∀ key, ∀ id ∈ (v.qps key).line, ∃ w, v.work id = some w ∧ w.key = key ∧
    w.reserved = true ∧ w.executed = false
  once : ∀ key, (v.qps key).line.Nodup

theorem Flagged.reserved_of_acked (hv : Flagged v) (hw : v.work id = some w) (h : w.acked = true) :
    w.reserved = true :=
  (hv.order id w hw).2.1 ((hv.order id w hw).1 h)

theorem Flagged.head (hv : Flagged v) (hid : (v.qps key).line = id :: rest)
    (hw : v.work id = some w) : w.key = key ∧ w.reserved = true ∧ w.executed = false := by
  obtain ⟨w', hw', hrest⟩ := hv.line key id (hid ▸ List.mem_cons_self)
  rw [hw] at hw'
  cases hw'
  exact hrest

theorem mem_covered :
    id ∈ v.covered key through ↔ id ≤ through ∧ ∃ w, v.work id = some w ∧ w.key = key ∧
      w.acked = true := by
  simp only [covered, List.mem_filter, List.mem_range, Nat.lt_succ_iff]
  cases v.work id with
  | none => simp
  | some w => simp

theorem untouched (hn : Numbered v) (hf : Flagged v) (h : Micro C v v') (hw : v.work id = some w)
    (hres : w.reserved = false) :
    v'.work id = some w ∨ ∃ key, v'.log = v.log ++ [.reserved key id] := by
  have hother : ∀ {j : Nat} {u u' : Work}, v.work j = some u → u.reserved = true →
      update v.work j (some u') id = some w := by
    intro j u u' hu hr
    have hne : id ≠ j := by
      rintro rfl
      rw [hw] at hu
      cases hu
      rw [hres] at hr
      cases hr
    rw [update_of_ne hne, hw]
  have hold : id ≠ v.nextId := ne_of_lt (hn.works id w hw).2.2.1
  cases h with
  | addData | addSignal =>
      left
      simp only [update_of_ne hold, hw]
  | reserve key j rest u hid hu hslot hcredit hfence =>
      by_cases hj : id = j
      · subst hj
        exact .inr ⟨key, rfl⟩
      · left
        simp only [View.record, View.setQp, View.setWork, update_of_ne hj, hw]
  | execute _ _ _ _ hid hu | refuse _ _ _ _ hid hu => exact .inl (hother hu (hf.head hid hu).2.1)
  | fail j u hu hex | ack j u hu hex => exact .inl (hother hu ((hf.order j u hu).2.1 hex))
  | observe key i through ids hdue hdone hi =>
      left
      simp only [View.record, View.setQp]
      rw [if_neg ?_, hw]
      intro hcov
      obtain ⟨-, u, hu, -, hacked⟩ := mem_covered.mp hcov
      rw [hw] at hu
      cases hu
      have hslot := hf.reserved_of_acked hw hacked
      rw [hres] at hslot
      cases hslot
  | _ => exact .inl hw

/-! ## Places -/

theorem mem_insertId : j ∈ Submission.insertId id ids ↔ j = id ∨ j ∈ ids := by
  induction ids with
  | nil => simp [Submission.insertId]
  | cons x ids ih =>
      simp only [Submission.insertId]
      split
      · simp
      · simp only [List.mem_cons, ih]
        tauto

theorem sorted_insertId (h : ids.Pairwise (· < ·)) (hid : id ∉ ids) :
    (Submission.insertId id ids).Pairwise (· < ·) := by
  induction ids with
  | nil => simp [Submission.insertId]
  | cons x ids ih =>
      obtain ⟨hx, hrest⟩ := List.pairwise_cons.mp h
      simp only [List.mem_cons, not_or] at hid
      simp only [Submission.insertId]
      split
      · rename_i hlt
        refine List.pairwise_cons.mpr ⟨?_, h⟩
        intro y hy
        rcases List.mem_cons.mp hy with rfl | hy
        · exact hlt
        · exact hlt.trans (hx y hy)
      · refine List.pairwise_cons.mpr ⟨?_, ih hrest hid.2⟩
        intro y hy
        rcases mem_insertId.mp hy with rfl | hy
        · omega
        · exact hx y hy

/-- A work of this queue pair without a slot. -/
def Idle (v : View) (key : QpKey) (id : Nat) : Prop :=
  ∃ w, v.work id = some w ∧ w.key = key ∧ w.reserved = false

/-- A work without a slot is in its queue or on the way to it, once. -/
structure Placed (v : View) : Prop where
  waiting : ∀ key, ∀ id ∈ (v.qps key).waiting, v.Idle key id
  sorted : ∀ key, (v.qps key).waiting.Pairwise (· < ·)
  outside : ∀ id, id ∈ v.starting ∨ id ∈ v.upstream →
    (∃ key, v.Idle key id) ∧ ∀ key, id ∉ (v.qps key).waiting
  once : ((v.starting : Multiset Nat) + v.upstream).Nodup

theorem placed_enqueue (hv : Placed v) (hw : v.work id = some w) {starting : List Nat}
    {upstream : Multiset Nat}
    (hperm : (v.starting : Multiset Nat) + v.upstream = id ::ₘ ((starting : Multiset Nat) + upstream)) :
    Placed (View.setQp { v with starting := starting, upstream := upstream } w.key
      { v.qps w.key with waiting := Submission.insertId id (v.qps w.key).waiting }) := by
  have hnodup : (id ::ₘ ((starting : Multiset Nat) + upstream)).Nodup := hperm ▸ hv.once
  obtain ⟨hfresh, hrest⟩ := Multiset.nodup_cons.mp hnodup
  have hwas : ∀ j, j ∈ v.starting ∨ j ∈ v.upstream ↔
      j = id ∨ j ∈ starting ∨ j ∈ upstream := by
    intro j
    have hmem := Multiset.ext.mp hperm j
    have hiff : j ∈ (v.starting : Multiset Nat) + v.upstream ↔
        j ∈ id ::ₘ ((starting : Multiset Nat) + upstream) := by rw [hperm]
    simpa only [Multiset.mem_add, Multiset.mem_coe, Multiset.mem_cons] using hiff
  obtain ⟨⟨k₀, w₀, hw₀, -, hres⟩, hnot⟩ := hv.outside id ((hwas id).mpr (.inl rfl))
  rw [hw] at hw₀
  cases hw₀
  refine ⟨?_, ?_, ?_, hrest⟩
  · intro key j hj
    by_cases hk : key = w.key
    · subst hk
      simp only [View.setQp, update_self] at hj
      rcases mem_insertId.mp hj with rfl | hj
      · exact ⟨w, hw, rfl, hres⟩
      · exact hv.waiting _ j hj
    · simp only [View.setQp, update_of_ne hk] at hj
      exact hv.waiting key j hj
  · apply (Function.forall_update_iff v.qps fun _ q => q.waiting.Pairwise (· < ·)).mpr
    exact ⟨sorted_insertId (hv.sorted _) (hnot _), fun key _ => hv.sorted key⟩
  · intro j hj
    obtain ⟨hidle, hj'⟩ := hv.outside j ((hwas j).mpr (.inr hj))
    refine ⟨hidle, (Function.forall_update_iff v.qps fun _ q => j ∉ q.waiting).mpr ⟨?_, fun key _ => hj' key⟩⟩
    intro hin
    rcases mem_insertId.mp hin with rfl | hin
    · replace hj : j ∈ starting ∨ j ∈ upstream := hj
      exact hfresh (by simpa using hj)
    · exact hj' _ hin

theorem Placed.head (h : Placed v) (hid : (v.qps key).waiting = j :: rest) (hu : v.work j = some u)
    : u.key = key ∧ u.reserved = false := by
  obtain ⟨u', hu', hwork⟩ := h.waiting key j (hid ▸ List.mem_cons_self)
  rw [hu] at hu'
  cases hu'
  exact hwork

theorem placed_add (hn : Numbered v) (hv : Placed v) (work : Nat → Option Work)
    (hsame : ∀ id w, v.work id = some w → work id = some w)
    (hnew : ∃ w, work v.nextId = some w ∧ w.reserved = false) :
    Placed { v with work := work, starting := v.starting ++ [v.nextId] } := by
  have hidle : ∀ key id, v.Idle key id →
      View.Idle { v with work := work, starting := v.starting ++ [v.nextId] } key id := by
    rintro key id ⟨w, hw, hrest⟩
    exact ⟨w, hsame id w hw, hrest⟩
  have hfresh : ∀ key, ¬ v.Idle key v.nextId := by
    rintro key ⟨w, hw, -⟩
    exact absurd (hn.works _ w hw).2.2.1 (lt_irrefl _)
  obtain ⟨w₀, hw₀, hres₀⟩ := hnew
  refine ⟨fun key id hid => hidle key id (hv.waiting key id hid), hv.sorted, ?_, ?_⟩
  · intro id hid
    simp only [List.mem_append, List.mem_singleton] at hid
    rcases hid with (hid | rfl) | hid
    · obtain ⟨⟨key, hk⟩, hnot⟩ := hv.outside id (.inl hid)
      exact ⟨⟨key, hidle key id hk⟩, hnot⟩
    · refine ⟨⟨w₀.key, w₀, hw₀, rfl, hres₀⟩, ?_⟩
      intro key hin
      exact hfresh key (hv.waiting key _ hin)
    · obtain ⟨⟨key, hk⟩, hnot⟩ := hv.outside id (.inr hid)
      exact ⟨⟨key, hidle key id hk⟩, hnot⟩
  · have hperm : ((v.starting ++ [v.nextId] : List Nat) : Multiset Nat) + v.upstream =
        v.nextId ::ₘ ((v.starting : Multiset Nat) + v.upstream) := by
      rw [← Multiset.coe_add, Multiset.coe_singleton, ← Multiset.singleton_add]
      ac_rfl
    refine hperm ▸ Multiset.nodup_cons.mpr ⟨?_, hv.once⟩
    intro hin
    obtain ⟨⟨key, hk⟩, -⟩ := hv.outside v.nextId (by simpa using hin)
    exact hfresh key hk

theorem placed_step (hn : Numbered v) (hf : Flagged v) (hv : Placed v) (h : Micro C v v') :
    Placed v' := by
  -- a step that reserves nothing leaves idle works idle
  have hidle : (∀ key id, v'.log ≠ v.log ++ [.reserved key id]) →
      ∀ key id, v.Idle key id → v'.Idle key id := by
    rintro hlog key id ⟨w, hw, hk, hres⟩
    rcases untouched hn hf h hw hres with hw' | ⟨key', hlog'⟩
    · exact ⟨w, hw', hk, hres⟩
    · exact absurd hlog' (hlog key' id)
  have hframe : (∀ key id, v'.log ≠ v.log ++ [.reserved key id]) →
      (∀ key, (v'.qps key).waiting = (v.qps key).waiting) → v'.starting = v.starting →
      v'.upstream = v.upstream → Placed v' := by
    intro hlog hq hs hu
    have hi := hidle hlog
    refine ⟨?_, ?_, ?_, hs ▸ hu ▸ hv.once⟩
    · intro key id hid
      exact hi key id (hv.waiting key id (hq key ▸ hid))
    · intro key
      exact hq key ▸ hv.sorted key
    · intro id hid
      rw [hs, hu] at hid
      obtain ⟨⟨key, hk⟩, hnot⟩ := hv.outside id hid
      exact ⟨⟨key, hi key id hk⟩, fun key' => hq key' ▸ hnot key'⟩
  cases h with
  | addData w₀ _ _ _ _ hflags | addSignal w₀ _ _ _ hflags =>
      have hadd := placed_add hn hv (update v.work v.nextId (some w₀)) ?_
        ⟨w₀, update_self .., hflags.2.2.1⟩
      · exact ⟨hadd.waiting, hadd.sorted, hadd.outside, hadd.once⟩
      · intro id w hw
        rw [update_of_ne (ne_of_lt (hn.works id w hw).2.2.1), hw]
  | start id rest w hid hw =>
      refine placed_enqueue hv hw ?_
      rw [hid, ← Multiset.cons_coe, Multiset.cons_add]
  | stage id rest w hid hw =>
      have hperm : (v.starting : Multiset Nat) + v.upstream =
          (rest : Multiset Nat) + (v.upstream + {id}) := by
        rw [hid, ← Multiset.cons_coe, ← Multiset.singleton_add]
        ac_rfl
      refine ⟨hv.waiting, hv.sorted, ?_, hperm ▸ hv.once⟩
      intro j hj
      refine hv.outside j ?_
      simp only [Multiset.mem_add, Multiset.mem_singleton] at hj
      rw [hid, List.mem_cons]
      tauto
  | copy id w hid hw hC =>
      refine placed_enqueue hv hw ?_
      nth_rewrite 1 [← Multiset.cons_erase hid]
      rw [Multiset.add_cons]
  | reserve key j rest u hid hu hslot hcredit hfence =>
      -- the first of the queue leaves it; every other idle work is still idle
      have hother : ∀ k id, id ≠ j → v.Idle k id →
          View.Idle (v.setWork j { u with reserved := true }) k id := by
        rintro k id hne ⟨w, hw, hrest⟩
        refine ⟨w, ?_, hrest⟩
        simp only [View.setWork, update_of_ne hne, hw]
      have hsorted := hv.sorted key
      rw [hid] at hsorted
      have hhead : ∀ id ∈ rest, id ≠ j := by
        intro id hin
        exact ne_of_gt ((List.pairwise_cons.mp hsorted).1 id hin)
      have hjkey : ∀ k, j ∈ (v.qps k).waiting → k = key := by
        intro k hin
        obtain ⟨w₁, hw₁, hk₁, -⟩ := hv.waiting k j hin
        obtain ⟨w₂, hw₂, hk₂, -⟩ := hv.waiting key j (hid ▸ List.mem_cons_self)
        rw [hw₁] at hw₂
        cases hw₂
        exact hk₁.symm.trans hk₂
      refine ⟨?_, ?_, ?_, hv.once⟩
      · intro k id hin
        by_cases hk : k = key
        · subst hk
          simp only [View.record, View.setQp, update_self] at hin
          exact hother k id (hhead id hin) (hv.waiting k id (hid ▸ List.mem_cons_of_mem _ hin))
        · simp only [View.record, View.setQp, update_of_ne hk] at hin
          refine hother k id ?_ (hv.waiting k id hin)
          rintro rfl
          exact hk (hjkey k hin)
      · intro k
        by_cases hk : k = key
        · subst hk
          simp only [View.record, View.setQp, update_self]
          exact (List.pairwise_cons.mp hsorted).2
        · simp only [View.record, View.setQp, update_of_ne hk]
          exact hv.sorted k
      · intro id hin
        obtain ⟨⟨k, hk⟩, hnot⟩ := hv.outside id hin
        have hne : id ≠ j := by
          rintro rfl
          exact hnot key (hid ▸ List.mem_cons_self)
        refine ⟨⟨k, hother k id hne hk⟩, ?_⟩
        intro k' hin'
        by_cases hk' : k' = key
        · subst hk'
          simp only [View.record, View.setQp, update_self] at hin'
          exact hnot k' (hid ▸ List.mem_cons_of_mem _ hin')
        · simp only [View.record, View.setQp, update_of_ne hk'] at hin'
          exact hnot k' hin'
  | finish w rest hw =>
      refine hframe ?_ (fun _ => rfl) rfl rfl
      intro key id
      simp only
      split <;> simp
  | execute | refuse =>
      exact hframe (by simp [View.record, View.setQp, View.setWork]) (update_same Ledger.waiting (by rfl)) rfl rfl
  | skip key j rest hid hw => exact hframe (by simp [View.setQp]) (update_same Ledger.waiting (by rfl)) rfl rfl
  | signal | observe =>
      exact hframe (by simp [View.record, View.setQp]) (update_same Ledger.waiting (by rfl)) rfl rfl
  | _ => exact hframe (by simp [View.record, View.setWork]) (fun _ => rfl) rfl rfl

/-- A work that was not executed is left alone by every step but those that give it a
slot or execute it. -/
theorem unexecuted (hn : Numbered v) (hf : Flagged v) (h : Micro C v v') (hw : v.work id = some w)
    (hex : w.executed = false) :
    v'.work id = some w ∨ (∃ key, v'.log = v.log ++ [.reserved key id]) ∨
      ∃ b, v'.log = v.log ++ [.executed id b] := by
  have hother : ∀ {j : Nat} {u u' : Work}, v.work j = some u → u.executed = true →
      update v.work j (some u') id = some w := by
    intro j u u' hu hx
    have hne : id ≠ j := by
      rintro rfl
      rw [hw] at hu
      cases hu
      rw [hex] at hx
      cases hx
    rw [update_of_ne hne, hw]
  have hold : id ≠ v.nextId := ne_of_lt (hn.works id w hw).2.2.1
  have hswap : ∀ {j : Nat} {u' : Work}, id ≠ j →
      update v.work j (some u') id = some w := by
    intro j u' hne
    rw [update_of_ne hne, hw]
  cases h with
  | addData | addSignal => exact .inl (hswap hold)
  | reserve key j rest u hid hu hslot hcredit hfence =>
      by_cases hj : id = j
      · subst hj
        exact .inr (.inl ⟨key, rfl⟩)
      · exact .inl (hswap hj)
  | execute key j rest u hid hu hr hok =>
      by_cases hj : id = j
      · subst hj
        exact .inr (.inr ⟨true, rfl⟩)
      · exact .inl (hswap hj)
  | refuse key j rest u hid hu hr hop hbad =>
      by_cases hj : id = j
      · subst hj
        exact .inr (.inr ⟨false, rfl⟩)
      · exact .inl (hswap hj)
  | fail j u hu hx hok => exact .inl (hother hu hx)
  | ack j u hu hx hok hdue hr => exact .inl (hother hu hx)
  | observe key i through ids hdue hdone hi =>
      left
      simp only [View.record, View.setQp]
      rw [if_neg ?_, hw]
      intro hcov
      obtain ⟨-, u, hu, -, hacked⟩ := mem_covered.mp hcov
      rw [hw] at hu
      cases hu
      have hx := (hf.order id w hw).1 hacked
      rw [hex] at hx
      cases hx
  | _ => exact .inl hw

theorem flagged_pop (hv : Flagged v) (work : Nat → Option Work)
    (hid : (v.qps key).line = id :: rest)
    (horder : ∀ id w, work id = some w → (w.acked = true → w.executed = true) ∧
      (w.executed = true → w.reserved = true) ∧ (w.failed = true → w.executed = true))
    (hsame : ∀ j, j ≠ id → work j = v.work j) :
    Flagged (View.setQp { v with work := work } key { v.qps key with line := rest }) := by
  have hnodup := hv.once key
  rw [hid] at hnodup
  obtain ⟨hfresh, hrest⟩ := List.nodup_cons.mp hnodup
  have hline : ∀ k j, j ≠ id → j ∈ (v.qps k).line →
      ∃ w, work j = some w ∧ w.key = k ∧ w.reserved = true ∧ w.executed = false := by
    intro k j hne hj
    obtain ⟨w, hw, hprops⟩ := hv.line k j hj
    exact ⟨w, (hsame j hne).trans hw, hprops⟩
  refine ⟨horder, ?_, ?_⟩ <;> intro k
  · intro j hj
    by_cases hk : k = key
    · subst hk
      simp only [View.setQp, update_self] at hj
      refine hline k j ?_ (hid ▸ List.mem_cons_of_mem _ hj)
      rintro rfl
      exact hfresh hj
    · simp only [View.setQp, update_of_ne hk] at hj
      refine hline k j ?_ hj
      rintro rfl
      -- the work goes through one queue pair only
      obtain ⟨w₁, hw₁, hk₁, -⟩ := hv.line k j hj
      obtain ⟨w₂, hw₂, hk₂, -⟩ := hv.line key j (hid ▸ List.mem_cons_self)
      rw [hw₁] at hw₂
      cases hw₂
      exact hk (hk₁.symm.trans hk₂)
  · exact (Function.forall_update_iff v.qps fun _ q => q.line.Nodup).mpr ⟨hrest, fun k _ => hv.once k⟩ k

theorem flagged_step (hn : Numbered v) (hv : Flagged v) (hp : Placed v) (h : Micro C v v') :
    Flagged v' := by
  have hframe : (∀ key id, v'.log ≠ v.log ++ [.reserved key id]) →
      (∀ id b, v'.log ≠ v.log ++ [.executed id b]) →
      (∀ key, (v'.qps key).line = (v.qps key).line) →
      (∀ id w, v'.work id = some w → (w.acked = true → w.executed = true) ∧
        (w.executed = true → w.reserved = true) ∧ (w.failed = true → w.executed = true)) →
      Flagged v' := by
    intro hres hexe hline horder
    refine ⟨horder, ?_, fun key => hline key ▸ hv.once key⟩
    intro key id hid
    obtain ⟨w, hw, hk, hr, hx⟩ := hv.line key id (hline key ▸ hid)
    rcases unexecuted hn hv h hw hx with hw' | ⟨key', hlog⟩ | ⟨b, hlog⟩
    · exact ⟨w, hw', hk, hr, hx⟩
    · exact absurd hlog (hres key' id)
    · exact absurd hlog (hexe id b)
  cases h with
  | addData _ _ _ _ _ hflags | addSignal _ _ _ _ hflags =>
      refine hframe (by simp) (by simp) (fun _ => rfl) (forall_update hv.order ?_)
      simp [hflags]
  | start | copy =>
      exact hframe (by simp [View.setQp]) (by simp [View.setQp]) (update_same Ledger.line (by rfl)) hv.order
  | reserve key j rest u hid hu hslot hcredit hfence =>
      obtain ⟨h1, h2, h3⟩ := hv.order j u hu
      obtain ⟨hukey, hures⟩ := hp.head hid hu
      have huexe : u.executed = false := by
        by_contra hx
        rw [h2 (by simpa using hx)] at hures
        cases hures
      have hfresh : ∀ k, j ∉ (v.qps k).line := by
        intro k hj
        obtain ⟨w, hw, -, hr, -⟩ := hv.line k j hj
        rw [hu] at hw
        cases hw
        rw [hures] at hr
        cases hr
      refine ⟨forall_update hv.order ⟨h1, fun _ => rfl, h3⟩, ?_, ?_⟩ <;> intro k
      · intro id hin
        by_cases hj : id = j
        · subst hj
          refine ⟨_, update_self .., ?_, rfl, huexe⟩
          by_cases hk : k = key
          · exact hk ▸ hukey
          · simp only [View.record, View.setQp, update_of_ne hk] at hin
            exact absurd hin (hfresh k)
        · have hin' : id ∈ (v.qps k).line := by
            by_cases hk : k = key
            · subst hk
              simp only [View.record, View.setQp, update_self, List.mem_append,
                List.mem_singleton] at hin
              exact hin.resolve_right hj
            · simpa only [View.record, View.setQp, View.setWork, update_of_ne hk] using hin
          obtain ⟨w, hw, hprops⟩ := hv.line k id hin'
          exact ⟨w, (update_of_ne hj ..).trans hw, hprops⟩
      · refine (Function.forall_update_iff v.qps fun _ q => q.line.Nodup).mpr ⟨?_, fun k _ => hv.once k⟩ k
        refine List.nodup_append.mpr ⟨hv.once key, List.nodup_singleton j, ?_⟩
        intro a ha b hb hab
        cases List.mem_singleton.mp hb
        exact hfresh key (hab ▸ ha)
  | execute _ j _ u hid hu | refuse _ j _ u hid hu =>
      have hpop := flagged_pop hv (update v.work j (some { u with executed := true }))
        hid (forall_update hv.order ⟨fun _ => rfl, fun _ => (hv.head hid hu).2.1, fun _ => rfl⟩)
        (fun i hi => update_of_ne hi ..)
      exact ⟨hpop.order, hpop.line, hpop.once⟩
  | skip key j rest hid hw => exact flagged_pop hv _ hid hv.order fun _ _ => rfl
  | fail j u hu hex hok =>
      obtain ⟨h1, h2, h3⟩ := hv.order j u hu
      exact hframe (by simp [View.record, View.setWork]) (by simp [View.record, View.setWork])
        (fun _ => rfl) (forall_update hv.order ⟨h1, h2, fun _ => hex⟩)
  | ack j u hu hex hok hdue hr =>
      obtain ⟨h1, h2, h3⟩ := hv.order j u hu
      exact hframe (by simp [View.record, View.setWork]) (by simp [View.record, View.setWork])
        (fun _ => rfl) (forall_update hv.order ⟨fun _ => hex, h2, h3⟩)
  | signal key hdue hready =>
      exact hframe (by simp [View.record, View.setQp]) (by simp [View.record, View.setQp])
        (update_same Ledger.line (by rfl)) hv.order
  | observe key i through ids hdue hdone hi =>
      refine hframe (by simp [View.record, View.setQp]) (by simp [View.record, View.setQp])
        (update_same Ledger.line (by rfl)) ?_
      intro id w hw
      simp only [View.record, View.setQp] at hw
      split at hw
      · cases hw
      · exact hv.order id w hw
  | finish w rest hw =>
      refine hframe ?_ ?_ (fun _ => rfl) hv.order
      · intro key id
        simp only
        split <;> simp
      · intro id b
        simp only
        split <;> simp
  | _ => exact hframe (by simp [View.record]) (by simp [View.record]) (fun _ => rfl) hv.order

/-! ## Slots -/

variable {f : WorkTiming → Bool}

/-- The work holds a slot of the queue pair, and is of the kind counted. -/
def holds (v : View) (f : WorkTiming → Bool) (key : QpKey) (id : Nat) : Bool :=
  match v.work id with
  | some w => w.key == key && w.reserved && f w.time
  | none => false

/-- The works that hold a slot. -/
def held (v : View) (f : WorkTiming → Bool) (key : QpKey) : Finset Nat :=
  (Finset.range v.nextId).filter fun id => v.holds f key id = true

/-- Every work counts. -/
def anyWork : WorkTiming → Bool := fun _ => true

/-- Works that take a read/atomic credit count. -/
def creditWork : WorkTiming → Bool := fun t => t.opcode.usesReadAtomicCredit

theorem holds_iff : v.holds f key id = true ↔
    ∃ w, v.work id = some w ∧ w.key = key ∧ w.reserved = true ∧ f w.time = true := by
  unfold holds
  cases v.work id with
  | none => simp
  | some w => simp [and_assoc]

theorem mem_held_iff : id ∈ v.held f key ↔ id < v.nextId ∧
    ∃ w, v.work id = some w ∧ w.key = key ∧ w.reserved = true ∧ f w.time = true := by
  simp only [held, Finset.mem_filter, Finset.mem_range, holds_iff]

theorem mem_held (hn : Numbered v) : id ∈ v.held f key ↔
    ∃ w, v.work id = some w ∧ w.key = key ∧ w.reserved = true ∧ f w.time = true := by
  rw [mem_held_iff]
  constructor
  · rintro ⟨-, hw⟩
    exact hw
  · rintro ⟨w, hw, hrest⟩
    exact ⟨(hn.works id w hw).2.2.1, w, hw, hrest⟩

theorem held_congr (hnext : v'.nextId = v.nextId)
    (h : ∀ id, v'.holds f key id = v.holds f key id) : v'.held f key = v.held f key := by
  simp only [held, hnext, h]

theorem holds_update {u' : Work} (hu : v.work j = some u) (htime : u'.time = u.time)
    (hres : u'.reserved = u.reserved) (hw : v'.work = update v.work j (some u')) :
    ∀ id, v'.holds f key id = v.holds f key id := by
  intro id
  unfold holds
  rw [hw]
  by_cases hj : id = j
  · subst hj
    rw [update_self, hu]
    simp only [Work.key, htime, hres]
  · rw [update_of_ne hj]

theorem held_add {w₀ : Work} (hres : w₀.reserved = false) (hnext : v'.nextId = v.nextId + 1)
    (hw : v'.work = update v.work v.nextId (some w₀)) : v'.held f key = v.held f key := by
  ext id
  rw [mem_held_iff, mem_held_iff, hnext, hw]
  by_cases hid : id = v.nextId
  · subst hid
    rw [update_self]
    simp [hres]
  · rw [update_of_ne hid]
    have hlt : id < v.nextId + 1 ↔ id < v.nextId := by omega
    rw [hlt]

theorem held_reserve (hn : Numbered v) (hu : v.work j = some u) (hnext : v'.nextId = v.nextId)
    (hw : v'.work = update v.work j (some { u with reserved := true })) :
    v'.held f key = if u.key = key ∧ f u.time = true then insert j (v.held f key)
      else v.held f key \ {j} := by
  have hlt := (hn.works j u hu).2.2.1
  ext id
  rw [mem_held_iff, hnext, hw]
  by_cases hj : id = j
  · subst hj
    rw [update_self]
    split
    · rename_i hyes
      simpa [hlt, Work.key] using hyes
    · rename_i hno
      simpa [hlt, Work.key] using hno
  · rw [update_of_ne hj, ← mem_held_iff]
    split <;> simp [hj]

theorem held_observe (hnext : v'.nextId = v.nextId)
    (hw : v'.work = fun id => if id ∈ v.covered key through then none else v.work id) (k : QpKey) :
    v'.held f k = v.held f k \ (v.covered key through).toFinset := by
  ext id
  rw [mem_held_iff, Finset.mem_sdiff, mem_held_iff, hnext, hw, List.mem_toFinset]
  by_cases hc : id ∈ v.covered key through <;> simp [hc]

theorem covered_nodup (v : View) (key : QpKey) (through : Nat) : (v.covered key through).Nodup :=
  List.nodup_range.filter _

theorem card_held_inter (hn : Numbered v) (hf : Flagged v)
    (hids : ids = (v.covered key through).filter fun id =>
      match v.work id with
      | some w => f w.time
      | none => false) : (v.held f key ∩ (v.covered key through).toFinset).card = ids.length := by
  have hset : v.held f key ∩ (v.covered key through).toFinset = ids.toFinset := by
    ext id
    rw [Finset.mem_inter, mem_held hn, List.mem_toFinset, List.mem_toFinset, hids, List.mem_filter]
    constructor
    · rintro ⟨⟨w, hw, -, -, hfw⟩, hcov⟩
      exact ⟨hcov, by simp [hw, hfw]⟩
    · rintro ⟨hcov, hfw⟩
      obtain ⟨-, w, hw, hk, hacked⟩ := mem_covered.mp hcov
      simp only [hw] at hfw
      exact ⟨⟨w, hw, hk, hf.reserved_of_acked hw hacked, hfw⟩, hcov⟩
  rw [hset, List.toFinset_card_of_nodup]
  rw [hids]
  exact (covered_nodup v key through).filter _

theorem card_held_covered (hn : Numbered v) (hf : Flagged v) (key : QpKey) (through : Nat) :
    (v.held anyWork key ∩ (v.covered key through).toFinset).card =
      (v.covered key through).length := by
  refine card_held_inter hn hf (List.filter_eq_self.mpr ?_).symm
  intro id hid
  obtain ⟨-, w, hw, -⟩ := mem_covered.mp hid
  simp [hw, anyWork]

/-- The counters of the queue pairs count slots, within the limits of the configuration. -/
structure Counted (v : View) : Prop where
  depthFits : v.config.queueDepth < 2 ^ 32
  creditFits : v.config.maxReadAtomic < 2 ^ 32
  occupied : ∀ key, (v.qps key).occupied = (v.held anyWork key).card
  depth : ∀ key, (v.qps key).occupied ≤ v.config.queueDepth
  readAtomicOccupied : ∀ key, (v.qps key).readAtomicOccupied = (v.held creditWork key).card
  credit : ∀ key, (v.qps key).readAtomicOccupied ≤ v.config.maxReadAtomic

theorem counted_update (hv : Counted v) (hconf : v'.config = v.config)
    (hqps : v'.qps = update v.qps key q)
    (hothers : ∀ f k, k ≠ key → v'.held f k = v.held f k)
    (hocc : q.occupied = (v'.held anyWork key).card) (hdepth : q.occupied ≤ v.config.queueDepth)
    (hra : q.readAtomicOccupied = (v'.held creditWork key).card)
    (hcredit : q.readAtomicOccupied ≤ v.config.maxReadAtomic) : Counted v' := by
  refine ⟨hconf ▸ hv.depthFits, hconf ▸ hv.creditFits, ?_, ?_, ?_, ?_⟩ <;> intro k <;>
    by_cases hk : k = key
  · subst hk
    rw [hqps, update_self, hocc]
  · rw [hqps, update_of_ne hk, hothers _ k hk, hv.occupied]
  · subst hk
    rw [hqps, update_self, hconf]
    exact hdepth
  · rw [hqps, update_of_ne hk, hconf]
    exact hv.depth k
  · subst hk
    rw [hqps, update_self, hra]
  · rw [hqps, update_of_ne hk, hothers _ k hk, hv.readAtomicOccupied]
  · subst hk
    rw [hqps, update_self, hconf]
    exact hcredit
  · rw [hqps, update_of_ne hk, hconf]
    exact hv.credit k

theorem counted_reserve (hn : Numbered v) (hv : Counted v) (hu : v.work j = some u)
    (hukey : u.key = key) (hures : u.reserved = false)
    (hslot : (v.qps key).occupied < v.config.queueDepth)
    (hcredit : u.time.opcode.usesReadAtomicCredit →
      (v.qps key).readAtomicOccupied < v.config.maxReadAtomic) (hconf : v'.config = v.config)
    (hnext : v'.nextId = v.nextId)
    (hw : v'.work = update v.work j (some { u with reserved := true }))
    (hqps : v'.qps = update v.qps key q)
    (hocc : q.occupied = wadd 32 (v.qps key).occupied 1)
    (hra : q.readAtomicOccupied = wadd 32 (v.qps key).readAtomicOccupied
      (if u.time.opcode.usesReadAtomicCredit then 1 else 0)) : Counted v' := by
  have hnot : ∀ f k, j ∉ v.held f k := by
    intro f k hin
    obtain ⟨w, hw', -, hr, -⟩ := (mem_held hn).mp hin
    rw [hu] at hw'
    cases hw'
    rw [hures] at hr
    cases hr
  have hmine : ∀ f, f u.time = true → (v'.held f key).card = (v.held f key).card + 1 := by
    intro f hfu
    rw [held_reserve hn hu hnext hw, if_pos ⟨hukey, hfu⟩, Finset.card_insert_of_notMem (hnot _ _)]
  have hrest : ∀ f k, ¬ (u.key = k ∧ f u.time = true) → v'.held f k = v.held f k := by
    intro f k hno
    rw [held_reserve hn hu hnext hw, if_neg hno, Finset.sdiff_singleton_eq_erase,
      Finset.erase_eq_of_notMem (hnot _ _)]
  have hdf := hv.depthFits
  have hcf := hv.creditFits
  have hadd : wadd 32 (v.qps key).occupied 1 = (v.qps key).occupied + 1 := wadd_eq (by omega)
  refine counted_update hv hconf hqps (fun f k hk => hrest f k ?_) ?_ ?_ ?_ ?_
  · rintro ⟨hk', -⟩
    exact hk (hk'.symm.trans hukey)
  · rw [hocc, hadd, hmine _ rfl, hv.occupied]
  · rw [hocc, hadd]
    exact hslot
  · rw [hra]
    have hle := hv.credit key
    by_cases hop : u.time.opcode.usesReadAtomicCredit = true
    · have hlt := hcredit hop
      rw [if_pos hop, wadd_eq (by omega), hmine _ hop, hv.readAtomicOccupied]
    · rw [if_neg hop, wadd_eq (by omega), hrest _ _ fun h => hop h.2, hv.readAtomicOccupied]
      rfl
  · rw [hra]
    have hle := hv.credit key
    by_cases hop : u.time.opcode.usesReadAtomicCredit = true
    · have hlt := hcredit hop
      rw [if_pos hop, wadd_eq (by omega)]
      exact hlt
    · rw [if_neg hop, wadd_eq (by omega)]
      exact hle

theorem covered_le (hn : Numbered v) (hf : Flagged v) (hv : Counted v) (key : QpKey)
    (through : Nat) :
    (v.covered key through).length ≤ (v.qps key).occupied ∧
      (v.credited (v.covered key through)).length ≤ (v.qps key).readAtomicOccupied := by
  have hall := card_held_covered hn hf key through
  have hcred : (v.held creditWork key ∩ (v.covered key through).toFinset).card =
      (v.credited (v.covered key through)).length := card_held_inter hn hf rfl
  constructor
  · rw [← hall, hv.occupied]
    exact Finset.card_le_card Finset.inter_subset_left
  · rw [← hcred, hv.readAtomicOccupied]
    exact Finset.card_le_card Finset.inter_subset_left

theorem counted_observe (hn : Numbered v) (hf : Flagged v) (hv : Counted v)
    (hconf : v'.config = v.config) (hnext : v'.nextId = v.nextId)
    (hw : v'.work = fun id => if id ∈ v.covered key through then none else v.work id)
    (hqps : v'.qps = update v.qps key q)
    (hocc : q.occupied = wsub 32 (v.qps key).occupied (v.covered key through).length)
    (hra : q.readAtomicOccupied = wsub 32 (v.qps key).readAtomicOccupied
      (v.credited (v.covered key through)).length) : Counted v' := by
  -- works of other queue pairs are not covered
  have hother : ∀ f k, k ≠ key → v'.held f k = v.held f k := by
    intro f k hk
    rw [held_observe hnext hw]
    refine Finset.sdiff_eq_self_of_disjoint (Finset.disjoint_left.mpr ?_)
    intro id hin hcov
    obtain ⟨w, hw₁, hwk, -⟩ := (mem_held hn).mp hin
    obtain ⟨-, w', hw₂, hwk', -⟩ := mem_covered.mp (List.mem_toFinset.mp hcov)
    rw [hw₁] at hw₂
    cases hw₂
    exact hk (hwk.symm.trans hwk')
  have hall := card_held_covered hn hf key through
  have hcred : (v.held creditWork key ∩ (v.covered key through).toFinset).card =
      (v.credited (v.covered key through)).length := card_held_inter hn hf rfl
  obtain ⟨hle, hle'⟩ := covered_le hn hf hv key through
  have hdepth := hv.depth key
  have hcredit := hv.credit key
  have hsub := wsub_eq hle (lt_of_le_of_lt hdepth hv.depthFits)
  have hsub' := wsub_eq hle' (lt_of_le_of_lt hcredit hv.creditFits)
  refine counted_update hv hconf hqps hother ?_ ?_ ?_ ?_
  · rw [hocc, hsub, held_observe hnext hw, Finset.card_sdiff, Finset.inter_comm, hall, hv.occupied]
  · rw [hocc, hsub]
    omega
  · rw [hra, hsub', held_observe hnext hw, Finset.card_sdiff, Finset.inter_comm, hcred,
      hv.readAtomicOccupied]
  · rw [hra, hsub']
    omega

theorem counted_step (hn : Numbered v) (hf : Flagged v) (hp : Placed v) (hv : Counted v)
    (h : Micro C v v') : Counted v' := by
  have hframe : v'.config = v.config → (∀ key, (v'.qps key).occupied = (v.qps key).occupied) →
      (∀ key, (v'.qps key).readAtomicOccupied = (v.qps key).readAtomicOccupied) →
      (∀ f key, v'.held f key = v.held f key) → Counted v' := by
    intro hc ho hr hh
    refine ⟨hc ▸ hv.depthFits, hc ▸ hv.creditFits, ?_, ?_, ?_, ?_⟩ <;> intro key
    · rw [ho, hh, hv.occupied]
    · rw [ho, hc]
      exact hv.depth key
    · rw [hr, hh, hv.readAtomicOccupied]
    · rw [hr, hc]
      exact hv.credit key
  cases h with
  | addData _ _ _ _ _ hflags | addSignal _ _ _ _ hflags =>
      exact hframe rfl (fun _ => rfl) (fun _ => rfl) fun _ _ => held_add hflags.2.2.1 rfl rfl
  | start | copy | signal | skip =>
      exact hframe rfl (update_same Ledger.occupied (by rfl)) (update_same Ledger.readAtomicOccupied (by rfl))
        fun _ _ => held_congr rfl fun _ => rfl
  | execute _ _ _ _ _ hu | refuse _ _ _ _ _ hu =>
      exact hframe rfl (update_same Ledger.occupied (by rfl)) (update_same Ledger.readAtomicOccupied (by rfl))
        fun _ _ => held_congr rfl (holds_update hu (by rfl) (by rfl) rfl)
  | fail _ _ hu | ack _ _ hu =>
      exact hframe rfl (fun _ => rfl) (fun _ => rfl) fun _ _ =>
        held_congr rfl (holds_update hu (by rfl) (by rfl) rfl)
  | reserve key j rest u hid hu hslot hcredit hfence =>
      obtain ⟨hukey, hures⟩ := hp.head hid hu
      exact counted_reserve hn hv hu hukey hures hslot hcredit rfl rfl rfl rfl rfl rfl
  | observe key i through ids hdue hdone hi =>
      exact counted_observe hn hf hv rfl rfl rfl rfl rfl rfl
  | _ =>
      exact hframe rfl (fun _ => rfl) (fun _ => rfl) fun _ _ => held_congr rfl fun _ => rfl

/-! ## Runs -/

/-- All of it. -/
structure Books (v : View) : Prop where
  numbered : Numbered v
  flagged : Flagged v
  placed : Placed v
  counted : Counted v

theorem books_step (hv : Books v) (h : Micro C v v') : Books v' :=
  ⟨numbered_step hv.numbered h, flagged_step hv.numbered hv.flagged hv.placed h,
    placed_step hv.numbered hv.flagged hv.placed h,
    counted_step hv.numbered hv.flagged hv.placed hv.counted h⟩

end View

namespace Submission

theorem validate_limits {c : Config} (h : c.validate = .ok ()) :
    c.queueDepth < 2 ^ 32 ∧ c.maxReadAtomic < 2 ^ 32 ∧ 0 < c.cqModeration := by
  simp only [Config.validate] at h
  repeat
    first
    | (split at h; · cases h)
    | fail
  simp only [Bool.or_eq_true, decide_eq_true_eq, beq_iff_eq, not_or] at *
  omega

theorem books_idle {c : Config} (h : c.validate = .ok ()) : (idle c).ledger.Books := by
  obtain ⟨hdepth, hcredit, -⟩ := validate_limits h
  have hheld : ∀ f key, (idle c).ledger.held f key = ∅ := by
    intro f key
    ext id
    simp [View.mem_held_iff, idle, ledger, view]
  refine ⟨?_, ?_, ?_, ?_⟩
  · constructor <;> simp [idle, ledger, view, Qp.ledger]
  · constructor <;> simp [idle, ledger, view, Qp.ledger]
  · constructor <;> simp [idle, ledger, view, upstream, Qp.ledger, Pool.owed]
  · refine ⟨hdepth, hcredit, ?_, ?_, ?_, ?_⟩ <;> intro key
    · rw [hheld]
      rfl
    · exact Nat.zero_le _
    · rw [hheld]
      rfl
    · exact Nat.zero_le _

/-- The induction that every invariant of the ledger goes through: it holds at first and
each ledger step keeps it, given the books. -/
theorem ledger_invariant {C : View → Nat → Prop} {K : Submission → Act → Prop}
    (hK : ∀ σ a, K σ a → MeetsCopy C σ a) {P : View → Prop}
    (hinit : ∀ c : Config, c.validate = .ok () → P (idle c).ledger)
    (hstep : ∀ v v', v.Books → P v → Micro C v v' → P v') :
    (submissionMachine.restrict K).Invariant fun σ => σ.ledger.Books ∧ P σ.ledger := by
  refine Machine.Inductive.invariant ⟨?_, ?_⟩
  · rintro σ ⟨c, hc, rfl⟩
    exact ⟨books_idle hc, hinit c hc⟩
  · rintro σ a σ' ⟨hbooks, hP⟩ ⟨hen, hka⟩ hexec
    have hchain : Chain C σ.ledger σ'.ledger :=
      chain_exec hbooks.numbered.pos hbooks.numbered.idle hbooks.numbered.stray hen (hK σ a hka) hexec
    refine star_preserves (P := fun v => v.Books ∧ P v) ?_ hchain ⟨hbooks, hP⟩
    rintro v v' ⟨hb, hp⟩ hmicro
    exact ⟨View.books_step hb hmicro, hstep v v' hb hp hmicro⟩

end Submission

end ProtoBridge.Rdma
