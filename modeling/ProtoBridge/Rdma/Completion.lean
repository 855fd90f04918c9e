import Mathlib.Data.List.TakeWhile
import ProtoBridge.Rdma.Record

/-!
# Completion queues

`Progress` takes the acknowledged works from the front of the ledger and names the last
of them in a completion entry; `Observe` erases whatever that number covers. The two
agree as long as the ledger is in the order of work numbers. Works get their slots in the
order they are queued in, so the order can only break where a staged work enters its
queue late: `CopiesInTurn` says that none does, and under it entry and effect agree in
every run.
-/

namespace ProtoBridge.Rdma

open Lib Relation
open Function (update update_apply update_of_ne update_self)

/-- The works with a completion entry on its way. -/
def Ledger.entries (q : Ledger) : List Nat := q.completions.flatMap Prod.snd

/-- A queue pair's works from the oldest completion entry to the last in the queue. -/
def Ledger.roll (q : Ledger) : List Nat := q.entries ++ q.outstanding ++ q.waiting

/-- Nothing that comes after this work in its queue pair has been given a slot and is
still to be observed. -/
def View.InTurn (v : View) (id : Nat) : Prop :=
  ∀ w, v.work id = some w →
    (∀ j ∈ (v.qps w.key).outstanding, j < id) ∧ ∀ e ∈ (v.qps w.key).completions, e.1 < id

/-- A staging copy that ends is that of a work whose turn has not passed: no later work of
its queue pair is outstanding or covered by a completion write in flight. -/
def Submission.CopiesInTurn (σ : Submission) : Submission.Act → Prop
  | .copied i => ∀ c ∈ σ.copies[i]?, ∀ id ∈ c.2, ∀ w ∈ σ.work id,
      (∀ j ∈ (σ.qps w.key).outstanding, j < id) ∧ ∀ e ∈ (σ.qps w.key).completions, e.1 < id
  | _ => True

instance (σ : Submission) : (a : Submission.Act) → Decidable (σ.CopiesInTurn a)
  | .copied i => inferInstanceAs (Decidable (∀ c ∈ σ.copies[i]?, ∀ id ∈ c.2, ∀ w ∈ σ.work id,
      (∀ j ∈ (σ.qps w.key).outstanding, j < id) ∧ ∀ e ∈ (σ.qps w.key).completions, e.1 < id))
  | .submit .. | .fence _ | .quiet | .notifyPacketAck .. | .notifyOperationComplete ..
  | .notifyFailure _ | .stageSourcePayload _ | .releaseSourceStaging _ | .handedOff | .publish _
  | .batchTimeout _ | .fetchPublished _ | .fetched _ | .execute _ | .completionWritten ..
  | .tick _ => .isTrue trivial

theorem Submission.meetsCopy_of_inTurn {σ : Submission} {a : Submission.Act}
    (h : σ.CopiesInTurn a) : MeetsCopy View.InTurn σ a := by
  cases a with
  | copied i =>
      intro bytes id hi w hw
      obtain ⟨u, hu, rfl⟩ := Option.map_eq_some_iff.mp hw
      exact h _ hi id rfl u hu
  | _ => trivial

namespace View

variable {v v' : View} {id : Nat} {w w' : Work} {key : QpKey}

/-! ## The roll -/

variable {q : Ledger} {j : Nat} {u u' : Work}

theorem roll_update {qps : QpKey → Ledger} (hq : q.roll = (qps key).roll) (k : QpKey)
    : (update qps key q k).roll = (qps k).roll := update_same Ledger.roll hq k

theorem mem_roll : j ∈ q.roll ↔ j ∈ q.entries ∨ j ∈ q.outstanding ∨ j ∈ q.waiting := by
  simp only [Ledger.roll, List.mem_append, or_assoc]

theorem takeWhile_append_drop (ids : List Nat) (p : Nat → Bool) :
    ids.takeWhile p ++ ids.drop (ids.takeWhile p).length = ids := by
  induction ids with
  | nil => rfl
  | cons id ids ih =>
      by_cases hp : p id = true
      · simp only [List.takeWhile_cons_of_pos hp, List.length_cons, List.drop_succ_cons,
          List.cons_append, ih]
      · simp [List.takeWhile_cons_of_neg hp]

theorem roll_signal (q : Ledger) (p : Nat → Bool) (through : Nat) :
    Ledger.roll { q with
      outstanding := q.outstanding.drop (q.outstanding.takeWhile p).length
      completions := q.completions ++ [(through, q.outstanding.takeWhile p)] } = q.roll := by
  simp only [Ledger.roll, Ledger.entries, List.flatMap_append, List.flatMap_singleton,
    List.append_assoc]
  rw [← List.append_assoc (q.outstanding.takeWhile p), takeWhile_append_drop]

theorem roll_observe (q : Ledger) (i : Nat) (occupied readAtomicOccupied : Nat) :
    (Ledger.roll { q with
      completions := q.completions.eraseIdx i
      occupied := occupied
      readAtomicOccupied := readAtomicOccupied }).Sublist q.roll := by
  refine List.Sublist.append (List.Sublist.append ?_ (.refl _)) (.refl _)
  exact List.Sublist.flatMap (List.eraseIdx_sublist q.completions i) _

theorem last_of_sorted {ids : List Nat} (hne : ids ≠ []) (h : ids.Pairwise (· < ·)) :
    ids.getLastD 0 ∈ ids ∧ ∀ id ∈ ids, id ≤ ids.getLastD 0 := by
  obtain ⟨pre, last, rfl⟩ := (List.eq_nil_or_concat ids).resolve_left hne
  rw [List.concat_eq_append] at h ⊢
  have hlast : (pre ++ [last]).getLastD 0 = last := by simp
  rw [hlast]
  refine ⟨by simp, ?_⟩
  intro j hj
  rcases List.mem_append.mp hj with hj | hj
  · exact ((List.pairwise_append.mp h).2.2 j hj last (by simp)).le
  · rw [List.mem_singleton.mp hj]

/-- Every queue pair works in the order of numbers. -/
structure Ordered (v : View) : Prop where
  sorted : ∀ key, (v.qps key).roll.Pairwise (· < ·)
  entry : ∀ key, ∀ e ∈ (v.qps key).completions, e.1 ∈ e.2 ∧ ∀ id ∈ e.2, id ≤ e.1
  starting : v.starting.Pairwise (· < ·)
  before : ∀ id ∈ v.starting, (∀ j ∈ v.upstream, j < id) ∧ ∀ key, ∀ j ∈ (v.qps key).roll, j < id
  fresh : (∀ id ∈ v.starting, id < v.nextId) ∧ (∀ id ∈ v.upstream, id < v.nextId) ∧
    ∀ key, ∀ id ∈ (v.qps key).roll, id < v.nextId

theorem Ordered.le_through (hv : Ordered v) {e : Nat × List Nat} (he : e ∈ (v.qps key).completions)
    (hid : id ∈ e.2) : id ≤ e.1 :=
  (hv.entry key e he).2 id hid

theorem sorted_enqueue (h : q.roll.Pairwise (· < ·)) (hout : ∀ j ∈ q.entries, j < id)
    (hent : ∀ j ∈ q.outstanding, j < id) (hid : id ∉ q.waiting) :
    Ledger.roll { q with waiting := Submission.insertId id q.waiting } |>.Pairwise (· < ·) := by
  obtain ⟨hslots, hwaiting, hcross⟩ := List.pairwise_append.mp h
  refine List.pairwise_append.mpr ⟨hslots, sorted_insertId hwaiting hid, ?_⟩
  intro j hj k hk
  rcases mem_insertId.mp hk with rfl | hk
  · rcases List.mem_append.mp hj with hj | hj
    · exact hout j hj
    · exact hent j hj
  · exact hcross j hj k hk

theorem ordered_frame (hv : Ordered v) (hroll : ∀ k, (v'.qps k).roll = (v.qps k).roll)
    (hentry : ∀ k, ∀ e ∈ (v'.qps k).completions, e ∈ (v.qps k).completions ∨
      e.1 ∈ e.2 ∧ ∀ id ∈ e.2, id ≤ e.1)
    (hstarting : v'.starting = v.starting) (hupstream : v'.upstream = v.upstream)
    (hnext : v'.nextId = v.nextId) : Ordered v' := by
  refine ⟨?_, ?_, hstarting ▸ hv.starting, ?_, ?_⟩
  · intro k
    rw [hroll]
    exact hv.sorted k
  · intro k e he
    rcases hentry k e he with hold | hnew
    · exact hv.entry k e hold
    · exact hnew
  · rw [hstarting, hupstream]
    intro id hid
    refine ⟨(hv.before id hid).1, ?_⟩
    intro k
    rw [hroll]
    exact (hv.before id hid).2 k
  · rw [hstarting, hupstream, hnext]
    refine ⟨hv.fresh.1, hv.fresh.2.1, ?_⟩
    intro k
    rw [hroll]
    exact hv.fresh.2.2 k

theorem ordered_enqueue (hv : Ordered v) (hw : v.work id = some w) {starting : List Nat}
    {upstream : Multiset Nat} (hsub : starting.Sublist v.starting) (hup : ∀ j ∈ upstream, j ∈ v.upstream)
    (hbefore : ∀ k ∈ starting, id < k) (hfresh : id < v.nextId)
    (hent : ∀ j ∈ (v.qps w.key).entries, j < id) (hout : ∀ j ∈ (v.qps w.key).outstanding, j < id)
    (hid : id ∉ (v.qps w.key).waiting) :
    Ordered (View.setQp { v with starting := starting, upstream := upstream } w.key
      { v.qps w.key with waiting := Submission.insertId id (v.qps w.key).waiting }) := by
  set q : Ledger := { v.qps w.key with waiting := Submission.insertId id (v.qps w.key).waiting }
  have hmem : ∀ k, ∀ j ∈ (update v.qps w.key q k).roll, j = id ∨ j ∈ (v.qps k).roll := by
    refine (Function.forall_update_iff v.qps fun k q => ∀ j ∈ q.roll, j = id ∨ j ∈ (v.qps k).roll).mpr
      ⟨fun j hj => ?_, fun _ _ _ => .inr⟩
    rcases mem_roll.mp hj with h | h | h
    · exact .inr (mem_roll.mpr (.inl h))
    · exact .inr (mem_roll.mpr (.inr (.inl h)))
    · rcases mem_insertId.mp h with rfl | h
      · exact .inl rfl
      · exact .inr (mem_roll.mpr (.inr (.inr h)))
  refine ⟨?_, ?_, hv.starting.sublist hsub, ?_, ?_⟩
  · apply (Function.forall_update_iff v.qps fun _ q => q.roll.Pairwise (· < ·)).mpr
    exact ⟨sorted_enqueue (hv.sorted _) hent hout hid, fun k _ => hv.sorted k⟩
  · intro k e he
    rw [View.setQp, update_same Ledger.completions (by rfl)] at he
    exact hv.entry k e he
  · intro k hk
    have hold := hv.before k (hsub.subset hk)
    refine ⟨fun j hj => hold.1 j (hup j hj), ?_⟩
    intro k' j hj
    rcases hmem k' j hj with rfl | hj
    · exact hbefore k hk
    · exact hold.2 k' j hj
  · refine ⟨fun j hj => hv.fresh.1 j (hsub.subset hj), fun j hj => hv.fresh.2.1 j (hup j hj), ?_⟩
    intro k j hj
    rcases hmem k j hj with rfl | hj
    · exact hfresh
    · exact hv.fresh.2.2 k j hj

theorem ordered_add (hv : Ordered v) (hqps : v'.qps = v.qps)
    (hstarting : v'.starting = v.starting ++ [v.nextId]) (hupstream : v'.upstream = v.upstream)
    (hnext : v'.nextId = v.nextId + 1) : Ordered v' := by
  obtain ⟨hfs, hfu, hfr⟩ := hv.fresh
  refine ⟨hqps ▸ hv.sorted, hqps ▸ hv.entry, ?_, ?_, ?_⟩
  · rw [hstarting]
    refine List.pairwise_append.mpr ⟨hv.starting, List.pairwise_singleton _ _, ?_⟩
    intro j hj k hk
    rw [List.mem_singleton.mp hk]
    exact hfs j hj
  · rw [hstarting, hupstream, hqps]
    intro id hid
    rcases List.mem_append.mp hid with hid | hid
    · exact hv.before id hid
    · rw [List.mem_singleton.mp hid]
      exact ⟨hfu, hfr⟩
  · rw [hstarting, hupstream, hqps, hnext]
    refine ⟨?_, fun j hj => (hfu j hj).trans (Nat.lt_succ_self _),
      fun k j hj => (hfr k j hj).trans (Nat.lt_succ_self _)⟩
    intro j hj
    rcases List.mem_append.mp hj with hj | hj
    · exact (hfs j hj).trans (Nat.lt_succ_self _)
    · rw [List.mem_singleton.mp hj]
      exact Nat.lt_succ_self _

theorem ordered_step (hb : Books v) (hv : Ordered v) (h : Micro InTurn v v') : Ordered v' := by
  -- a change of one queue pair that keeps its roll
  have hone : ∀ (key : QpKey) (q : Ledger), v'.qps = update v.qps key q →
      v'.starting = v.starting → v'.upstream = v.upstream → v'.nextId = v.nextId →
      q.roll = (v.qps key).roll →
      (∀ e ∈ q.completions, e ∈ (v.qps key).completions ∨ e.1 ∈ e.2 ∧ ∀ id ∈ e.2, id ≤ e.1) →
      Ordered v' := by
    intro key q hqps hs hu hn hroll hentry
    refine ordered_frame hv ?_ ?_ hs hu hn
    · rw [hqps]
      exact roll_update hroll
    · intro k e he
      rw [hqps] at he
      by_cases hk : k = key
      · subst hk
        exact hentry e (by rwa [update_self] at he)
      · exact .inl (by rwa [update_of_ne hk] at he)
  cases h with
  | addData | addSignal =>
      exact ordered_add hv rfl rfl rfl rfl
  | start id rest w hid hw =>
      have hmem : id ∈ v.starting := hid ▸ List.mem_cons_self
      obtain ⟨-, hroll⟩ := hv.before id hmem
      have hstart := hv.starting
      rw [hid] at hstart
      refine ordered_enqueue hv hw (hid ▸ List.sublist_cons_self id rest) (fun j hj => hj)
        (List.pairwise_cons.mp hstart).1 (hv.fresh.1 id hmem) ?_ ?_ ?_
      · exact fun j hj => hroll _ j (mem_roll.mpr (.inl hj))
      · exact fun j hj => hroll _ j (mem_roll.mpr (.inr (.inl hj)))
      · exact fun hj => lt_irrefl _ (hroll _ id (mem_roll.mpr (.inr (.inr hj))))
  | stage id rest w hid hw =>
      have hmem : id ∈ v.starting := hid ▸ List.mem_cons_self
      have hstart := hv.starting
      rw [hid] at hstart
      obtain ⟨hfirst, hrest⟩ := List.pairwise_cons.mp hstart
      have hsub : ∀ j ∈ rest, j ∈ v.starting := fun j hj => hid ▸ List.mem_cons_of_mem _ hj
      refine ⟨hv.sorted, hv.entry, hrest, ?_, ?_⟩
      · intro k hk
        refine ⟨?_, (hv.before k (hsub k hk)).2⟩
        intro j hj
        rcases Multiset.mem_add.mp hj with hj | hj
        · exact (hv.before k (hsub k hk)).1 j hj
        · rw [Multiset.mem_singleton.mp hj]
          exact hfirst k hk
      · refine ⟨fun j hj => hv.fresh.1 j (hsub j hj), ?_, hv.fresh.2.2⟩
        intro j hj
        rcases Multiset.mem_add.mp hj with hj | hj
        · exact hv.fresh.2.1 j hj
        · rw [Multiset.mem_singleton.mp hj]
          exact hv.fresh.1 id hmem
  | copy id w hid hw hC =>
      obtain ⟨hout, hthrough⟩ := hC w hw
      refine ordered_enqueue hv hw (.refl _) (fun j hj => Multiset.mem_of_mem_erase hj)
        (fun k hk => (hv.before k hk).1 id hid) (hv.fresh.2.1 id hid) ?_ hout
        ((hb.placed.outside id (.inr hid)).2 _)
      intro j hj
      obtain ⟨e, he, hje⟩ := List.mem_flatMap.mp hj
      exact lt_of_le_of_lt (hv.le_through he hje) (hthrough e he)
  | reserve key j rest u hid hu hslot hcredit hfence =>
      refine hone key _ rfl rfl rfl rfl ?_ fun e he => .inl he
      simp [Ledger.roll, Ledger.entries, hid]
  | signal key hdue hready =>
      refine hone key _ rfl rfl rfl rfl (roll_signal _ v.acked _) ?_
      intro e he
      rcases List.mem_append.mp he with he | he
      · exact .inl he
      · have hsorted : (v.ready key).Pairwise (· < ·) := by
          refine (hv.sorted key).sublist ?_
          refine (List.takeWhile_sublist _).trans ?_
          exact (List.sublist_append_right _ _).trans (List.sublist_append_left _ _)
        rw [List.mem_singleton.mp he]
        exact .inr (last_of_sorted hready hsorted)
  | observe key i through ids hdue hdone hi =>
      have hsub : ∀ k, ((update v.qps key
          { v.qps key with
            completions := (v.qps key).completions.eraseIdx i
            occupied := wsub 32 (v.qps key).occupied (v.covered key through).length
            readAtomicOccupied := wsub 32 (v.qps key).readAtomicOccupied
              (v.credited (v.covered key through)).length }) k).roll.Sublist (v.qps k).roll := by
        exact (Function.forall_update_iff v.qps fun k q => q.roll.Sublist (v.qps k).roll).mpr
          ⟨roll_observe _ i _ _, fun _ _ => .refl _⟩
      refine ⟨fun k => (hv.sorted k).sublist (hsub k), ?_, hv.starting, ?_, ?_⟩
      · intro k e he
        refine hv.entry k e ?_
        revert e
        exact (Function.forall_update_iff v.qps fun k q => ∀ e ∈ q.completions, e ∈ (v.qps k).completions).mpr
          ⟨fun _ => ((List.eraseIdx_sublist _ _).subset ·), fun _ _ _ => id⟩ k
      · intro j hj
        exact ⟨(hv.before j hj).1, fun k x hx => (hv.before j hj).2 k x ((hsub k).subset hx)⟩
      · exact ⟨hv.fresh.1, hv.fresh.2.1, fun k x hx => hv.fresh.2.2 k x ((hsub k).subset hx)⟩
  | execute key | refuse key | skip key =>
      exact hone key _ rfl rfl rfl rfl rfl fun e he => .inl he
  | _ => exact ordered_frame hv (fun _ => rfl) (fun _ _ he => .inl he) rfl rfl rfl

/-! ## Where a slot is held -/

/-- A work with a slot is outstanding or has a completion entry on its way. -/
structure Sited (v : View) : Prop where
  outstanding : ∀ key, ∀ id ∈ (v.qps key).outstanding,
    ∃ w, v.work id = some w ∧ w.key = key ∧ w.reserved = true
  entries : ∀ key, ∀ id ∈ (v.qps key).entries, ∀ w, v.work id = some w →
    w.key = key ∧ w.acked = true
  held : ∀ id w, v.work id = some w → w.reserved = true →
    id ∈ (v.qps w.key).outstanding ∨ id ∈ (v.qps w.key).entries

theorem sited_flag (hv : Sited v) (hu : v.work j = some u)
    (hw : v'.work = update v.work j (some u')) (hkey : u'.key = u.key)
    (hres : u'.reserved = u.reserved) (hacked : u.acked = true → u'.acked = true)
    (hout : ∀ k, (v'.qps k).outstanding = (v.qps k).outstanding)
    (hent : ∀ k, (v'.qps k).entries = (v.qps k).entries) : Sited v' := by
  obtain ⟨h₁, h₂, h₃⟩ := hv
  constructor <;> simp only [hw, hout, hent, update_apply] <;> grind

theorem sited_frame (hv : Sited v) (hw : v'.work = v.work)
    (hout : ∀ k, (v'.qps k).outstanding = (v.qps k).outstanding)
    (hent : ∀ k, (v'.qps k).entries = (v.qps k).entries) : Sited v' := by
  obtain ⟨h₁, h₂, h₃⟩ := hv
  constructor <;> simpa only [hw, hout, hent]

theorem sited_add (ho : Ordered v) (hv : Sited v) {w₀ : Work} (hres : w₀.reserved = false)
    (hw : v'.work = update v.work v.nextId (some w₀)) (hqps : v'.qps = v.qps) : Sited v' := by
  have hfresh : ∀ k, v.nextId ∉ (v.qps k).outstanding ∧ v.nextId ∉ (v.qps k).entries := by
    intro k
    refine ⟨fun h => ?_, fun h => ?_⟩
    · exact lt_irrefl _ (ho.fresh.2.2 k _ (mem_roll.mpr (.inr (.inl h))))
    · exact lt_irrefl _ (ho.fresh.2.2 k _ (mem_roll.mpr (.inl h)))
  obtain ⟨h₁, h₂, h₃⟩ := hv
  constructor <;> simp only [hw, hqps, update_apply] <;> grind

theorem sited_reserve (hv : Sited v) (hu : v.work j = some u) (hukey : u.key = key)
    (hw : v'.work = update v.work j (some { u with reserved := true }))
    (hqps : v'.qps = update v.qps key q)
    (hout : q.outstanding = (v.qps key).outstanding ++ [j]) (hent : q.entries = (v.qps key).entries)
    : Sited v' := by
  obtain ⟨h₁, h₂, h₃⟩ := hv
  have hkey : Work.key { u with reserved := true } = u.key := rfl
  constructor <;> simp only [hw, hqps, update_apply] <;> grind

theorem sited_signal (hv : Sited v) (hw : v'.work = v.work)
    (hqps : v'.qps = update v.qps key q)
    (hout : (v.qps key).outstanding = v.ready key ++ q.outstanding)
    (hent : q.entries = (v.qps key).entries ++ v.ready key) : Sited v' := by
  have hready : ∀ id ∈ v.ready key, ∀ w, v.work id = some w → w.acked = true := by
    intro id hid w hw
    have hacked := List.mem_takeWhile_imp hid
    simpa only [acked, hw] using hacked
  have hout' : ∀ j, j ∈ (v.qps key).outstanding ↔ j ∈ v.ready key ∨ j ∈ q.outstanding := by
    simp only [hout, List.mem_append, implies_true]
  have hent' : ∀ j, j ∈ q.entries ↔ j ∈ (v.qps key).entries ∨ j ∈ v.ready key := by
    simp only [hent, List.mem_append, implies_true]
  clear hout hent
  obtain ⟨h₁, h₂, h₃⟩ := hv
  constructor <;> simp only [hw, hqps, update_apply] <;> grind

/-- What an entry covers is erased: its own works among others, and none outstanding. -/
theorem sited_observe (ho : Ordered v) (hv : Sited v) {i through : Nat} {ids : List Nat}
    (hi : (v.qps key).completions[i]? = some (through, ids))
    (hw : v'.work = fun id => if id ∈ v.covered key through then none else v.work id)
    (hqps : v'.qps = update v.qps key q) (hout : q.outstanding = (v.qps key).outstanding)
    (hcomp : q.completions = (v.qps key).completions.eraseIdx i) : Sited v' := by
  have hmem := List.mem_of_getElem? hi
  obtain ⟨hthrough, hle⟩ := ho.entry key _ hmem
  dsimp only at hthrough hle
  -- outstanding works come after everything that has an entry
  have hafter : ∀ j ∈ (v.qps key).outstanding, through < j := by
    intro j hj
    have hslots := (List.pairwise_append.mp (ho.sorted key)).1
    exact (List.pairwise_append.mp hslots).2.2 through
      (List.mem_flatMap.mpr ⟨_, hmem, hthrough⟩) j hj
  have hsub : ∀ j ∈ q.entries, j ∈ (v.qps key).entries := by
    intro j hj
    obtain ⟨e, he, hje⟩ := List.mem_flatMap.mp hj
    rw [hcomp] at he
    exact List.mem_flatMap.mpr ⟨e, (List.eraseIdx_sublist _ _).subset he, hje⟩
  have hrest : ∀ j ∈ (v.qps key).entries, j ∈ ids ∨ j ∈ q.entries := by
    intro j hj
    obtain ⟨e, he, hje⟩ := List.mem_flatMap.mp hj
    have hperm := coe_eraseIdx_add hi
    have he' : e ∈ ((v.qps key).completions.eraseIdx i : Multiset (Nat × List Nat)) +
        {(through, ids)} := by
      rw [hperm]
      exact he
    rcases Multiset.mem_add.mp he' with h | h
    · exact .inr (List.mem_flatMap.mpr ⟨e, hcomp ▸ h, hje⟩)
    · rw [Multiset.mem_singleton.mp h] at hje
      exact .inl hje
  have hids : ∀ j ∈ ids, ∀ w, v.work j = some w → j ∈ v.covered key through := by
    intro j hj w hwj
    have hent := hv.entries key j (List.mem_flatMap.mpr ⟨_, hmem, hj⟩) w hwj
    exact mem_covered.mpr ⟨hle j hj, w, hwj, hent⟩
  have hcov : ∀ j ∈ v.covered key through, j ≤ through ∧ ∀ w, v.work j = some w → w.key = key := by
    intro j hj
    obtain ⟨hle, w, hw, hk, -⟩ := mem_covered.mp hj
    exact ⟨hle, fun w' hw' => by rw [hw] at hw'; cases hw'; exact hk⟩
  obtain ⟨h₁, h₂, h₃⟩ := hv
  refine ⟨?_, ?_, ?_⟩
  · intro k j hj
    have hj' : j ∈ (v.qps k).outstanding := by
      rw [hqps, update_apply] at hj
      split at hj
      · rename_i hk
        rw [hk, ← hout]
        exact hj
      · exact hj
    obtain ⟨w, hwj, hk, hres⟩ := h₁ k j hj'
    refine ⟨w, ?_, hk, hres⟩
    rw [hw]
    dsimp only
    rw [if_neg ?_, hwj]
    intro hc
    obtain ⟨hle, hkey⟩ := hcov j hc
    obtain rfl := hk.symm.trans (hkey w hwj)
    exact absurd (hafter j hj') (by omega)
  · intro k j hj w hwj
    have hj' : j ∈ (v.qps k).entries := by
      rw [hqps, update_apply] at hj
      split at hj
      · rename_i hk
        rw [hk]
        exact hsub j hj
      · exact hj
    rw [hw] at hwj
    dsimp only at hwj
    split at hwj
    · cases hwj
    · exact h₂ k j hj' w hwj
  · intro j w hwj hres
    rw [hw] at hwj
    dsimp only at hwj
    split at hwj
    · cases hwj
    · rename_i hnot
      rw [hqps, update_apply]
      split
      · rename_i hk
        rcases h₃ j w hwj hres with h | h
        · exact .inl (by rw [hout, ← hk]; exact h)
        · rcases hrest j (hk ▸ h) with hj | hj
          · exact absurd (hids j hj w hwj) hnot
          · exact .inr hj
      · exact h₃ j w hwj hres

theorem sited_step (hb : Books v) (ho : Ordered v) (hv : Sited v) (h : Micro InTurn v v') :
    Sited v' := by
  cases h with
  | addData _ _ _ _ _ hflags | addSignal _ _ _ _ hflags =>
      exact sited_add ho hv hflags.2.2.1 rfl rfl
  | start | copy | skip =>
      exact sited_frame hv rfl (update_same Ledger.outstanding (by rfl)) (update_same Ledger.entries (by rfl))
  | reserve key j rest u hid hu hslot hcredit hfence =>
      obtain ⟨hukey, -⟩ := hb.placed.head hid hu
      exact sited_reserve hv hu hukey rfl rfl rfl rfl
  | execute _ _ _ _ _ hu | refuse _ _ _ _ _ hu =>
      exact sited_flag hv hu rfl rfl rfl (fun h => h) (update_same Ledger.outstanding (by rfl))
        (update_same Ledger.entries (by rfl))
  | fail j u hu hex hok =>
      exact sited_flag hv hu rfl rfl rfl (fun h => h) (fun _ => rfl) fun _ => rfl
  | ack j u hu hex hok hdue hr =>
      exact sited_flag hv hu rfl rfl rfl (fun _ => rfl) (fun _ => rfl) fun _ => rfl
  | signal key hdue hready =>
      refine sited_signal hv rfl rfl ?_ ?_
      · exact (takeWhile_append_drop _ _).symm
      · simp [Ledger.entries]
  | observe key i through ids hdue hdone hi => exact sited_observe ho hv hi rfl rfl rfl rfl
  | _ => exact sited_frame hv rfl (fun _ => rfl) fun _ => rfl

/-! ## The tail -/

/-- A completed tail does not wait: unless the queue pair is just being looked at, works
that are all acknowledged have a completion entry on its way. -/
def Prompt (v : View) : Prop :=
  ∀ key, v.due ≠ some key → (v.qps key).completions = [] →
    (∀ id ∈ (v.qps key).outstanding, v.acked id = true) → (v.qps key).outstanding = []

theorem occupied_eq_length (hb : Books v) (ho : Ordered v) (hs : Sited v)
    (hnone : (v.qps key).completions = []) :
    (v.qps key).occupied = (v.qps key).outstanding.length := by
  have hset : v.held anyWork key = (v.qps key).outstanding.toFinset := by
    ext id
    rw [mem_held hb.numbered, List.mem_toFinset]
    constructor
    · rintro ⟨w, hw, rfl, hres, -⟩
      rcases hs.held id w hw hres with h | h
      · exact h
      · simp [Ledger.entries, hnone] at h
    · intro hid
      obtain ⟨w, hw, hk, hres⟩ := hs.outstanding key id hid
      exact ⟨w, hw, hk, hres, rfl⟩
  have hsorted := (List.pairwise_append.mp (List.pairwise_append.mp (ho.sorted key)).1).2.1
  rw [hb.counted.occupied, hset, List.toFinset_card_of_nodup]
  exact hsorted.imp fun h => ne_of_lt h

theorem prompt_frame (hv : Prompt v) (hdue : v'.due = v.due)
    (hout : ∀ k, (v'.qps k).outstanding = (v.qps k).outstanding)
    (hcomp : ∀ k, (v'.qps k).completions = (v.qps k).completions)
    (hacked : ∀ k, ∀ id ∈ (v.qps k).outstanding, v'.acked id = true → v.acked id = true) :
    Prompt v' := by
  intro k hk hnone hall
  rw [hdue] at hk
  rw [hcomp] at hnone
  rw [hout] at hall ⊢
  exact hv k hk hnone fun id hid => hacked k id hid (hall id hid)

theorem acked_update (hu : v.work j = some u) (hw : v'.work = update v.work j (some u'))
    (hsame : u'.acked = u.acked) (id : Nat) : v'.acked id = v.acked id := by
  simp only [acked, hw, update_apply]
  by_cases hj : id = j
  · simp only [hj, if_true, hu, hsame]
  · simp only [hj, if_false]

theorem prompt_flag (hv : Prompt v) (hu : v.work j = some u)
    (hw : v'.work = update v.work j (some u')) (hsame : u'.acked = u.acked)
    (hdue : v'.due = v.due) (hout : ∀ k, (v'.qps k).outstanding = (v.qps k).outstanding)
    (hcomp : ∀ k, (v'.qps k).completions = (v.qps k).completions) : Prompt v' := by
  refine prompt_frame hv hdue hout hcomp ?_
  intro k id _
  rw [acked_update hu hw hsame id]
  exact fun h => h

theorem prompt_step (hb : Books v) (ho : Ordered v) (hs : Sited v) (hv : Prompt v)
    (h : Micro InTurn v v') : Prompt v' := by
  have hnew : ∀ w₀ : Work, ∀ k, ∀ id ∈ (v.qps k).outstanding,
      update v.work v.nextId (some w₀) id = v.work id := by
    intro w₀ k id hid
    exact update_of_ne (ne_of_lt (ho.fresh.2.2 k id (mem_roll.mpr (.inr (.inl hid))))) ..
  cases h with
  | addData w₀ _ hid | addSignal w₀ hid =>
      refine prompt_frame hv rfl (fun _ => rfl) (fun _ => rfl) ?_
      intro k id hid
      simp only [acked, hnew w₀ k id hid, imp_self]
  | start | copy | skip =>
      exact prompt_frame hv rfl (update_same Ledger.outstanding (by rfl))
        (update_same Ledger.completions (by rfl)) fun _ _ _ h => h
  | execute _ _ _ _ _ hu | refuse _ _ _ _ _ hu =>
      exact prompt_flag hv hu rfl rfl rfl (update_same Ledger.outstanding (by rfl))
        (update_same Ledger.completions (by rfl))
  | fail j u hu hex hok =>
      exact prompt_flag hv hu rfl rfl rfl (fun _ => rfl) fun _ => rfl
  | reserve key j rest u hid hu hslot hcredit hfence =>
      intro k hk hnone hall
      by_cases hkey : k = key
      -- the work that just got its slot is not acknowledged
      · subst hkey
        obtain ⟨-, hures⟩ := hb.placed.head hid hu
        have hj := hall j (by simp [View.record, View.setQp])
        simp only [View.record, View.setQp, View.setWork, acked, update_self] at hj
        rw [hb.flagged.reserved_of_acked hu hj] at hures
        cases hures
      · simp only [View.record, View.setQp, View.setWork, update_of_ne hkey] at hnone hall ⊢
        refine hv k hk hnone ?_
        intro id hid'
        rw [← hall id hid']
        apply Eq.symm
        apply acked_update hu
        · rfl
        · rfl
  | ack j u hu hex hok hdue hr =>
      intro k hk hnone hall
      refine hv k (by simp [hdue]) hnone ?_
      intro id hid
      have hne : id ≠ j := by
        rintro rfl
        obtain ⟨w, hw, hkey, -⟩ := hs.outstanding k id hid
        rw [hu] at hw
        cases hw
        exact hk (by rw [← hkey]; rfl)
      have hid' := hall id hid
      simpa only [View.record, View.setWork, acked, update_of_ne hne] using hid'
  | pass key hdue hready =>
      intro k hk hnone hall
      by_cases hkey : k = key
      · subst hkey
        -- everything is ready, so the prefix is all that is outstanding
        have hfull : v.ready k = (v.qps k).outstanding := List.takeWhile_eq_self_iff.mpr hall
        rcases hready with hnil | ⟨-, hlen⟩
        · exact hfull.symm.trans hnil
        · exact absurd (by rw [hfull]) (occupied_eq_length hb ho hs hnone ▸ hlen)
      · refine hv k ?_ hnone hall
        rw [hdue]
        exact fun heq => hkey (Option.some.inj heq).symm
  | signal key hdue hready =>
      intro k hk hnone hall
      by_cases hkey : k = key
      · subst hkey
        simp [View.record, View.setQp] at hnone
      · simp only [View.record, View.setQp, update_of_ne hkey] at hnone hall ⊢
        refine hv k ?_ hnone hall
        rw [hdue]
        exact fun heq => hkey (Option.some.inj heq).symm
  | observe key i through ids hdue hdone hi =>
      intro k hk hnone hall
      have hkey : k ≠ key := fun heq => hk (by rw [heq]; rfl)
      simp only [View.record, View.setQp, update_of_ne hkey] at hnone hall ⊢
      refine hv k (by simp [hdue]) hnone ?_
      intro id hid
      obtain ⟨w, hw, hwk, -⟩ := hs.outstanding k id hid
      have hid' := hall id hid
      simp only [acked] at hid' ⊢
      rwa [if_neg ?_] at hid'
      intro hcov
      obtain ⟨-, w', hw', hk', -⟩ := mem_covered.mp hcov
      rw [hw] at hw'
      cases hw'
      exact hkey (hwk.symm.trans hk')
  | _ => exact prompt_frame hv rfl (fun _ => rfl) (fun _ => rfl) fun _ _ _ h => h

end View

end ProtoBridge.Rdma
