import ProtoBridge.Rdma.Pipeline

/-!
# Doorbells and descriptor fetches

Every entry on its way from publication to execution has an event that will move it: the
timer of its batch, the doorbell write, the descriptor read, or the end of the fetch. An
entry whose descriptor is there waits only for those in front of it. So when no event of
a queue pair is left, every work that got a slot was executed, but for a batch whose timer
could not be armed.
-/

namespace ProtoBridge.Rdma

open Lib Relation
open Function (update update_of_ne update_self)

/-- A queue pair with nothing but the published entries and those being fetched. -/
def Qp.pipe (q : Qp) : Qp :=
  { published := q.published, fetching := q.fetching, pcieFetched := q.pcieFetched
    batchEvent := q.batchEvent }

/-- The events of the pipeline, and what they move. -/
structure Pipes where
  qps : QpKey → Qp
  doorbells : List (QpKey × List Nat)
  fetches : List (QpKey × Nat)
  pcieReady : Finset Nat
  unarmed : List QpKey

namespace Submission

variable {σ σ' : Submission} {key : QpKey} {id : Nat} {w : Work}

/-- The pipeline of a state. -/
def pipes (σ : Submission) : Pipes :=
  { qps := fun key => (σ.qps key).pipe
    doorbells := σ.doorbells, fetches := σ.fetches, pcieReady := σ.pcieReady, unarmed := σ.unarmed }

/-! ## What leaves the pipeline alone -/

theorem pipes_setQp {q : Qp} (hq : q.pipe = (σ.qps key).pipe) : (σ.setQp key q).pipes = σ.pipes := by
  have hqps : (fun k => (update σ.qps key q k).pipe) = fun k => (σ.qps k).pipe :=
    funext (update_same Qp.pipe hq)
  simp only [pipes, setQp, hqps]

theorem pipes_foldlM {α : Type} {f : Submission → α → Except Fault Submission} {as : List α}
    (hf : ∀ σ σ' a, f σ a = .ok σ' → σ'.pipes = σ.pipes) (h : as.foldlM f σ = .ok σ') :
    σ'.pipes = σ.pipes := by
  induction as generalizing σ with
  | nil =>
      cases h
      rfl
  | cons a as ih =>
      rw [List.foldlM_cons] at h
      obtain ⟨σ₁, h₁, h₂⟩ := bind_eq_ok.mp h
      exact (ih h₂).trans (hf _ _ _ h₁)

theorem pipes_pumpLoop {fuel : Nat} (h : pumpLoop fuel σ key = .ok σ') : σ'.pipes = σ.pipes := by
  induction fuel generalizing σ with
  | zero =>
      cases h
      rfl
  | succ fuel ih =>
      simp only [pumpLoop] at h
      split at h
      · cases h
        rfl
      · split at h
        · cases h
          rfl
        · split at h
          · cases h
          · split at h
            · cases h
              rfl
            · split at h
              · cases h
                rfl
              · exact (ih h).trans (pipes_setQp (by rfl))

theorem pipes_pump (h : σ.pump key = .ok σ') : σ'.pipes = σ.pipes := pipes_pumpLoop h

theorem pipes_pumpAll (h : σ.pumpAll = .ok σ') : σ'.pipes = σ.pipes :=
  pipes_foldlM (fun _ _ _ h => pipes_pump h) h

theorem pipes_enqueueWaiting (h : σ.enqueueWaiting id w = .ok σ') : σ'.pipes = σ.pipes := by
  have htouch : (σ.touchQp w.key).pipes = σ.pipes := by
    unfold touchQp
    split <;> rfl
  refine (pipes_pump h).trans ((pipes_setQp ?_).trans htouch)
  rfl

variable {bytes i : Nat}

theorem pipes_copied (h : σ.copied i = .ok σ') : σ'.pipes = σ.pipes := by
  unfold copied at h
  split at h
  · cases h
    rfl
  · cases h
    rfl
  · split at h
    · cases h
    · rw [pipes_enqueueWaiting h]
      rfl

theorem pipes_enqueue (h : σ.enqueue id = .ok σ') : σ'.pipes = σ.pipes := by
  unfold enqueue at h
  split at h
  · cases h
  · split at h
    · cases h
      rfl
    · exact pipes_enqueueWaiting h

theorem pipes_start {ids : List Nat} (h : σ.start ids = .ok σ') : σ'.pipes = σ.pipes := by
  obtain ⟨σ₁, h₁, h₂⟩ := bind_eq_ok.mp h
  cases h₂
  show σ₁.pipes = σ.pipes
  exact pipes_foldlM (fun _ _ _ h => pipes_enqueue h) h₁

theorem pipes_addWorks (s : Submit) (count index offset : Nat) (σ : Submission) :
    (addWorks s count index offset σ).pipes = σ.pipes := by
  induction count generalizing index offset σ with
  | zero => rfl
  | succ count ih =>
      simp only [addWorks]
      rw [ih]
      rfl

theorem pipes_submitOperation {opcode : Opcode} {peer : Nat} {producer : Option Nat}
    (h : σ.submitOperation opcode peer bytes producer = .ok σ') : σ'.pipes = σ.pipes := by
  unfold submitOperation at h
  split at h
  · cases h
  split at h
  · cases h
  split at h
  · cases h
  simp only at h
  split at h
  · cases h
  split at h
  · cases h
  split at h
  · exact (pipes_start h).trans (pipes_addWorks _ _ _ _ _)
  · cases h
    exact pipes_addWorks _ _ _ _ _

theorem pipes_handedOff (h : σ.handedOff = .ok σ') : σ'.pipes = σ.pipes := by
  unfold handedOff at h
  split at h
  · cases h
    rfl
  · rw [pipes_start h]
    rfl

theorem pipes_progress (h : σ.progress key = .ok σ') : σ'.pipes = σ.pipes := by
  obtain ⟨ready, -, h⟩ := bind_eq_ok.mp h
  split at h
  · cases h
    rfl
  · split at h
    · cases h
      rfl
    · cases h
      exact pipes_setQp (by rfl)

theorem pipes_markFailed : (σ.markFailed id w).pipes = σ.pipes := by
  unfold markFailed
  split <;> rfl

theorem pipes_acknowledgeWork (h : σ.acknowledgeWork id w = .ok σ') : σ'.pipes = σ.pipes := by
  obtain ⟨σ₁, h₁, h₂⟩ := bind_eq_ok.mp h
  rw [pipes_pumpAll h₂, pipes_progress h₁]
  rfl

theorem pipes_notifyOperationComplete {success : Bool}
    (h : σ.notifyOperationComplete id success = .ok σ') : σ'.pipes = σ.pipes := by
  unfold notifyOperationComplete at h
  split at h
  · cases h
    rfl
  · split at h
    · cases h
      rfl
    · split at h
      · exact pipes_acknowledgeWork h
      · exact (pipes_acknowledgeWork h).trans pipes_markFailed

theorem pipes_notifyPacketAck (h : σ.notifyPacketAck id bytes = .ok σ') : σ'.pipes = σ.pipes := by
  unfold notifyPacketAck at h
  split at h
  · cases h
    rfl
  · split at h
    · cases h
      rfl
    · split at h
      · cases h
      · split at h
        · cases h
          rfl
        · exact pipes_acknowledgeWork h

theorem pipes_notifyFailure : (σ.notifyFailure id).pipes = σ.pipes := by
  unfold notifyFailure
  split
  · rfl
  · exact pipes_markFailed

theorem pipes_stageSourcePayload (h : σ.stageSourcePayload bytes = .ok σ') :
    σ'.pipes = σ.pipes := by
  unfold stageSourcePayload at h
  split at h
  · cases h
  · cases h
    rfl

theorem pipes_releaseSourceStaging (h : σ.releaseSourceStaging bytes = .ok σ') :
    σ'.pipes = σ.pipes := by
  unfold releaseSourceStaging at h
  split at h
  · cases h
  · cases h
    rfl

theorem pipes_giveBack (h : σ.giveBack bytes = .ok σ') : σ'.pipes = σ.pipes := by
  unfold giveBack at h
  split at h
  · cases h
  · split at h
    · cases h
      rfl
    · cases h
      rfl

theorem pipes_finish (works : List Work) (σ : Submission) :
    (works.foldl finish σ).pipes = σ.pipes := by
  induction works generalizing σ with
  | nil => rfl
  | cons w works ih =>
      rw [List.foldl_cons, ih]
      unfold finish
      simp only
      split <;> rfl

theorem pipes_completionWritten (h : σ.completionWritten key i = .ok σ') : σ'.pipes = σ.pipes := by
  unfold completionWritten at h
  split at h
  · cases h
    rfl
  · obtain ⟨σ₁, h₁, h⟩ := bind_eq_ok.mp h
    obtain ⟨σ₂, h₂, h⟩ := bind_eq_ok.mp h
    obtain ⟨σ₃, h₃, h⟩ := bind_eq_ok.mp h
    cases h
    show (List.foldl finish σ₃ _).pipes = σ.pipes
    rw [pipes_finish, pipes_progress h₃, pipes_pump h₂, pipes_giveBack h₁]
    refine (pipes_setQp (by rfl)).trans ?_
    exact pipes_setQp (by rfl)

theorem pipes_executeWork (h : σ.executeWork id = .ok σ') : σ'.pipes = σ.pipes := by
  unfold executeWork at h
  split at h
  · cases h
    rfl
  · simp only at h
    split at h
    · rw [pipes_notifyOperationComplete h]
      rfl
    · cases h
      rfl

/-- The actions that move entries of the pipeline. -/
def Act.moves : Act → Bool
  | .fence _ | .quiet | .publish _ | .batchTimeout _ | .fetchPublished _ | .fetched _
  | .execute _ => true
  | _ => false

theorem pipes_exec {a : Act} (ha : a.moves = false) (h : σ.exec a = .ok σ') :
    σ'.pipes = σ.pipes := by
  cases a with
  | submit opcode peer bytes producer => exact pipes_submitOperation h
  | notifyPacketAck id bytes => exact pipes_notifyPacketAck h
  | notifyOperationComplete id success => exact pipes_notifyOperationComplete h
  | notifyFailure id =>
      cases h
      exact pipes_notifyFailure
  | stageSourcePayload bytes => exact pipes_stageSourcePayload h
  | releaseSourceStaging bytes => exact pipes_releaseSourceStaging h
  | handedOff => exact pipes_handedOff h
  | copied i => exact pipes_copied h
  | completionWritten key i => exact pipes_completionWritten h
  | tick ticks =>
      cases h
      rfl
  | _ => cases ha

end Submission

/-! ## What moves -/

namespace Pipes

variable {p : Pipes} {key k : QpKey} {id : Nat} {rest : List Nat}

/-- The works of a queue pair whose doorbell write or descriptor read is on its way. -/
def awaited (p : Pipes) (key : QpKey) : Multiset Nat :=
  ((p.doorbells : Multiset (QpKey × List Nat)).bind fun d =>
      if d.1 = key then (d.2 : Multiset Nat) else 0) +
    (p.fetches : Multiset (QpKey × Nat)).filterMap fun f => if f.1 = key then some f.2 else none

/-- Published entries have a timer, or it could not be armed. -/
def Timed (p : Pipes) (key : QpKey) : Prop :=
  (p.qps key).published ≠ [] → (p.qps key).batchEvent = true ∨ key ∈ p.unarmed

/-- The first entry of a queue pair still waits for its descriptor. -/
def Fronted (p : Pipes) (key : QpKey) : Prop :=
  ∀ id ∈ (p.qps key).pcieFetched.head?, id ∉ p.pcieReady

/-- An entry whose doorbell was rung is ready, or its doorbell write or descriptor read is
on its way; and nothing else is. -/
structure Fed (p : Pipes) : Prop where
  awaited : ∀ key,
    (((p.qps key).pcieFetched.filter (· ∉ p.pcieReady) : List Nat) : Multiset Nat) = p.awaited key
  ready : ∀ id ∈ p.pcieReady, ∃ key, id ∈ (p.qps key).pcieFetched

/-- No entry is stuck. -/
structure Flowing (p : Pipes) : Prop where
  fed : p.Fed
  timed : ∀ key, p.Timed key
  fronted : ∀ key, p.Fronted key

/-- No work is in two places. -/
structure Apart (p : Pipes) : Prop where
  once : ∀ key, (p.qps key).pcieFetched.Nodup
  key_eq : ∀ key k id, id ∈ (p.qps key).pcieFetched → id ∈ (p.qps k).pcieFetched → key = k

/-- The first entry leaves for execution. -/
def pop (p : Pipes) (key : QpKey) (id : Nat) (rest : List Nat) : Pipes :=
  { p with
    qps := update p.qps key { p.qps key with pcieFetched := rest }
    pcieReady := p.pcieReady.erase id }

@[simp] theorem pop_self : ((p.pop key id rest).qps key) = { p.qps key with pcieFetched := rest } :=
  update_self ..

@[simp] theorem pop_of_ne (hk : k ≠ key) : (p.pop key id rest).qps k = p.qps k :=
  update_of_ne hk ..

theorem Apart.pop (hp : p.Apart) (hid : (p.qps key).pcieFetched = id :: rest) :
    (p.pop key id rest).Apart := by
  have hsub : ∀ k, ((p.pop key id rest).qps k).pcieFetched.Sublist (p.qps k).pcieFetched := by
    intro k
    by_cases hk : k = key
    · subst hk
      rw [pop_self, hid]
      exact List.sublist_cons_self id rest
    · rw [pop_of_ne hk]
  constructor
  · intro k
    exact (hp.once k).sublist (hsub k)
  · intro k k' j hj hj'
    exact hp.key_eq k k' j ((hsub k).subset hj) ((hsub k').subset hj')

theorem Fed.pop (hp : p.Apart) (hv : p.Fed) (hid : (p.qps key).pcieFetched = id :: rest)
    (hready : id ∈ p.pcieReady) : (p.pop key id rest).Fed := by
  have hnodup := hp.once key
  rw [hid] at hnodup
  have hnot := (List.nodup_cons.mp hnodup).1
  -- what is left does not contain the work that leaves
  have hsame : ∀ l : List Nat, id ∉ l →
      l.filter (· ∉ p.pcieReady.erase id) = l.filter (· ∉ p.pcieReady) := by
    intro l hl
    apply List.filter_congr
    intro j hj
    have hne : j ≠ id := fun h => hl (h ▸ hj)
    simp [hne]
  constructor
  · intro k
    show (((((p.pop key id rest).qps k).pcieFetched.filter (· ∉ p.pcieReady.erase id) : List Nat)) :
      Multiset Nat) = p.awaited k
    rw [← hv.awaited k]
    congr 1
    by_cases hk : k = key
    · subst hk
      rw [pop_self, hsame rest hnot, hid, List.filter_cons_of_neg (by simpa using hready)]
    · rw [pop_of_ne hk]
      refine hsame _ fun h => hk ?_
      exact hp.key_eq k key id h (hid ▸ List.mem_cons_self)
  · intro j hj
    obtain ⟨hne, hj⟩ := Finset.mem_erase.mp hj
    obtain ⟨k, hk⟩ := hv.ready j hj
    refine ⟨k, ?_⟩
    by_cases h : k = key
    · subst h
      rw [hid, List.mem_cons] at hk
      rw [pop_self]
      exact hk.resolve_left hne
    · rw [pop_of_ne h]
      exact hk

variable {i : Nat}

/-- A descriptor is there. -/
theorem Fed.read (hp : p.Apart) (hv : p.Fed) (hi : p.fetches[i]? = some (key, id)) :
    ({ p with fetches := p.fetches.eraseIdx i, pcieReady := insert id p.pcieReady } : Pipes).Fed := by
  have hbag := coe_eraseIdx_add hi
  have hfetches : ∀ k, p.awaited k =
      ({ p with fetches := p.fetches.eraseIdx i, pcieReady := insert id p.pcieReady } : Pipes).awaited k +
        if key = k then {id} else 0 := by
    intro k
    simp only [Pipes.awaited]
    rw [← hbag, Multiset.filterMap_add, add_assoc]
    congr 2
    split <;> rename_i hk <;> simp [hk]
  have hmem : id ∈ (p.qps key).pcieFetched.filter (· ∉ p.pcieReady) := by
    rw [← Multiset.mem_coe, hv.awaited key, hfetches key, if_pos rfl]
    simp
  have hin := (List.mem_filter.mp hmem).1
  constructor
  · intro k
    show ((((p.qps k).pcieFetched.filter (· ∉ insert id p.pcieReady) : List Nat)) : Multiset Nat) = _
    have hold := (hv.awaited k).trans (hfetches k)
    by_cases hk : key = k
    · subst hk
      rw [if_pos rfl] at hold
      have herase : (p.qps key).pcieFetched.filter (· ∉ insert id p.pcieReady) =
          ((p.qps key).pcieFetched.filter (· ∉ p.pcieReady)).erase id := by
        rw [((hp.once key).filter _).erase_eq_filter, List.filter_filter]
        apply List.filter_congr
        intro j _
        by_cases hj : j = id <;> simp [hj]
      rw [herase, ← Multiset.coe_erase, hold, add_comm, Multiset.singleton_add,
        Multiset.erase_cons_head]
    · rw [if_neg hk, add_zero] at hold
      rw [← hold]
      congr 1
      apply List.filter_congr
      intro j hj
      have hne : j ≠ id := by
        rintro rfl
        exact hk (hp.key_eq _ _ _ hin hj)
      simp [hne]
  · intro j hj
    rcases Finset.mem_insert.mp hj with rfl | hj
    · exact ⟨key, hin⟩
    · exact hv.ready j hj

theorem awaited_rung {ids : List Nat} (hi : p.doorbells[i]? = some (key, ids)) (k : QpKey) :
    ({ p with
      doorbells := p.doorbells.eraseIdx i
      fetches := p.fetches ++ ids.map fun id => (key, id) } : Pipes).awaited k = p.awaited k := by
  have hbag := coe_eraseIdx_add hi
  simp only [Pipes.awaited]
  rw [← hbag, Multiset.add_bind, Multiset.singleton_bind, ← Multiset.coe_add,
    Multiset.filterMap_add, Multiset.filterMap_coe _ (ids.map _), List.filterMap_map]
  have hids : ((ids.filterMap ((fun f : QpKey × Nat => if f.1 = k then some f.2 else none) ∘
      fun id => (key, id)) : List Nat) : Multiset Nat) = if key = k then (ids : Multiset Nat) else 0 := by
    by_cases hk : key = k
    · simp [hk]
    · simp [hk]
  rw [hids, add_assoc, add_comm (Multiset.filterMap _ _)]

theorem flowing_congr {p' : Pipes} (hfed : p.Fed) (hfront : ∀ k, p.Fronted k)
    (hdoorbells : p'.doorbells = p.doorbells) (hfetches : p'.fetches = p.fetches)
    (hready : p'.pcieReady = p.pcieReady)
    (hfetched : ∀ k, (p'.qps k).pcieFetched = (p.qps k).pcieFetched) (htimed : ∀ k, p'.Timed k) :
    p'.Flowing := by
  refine ⟨⟨?_, ?_⟩, htimed, ?_⟩
  · intro k
    rw [hfetched, hready, hfed.awaited k, Pipes.awaited, Pipes.awaited, hdoorbells, hfetches]
  · intro j hj
    obtain ⟨k, hk⟩ := hfed.ready j (hready ▸ hj)
    exact ⟨k, (hfetched k).symm ▸ hk⟩
  · intro k j hj
    rw [hfetched] at hj
    rw [hready]
    exact hfront k j hj

/-- A doorbell is rung: the published entries join those whose descriptor is awaited. -/
theorem flowing_ring {p' : Pipes} {ids : List Nat} (hfed : p.Fed) (hfront : ∀ k, p.Fronted k)
    (hdoorbells : p'.doorbells = p.doorbells ++ [(key, ids)]) (hfetches : p'.fetches = p.fetches)
    (hready : p'.pcieReady = p.pcieReady) (hfresh : ∀ id ∈ ids, id ∉ p.pcieReady)
    (hfetched : ∀ k, (p'.qps k).pcieFetched =
      (p.qps k).pcieFetched ++ if k = key then ids else []) (htimed : ∀ k, p'.Timed k) :
    p'.Flowing := by
  have hall : ids.filter (· ∉ p.pcieReady) = ids := by
    rw [List.filter_eq_self]
    intro j hj
    exact decide_eq_true (hfresh j hj)
  refine ⟨⟨?_, ?_⟩, htimed, ?_⟩
  · intro k
    have hold := hfed.awaited k
    simp only [Pipes.awaited] at hold ⊢
    rw [hfetched, hready, hdoorbells, hfetches, List.filter_append, ← Multiset.coe_add, hold,
      ← Multiset.coe_add, Multiset.add_bind, Multiset.coe_singleton, Multiset.singleton_bind,
      add_assoc, add_assoc, add_comm (Multiset.filterMap _ _)]
    congr 2
    by_cases hk : k = key
    · subst hk
      rw [if_pos rfl, if_pos rfl, hall]
    · rw [if_neg hk, if_neg (Ne.symm hk)]
      rfl
  · intro j hj
    obtain ⟨k, hk⟩ := hfed.ready j (hready ▸ hj)
    refine ⟨k, ?_⟩
    rw [hfetched]
    exact List.mem_append_left _ hk
  · intro k j hj
    rw [hready]
    rw [hfetched] at hj
    cases hold : (p.qps k).pcieFetched with
    | nil =>
        rw [hold, List.nil_append] at hj
        split at hj
        · exact hfresh j (List.mem_of_mem_head? hj)
        · cases hj
    | cons x rest =>
        apply hfront k
        rw [hold, List.cons_append, List.head?_cons] at hj
        rw [hold, List.head?_cons]
        exact hj

end Pipes

namespace Submission

variable {σ σ' : Submission} {key : QpKey} {id : Nat} {w : Work}

theorem mem_line_of_fetched (hstray : σ.NoStray) (hid : id ∈ (σ.qps key).pcieFetched) :
    id ∈ (σ.ledger.qps key).line := by
  show id ∈ ((σ.qps key).ledger σ.config).line
  by_cases htlp : σ.config.pcieModel = .tlp
  · simp only [Qp.ledger, htlp, if_true, List.mem_append]
    exact .inl (.inl hid)
  · have hempty := hstray key
    simp only [Qp.ledger, htlp, if_false] at hempty
    rw [hempty] at hid
    cases hid

theorem line_eq (hf : σ.ledger.Flagged) {k : QpKey} (hid : id ∈ (σ.ledger.qps key).line)
    (hk : id ∈ (σ.ledger.qps k).line) : key = k := by
  obtain ⟨w, hw, hkey, -⟩ := hf.line key id hid
  obtain ⟨w', hw', hkey', -⟩ := hf.line k id hk
  rw [hw] at hw'
  cases hw'
  exact hkey.symm.trans hkey'

theorem apart_pipes (hf : σ.ledger.Flagged) (hstray : σ.NoStray) : σ.pipes.Apart := by
  constructor
  · intro k
    by_cases htlp : σ.config.pcieModel = .tlp
    · have hnodup := hf.once k
      simp only [ledger, view, Function.comp, Qp.ledger, htlp, if_true] at hnodup
      exact (List.nodup_append.mp (List.nodup_append.mp hnodup).1).1
    · have hempty := hstray k
      simp only [Qp.ledger, htlp, if_false] at hempty
      show (σ.qps k).pcieFetched.Nodup
      rw [hempty]
      exact List.nodup_nil
  · intro k k' j hj hj'
    exact line_eq hf (mem_line_of_fetched hstray hj) (mem_line_of_fetched hstray hj')

theorem pcieFetched_setQp {q : Qp} (hq : q.pcieFetched = (σ.qps key).pcieFetched) (k : QpKey) :
    ((σ.setQp key q).pipes.qps k).pcieFetched = (σ.pipes.qps k).pcieFetched := by
  by_cases hk : k = key
  · subst hk
    simp only [pipes, setQp, update_self, Qp.pipe, hq]
  · simp only [pipes, setQp, update_of_ne hk]

theorem timed_setQp {q : Qp} {k : QpKey} (hk : k ≠ key) (htimed : σ.pipes.Timed k) :
    (σ.setQp key q).pipes.Timed k := by
  simp only [Pipes.Timed, pipes, setQp, update_of_ne hk] at htimed ⊢
  exact htimed

/-- `Ring`: what was published has no timer any more, and needs none. -/
theorem flowing_ring (hf : σ.ledger.Flagged) (hstray : σ.NoStray) (hfed : σ.pipes.Fed)
    (htimed : ∀ k, k ≠ key → σ.pipes.Timed k) (hfront : ∀ k, σ.pipes.Fronted k) :
    (σ.ring key).pipes.Flowing := by
  have hquiet : ∀ {q : Qp}, q.published = [] →
      ∀ k, (({ σ.setQp key q with }).pipes).Timed k := by
    intro q hq k hne
    by_cases hk : k = key
    · subst hk
      simp only [pipes, setQp, update_self, Qp.pipe] at hne
      exact absurd hq hne
    · exact timed_setQp hk (htimed k hk) hne
  unfold ring
  simp only
  split
  · rename_i hnone
    exact Pipes.flowing_congr hfed hfront rfl rfl rfl (pcieFetched_setQp (by rfl)) (hquiet hnone)
  · split
    · rename_i htlp
      refine @Pipes.flowing_ring _ _ _ (σ.qps key).published hfed hfront rfl rfl rfl ?_ ?_
        (hquiet (by rfl))
      -- a published work is in one place only
      · intro j hj hready
        obtain ⟨k, hk⟩ := hfed.ready j hready
        have hline : j ∈ (σ.ledger.qps key).line := by
          simp only [ledger, view, Function.comp, Qp.ledger, htlp, if_true, List.mem_append]
          exact .inl (.inr hj)
        have heq := line_eq hf (mem_line_of_fetched hstray hk) hline
        subst heq
        have hnodup := hf.once k
        simp only [ledger, view, Function.comp, Qp.ledger, htlp, if_true] at hnodup
        exact (List.nodup_append.mp (List.nodup_append.mp hnodup).1).2.2 j hk j hj rfl
      · intro k
        by_cases hk : k = key
        · subst hk
          simp only [pipes, setQp, update_self, Qp.pipe, if_true]
        · simp only [pipes, setQp, update_of_ne hk, if_neg hk, List.append_nil]
    · exact Pipes.flowing_congr hfed hfront rfl rfl rfl (pcieFetched_setQp (by rfl)) (hquiet (by rfl))

theorem ledger_ring (σ : Submission) (key : QpKey) : (σ.ring key).ledger = σ.ledger := view_ring σ key {}

theorem noStray_of_ledger (hstray : σ.NoStray) (h : σ'.ledger = σ.ledger) : σ'.NoStray := by
  intro k
  have heq := congrFun (congrArg View.qps h) k
  exact (congrArg Ledger.stray heq).trans (hstray k)

theorem flowing_ringAll (hf : σ.ledger.Flagged) (hstray : σ.NoStray) (hv : σ.pipes.Flowing)
    (keys : List QpKey) : (σ.ringAll keys).pipes.Flowing := by
  unfold ringAll
  induction keys generalizing σ with
  | nil => exact hv
  | cons key keys ih =>
      rw [List.foldl_cons]
      refine ih ?_ (noStray_of_ledger hstray (ledger_ring σ key)) ?_
      · rw [ledger_ring]
        exact hf
      · exact flowing_ring hf hstray hv.fed (fun k _ => hv.timed k) hv.fronted

theorem flowing_batchTimeout (hf : σ.ledger.Flagged) (hstray : σ.NoStray) (hv : σ.pipes.Flowing) :
    (σ.batchTimeout key).pipes.Flowing := by
  unfold batchTimeout
  split
  · exact flowing_ring hf hstray hv.fed (fun k _ => hv.timed k) hv.fronted
  · exact hv

/-- `Publish` rings at once, or there is a timer, or it was not armed. -/
theorem flowing_publish (hf : σ.ledger.Flagged) (hstray : σ.NoStray) (hv : σ.pipes.Flowing)
    (h : σ.publish key = .ok σ') : σ'.pipes.Flowing := by
  unfold publish at h
  split at h
  · cases h
    exact hv
  · rename_i id rest hpub
    split at h
    · cases h
    · simp only at h
      split at h
      · cases h
        have hledger : (σ.setQp key { σ.qps key with
            publishing := rest, published := (σ.qps key).published ++ [id] }).ledger = σ.ledger :=
          view_setQp_same (by simp [Qp.ledger, hpub])
        have hmid : ∀ {q : Qp}, q.pcieFetched = (σ.qps key).pcieFetched →
            (σ.setQp key q).pipes.Fed ∧ ∀ k, (σ.setQp key q).pipes.Fronted k := by
          intro q hq
          refine ⟨⟨?_, ?_⟩, ?_⟩
          · intro k
            rw [pcieFetched_setQp hq]
            exact hv.fed.awaited k
          · intro j hj
            obtain ⟨k, hk⟩ := hv.fed.ready j hj
            exact ⟨k, (pcieFetched_setQp hq k).symm ▸ hk⟩
          · intro k j hj
            rw [pcieFetched_setQp hq] at hj
            exact hv.fronted k j hj
        refine flowing_ring ?_ (noStray_of_ledger hstray hledger) (hmid (by rfl)).1
          (fun k hk => timed_setQp hk (hv.timed k))
          (hmid (by rfl)).2
        rw [hledger]
        exact hf
      · split at h
        · rename_i hpending
          cases h
          refine Pipes.flowing_congr hv.fed hv.fronted rfl rfl rfl (pcieFetched_setQp (by rfl)) ?_
          intro k
          by_cases hk : k = key
          · subst hk
            intro _
            refine .inl ?_
            simpa only [pipes, setQp, update_self, Qp.pipe] using hpending
          · exact timed_setQp hk (hv.timed k)
        · split at h
          · cases h
            refine Pipes.flowing_congr hv.fed hv.fronted rfl rfl rfl (pcieFetched_setQp (by rfl)) ?_
            intro k
            by_cases hk : k = key
            · subst hk
              intro _
              refine .inl ?_
              simp only [pipes, setQp, update_self, Qp.pipe]
            · exact timed_setQp hk (hv.timed k)
          · cases h
            refine Pipes.flowing_congr hv.fed hv.fronted rfl rfl rfl
              (fun k => pcieFetched_setQp (by rfl) k) ?_
            intro k
            by_cases hk : k = key
            · subst hk
              exact fun _ => .inr List.mem_cons_self
            · intro hne
              exact (timed_setQp hk (hv.timed k) hne).imp_right (List.mem_cons_of_mem _)

variable {i : Nat}

theorem flowing_fetchPublished (hv : σ.pipes.Flowing) (h : σ.fetchPublished i = .ok σ') :
    σ'.pipes.Flowing := by
  unfold fetchPublished at h
  split at h
  · cases h
    exact hv
  · rename_i key ids hi
    split at h
    · cases h
    · cases h
      refine ⟨⟨?_, hv.fed.ready⟩, hv.timed, hv.fronted⟩
      intro k
      exact (hv.fed.awaited k).trans (Pipes.awaited_rung (p := σ.pipes) hi k).symm

theorem flowing_execute (hv : σ.pipes.Flowing) (h : σ.execute key = .ok σ') : σ'.pipes.Flowing := by
  unfold execute at h
  split at h
  · cases h
    exact hv
  · rename_i id rest hfetch
    rw [pipes_executeWork h]
    have hqps : ∀ k, ((σ.setQp key { σ.qps key with fetching := rest }).pipes.qps k).pcieFetched =
          (σ.pipes.qps k).pcieFetched ∧
        ((σ.setQp key { σ.qps key with fetching := rest }).pipes.Timed k ↔ σ.pipes.Timed k) := by
      intro k
      by_cases hk : k = key
      · subst hk
        simp [Pipes.Timed, pipes, setQp, Qp.pipe]
      · simp [Pipes.Timed, pipes, setQp, update_of_ne hk]
    exact Pipes.flowing_congr hv.fed hv.fronted rfl rfl rfl (fun k => (hqps k).1)
      fun k => (hqps k).2.mpr (hv.timed k)

/-- `PumpPcieFetch` stops at an entry whose descriptor is not there. -/
theorem flowing_pumpPcieFetch {fuel : Nat} (hfuel : (σ.pipes.qps key).pcieFetched.length ≤ fuel)
    (hp : σ.pipes.Apart) (hfed : σ.pipes.Fed) (htimed : ∀ k, σ.pipes.Timed k)
    (hfront : ∀ k, k ≠ key → σ.pipes.Fronted k) (h : pumpPcieFetch fuel σ key = .ok σ') :
    σ'.pipes.Flowing := by
  have hstop : σ.pipes.Fronted key → σ.pipes.Flowing := by
    intro hkey
    refine ⟨hfed, htimed, ?_⟩
    intro k
    by_cases hk : k = key
    · exact hk ▸ hkey
    · exact hfront k hk
  induction fuel generalizing σ with
  | zero =>
      cases h
      apply hstop
      intro j hj
      rw [List.eq_nil_of_length_eq_zero (Nat.le_zero.mp hfuel)] at hj
      cases hj
  | succ fuel ih =>
      simp only [pumpPcieFetch] at h
      split at h
      · rename_i hnone
        replace hnone : (σ.pipes.qps key).pcieFetched = [] := hnone
        cases h
        apply hstop
        intro j hj
        rw [hnone] at hj
        cases hj
      · rename_i id rest hid
        replace hid : (σ.pipes.qps key).pcieFetched = id :: rest := hid
        split at h
        · rename_i hready
          obtain ⟨σ₁, h₁, h₂⟩ := bind_eq_ok.mp h
          have hpop : σ₁.pipes = σ.pipes.pop key id rest := by
            rw [pipes_executeWork h₁]
            simp only [pipes, setQp, Pipes.pop]
            congr 1
            funext k
            by_cases hk : k = key
            · subst hk
              rw [update_self, update_self]
              rfl
            · rw [update_of_ne hk, update_of_ne hk]
          have hrest : ∀ k, k ≠ key → σ₁.pipes.Fronted k := by
            intro k hk j hj hin
            rw [hpop] at hj hin
            rw [Pipes.pop_of_ne hk] at hj
            exact hfront k hk j hj (Finset.mem_of_mem_erase hin)
          have htime : ∀ k, σ₁.pipes.Timed k := by
            intro k
            rw [hpop]
            by_cases hk : k = key
            · subst hk
              simp only [Pipes.Timed, Pipes.pop_self]
              exact htimed k
            · simp only [Pipes.Timed, Pipes.pop_of_ne hk]
              exact htimed k
          have hfed₁ : σ₁.pipes.Fed := hpop ▸ hfed.pop hp hid hready
          refine ih ?_ (hpop ▸ hp.pop hid) hfed₁ htime hrest h₂ ?_
          · rw [hpop, Pipes.pop_self]
            rw [hid, List.length_cons] at hfuel
            exact Nat.le_of_succ_le_succ hfuel
          · intro hkey
            refine ⟨hfed₁, htime, ?_⟩
            intro k
            by_cases hk : k = key
            · exact hk ▸ hkey
            · exact hrest k hk
        · rename_i hready
          cases h
          apply hstop
          intro j hj
          rw [hid, List.head?_cons] at hj
          cases hj
          exact hready

theorem flowing_fetched (hp : σ.pipes.Apart) (hv : σ.pipes.Flowing) (h : σ.fetched i = .ok σ')
    : σ'.pipes.Flowing := by
  unfold fetched at h
  split at h
  · cases h
    exact hv
  · rename_i key id hi
    have hread := hv.fed.read hp hi
    refine flowing_pumpPcieFetch
      (σ := { σ with fetches := σ.fetches.eraseIdx i, pcieReady := insert id σ.pcieReady })
      le_rfl ⟨hp.once, hp.key_eq⟩ hread hv.timed ?_ h
    intro k hk j hj hin
    rcases Finset.mem_insert.mp hin with rfl | hin
    -- the work whose descriptor is there is of another queue pair
    · have hmem : j ∈ (σ.pipes.qps key).pcieFetched := by
        have hawait : j ∈ σ.pipes.awaited key := by
          refine Multiset.mem_add.mpr (.inr ?_)
          refine (Multiset.mem_filterMap _ _).mpr ⟨(key, j), ?_, by simp⟩
          exact Multiset.mem_coe.mpr (List.mem_of_getElem? hi)
        rw [← hv.fed.awaited key, Multiset.mem_coe] at hawait
        exact (List.mem_filter.mp hawait).1
      exact hk (hp.key_eq _ _ _ (List.mem_of_mem_head? hj) hmem)
    · exact hv.fronted k j hj hin

theorem flowing_exec {a : Act} (hf : σ.ledger.Flagged) (hstray : σ.NoStray) (hv : σ.pipes.Flowing)
    (h : σ.exec a = .ok σ') : σ'.pipes.Flowing := by
  by_cases ha : a.moves = false
  · rw [pipes_exec ha h]
    exact hv
  · cases a with
    | fence peer =>
        cases h
        exact flowing_ringAll (σ := record { σ with
          fences := update σ.fences peer (σ.nextId - 1) } (.fenced peer))
          ⟨hf.order, hf.line, hf.once⟩ hstray hv _
    | quiet =>
        cases h
        exact flowing_ringAll (σ := { σ with
          quiet := σ.quiet ++ [(σ.nextId - 1, σ.quietCalls)]
          quietCalls := σ.quietCalls + 1 }) hf hstray hv _
    | publish key => exact flowing_publish hf hstray hv h
    | batchTimeout key =>
        cases h
        exact flowing_batchTimeout hf hstray hv
    | fetchPublished i => exact flowing_fetchPublished hv h
    | fetched i => exact flowing_fetched (apart_pipes hf hstray) hv h
    | execute key => exact flowing_execute hv h
    | _ => exact absurd rfl ha

theorem flowing_invariant : submissionMachine.Invariant fun σ => σ.pipes.Flowing := by
  refine piped_invariant.strengthen ?_ ?_
  · rintro σ ⟨c, -, rfl⟩
    refine ⟨⟨?_, ?_⟩, ?_, ?_⟩ <;> simp [idle, pipes, Qp.pipe, Pipes.awaited, Pipes.Timed, Pipes.Fronted]
  · rintro σ a σ' ⟨hb, -, -⟩ hv - h
    exact flowing_exec hb.flagged hb.numbered.stray hv h

/-! ## The results -/

/-- No event of the pipeline of a queue pair is left, and none was discarded but for a batch timer. -/
structure Drained (σ : Submission) (key : QpKey) : Prop where
  publishing : (σ.qps key).publishing = []
  batchEvent : (σ.qps key).batchEvent = false
  fetching : (σ.qps key).fetching = []
  doorbells : ∀ d ∈ σ.doorbells, d.1 ≠ key
  fetches : ∀ f ∈ σ.fetches, f.1 ≠ key

instance (σ : Submission) (key : QpKey) : Decidable (σ.Drained key) :=
  decidable_of_iff ((σ.qps key).publishing = [] ∧ (σ.qps key).batchEvent = false ∧
      (σ.qps key).fetching = [] ∧ (∀ d ∈ σ.doorbells, d.1 ≠ key) ∧ ∀ f ∈ σ.fetches, f.1 ≠ key)
    ⟨fun ⟨hp, hb, hf, hd, hr⟩ => ⟨hp, hb, hf, hd, hr⟩, fun ⟨hp, hb, hf, hd, hr⟩ => ⟨hp, hb, hf, hd, hr⟩⟩

/-- The first of the entries whose doorbell was rung waits for the doorbell write or its descriptor. -/
theorem awaited_of_first {rest : List Nat} (hv : σ.pipes.Flowing)
    (hq : (σ.qps key).pcieFetched = id :: rest) :
    (∃ ids, (key, ids) ∈ σ.doorbells ∧ id ∈ ids) ∨ (key, id) ∈ σ.fetches := by
  have hq' : (σ.pipes.qps key).pcieFetched = id :: rest := hq
  have hfront : id ∉ σ.pipes.pcieReady := hv.fronted key id (by rw [hq']; rfl)
  have hmem : id ∈ σ.pipes.awaited key := by
    rw [← hv.fed.awaited key, Multiset.mem_coe, List.mem_filter, hq']
    exact ⟨List.mem_cons_self, decide_eq_true hfront⟩
  rcases Multiset.mem_add.mp hmem with hrung | hread
  · obtain ⟨⟨k, ids⟩, hd, hid⟩ := Multiset.mem_bind.mp hrung
    dsimp only at hid
    split at hid
    · rename_i hk
      exact .inl ⟨ids, hk ▸ Multiset.mem_coe.mp hd, Multiset.mem_coe.mp hid⟩
    · exact absurd hid (Multiset.notMem_zero id)
  · obtain ⟨⟨k, j⟩, hf, hid⟩ := (Multiset.mem_filterMap _ _).mp hread
    dsimp only at hid
    split at hid
    · rename_i hk
      cases hid
      exact .inr (hk ▸ Multiset.mem_coe.mp hf)
    · cases hid

theorem line_eq_append (hstray : σ.NoStray) (key : QpKey) :
    (σ.ledger.qps key).line = (σ.qps key).fetching ++ (σ.qps key).pcieFetched ++
      (σ.qps key).published ++ (σ.qps key).publishing := by
  have hempty := hstray key
  show ((σ.qps key).ledger σ.config).line = _
  by_cases htlp : σ.config.pcieModel = .tlp
  · simp only [Qp.ledger, htlp, if_true] at hempty ⊢
    rw [hempty, List.nil_append]
  · simp only [Qp.ledger, htlp, if_false] at hempty ⊢
    rw [hempty, List.append_nil]

theorem publish_ne_error (hf : σ.ledger.Flagged) (e : Fault) : σ.publish key ≠ .error e := by
  unfold publish
  split
  · simp
  · rename_i id rest hpub
    have hline : id ∈ (σ.ledger.qps key).line := by
      simp only [ledger, view, Function.comp, Qp.ledger, hpub, List.mem_append]
      exact .inr List.mem_cons_self
    obtain ⟨w, hw, -⟩ := hf.line key id hline
    have hsome : (σ.work id).isNone = false := by
      rw [ledger, view_work] at hw
      obtain ⟨w₀, hw₀, -⟩ := Option.map_eq_some_iff.mp hw
      rw [hw₀]
      rfl
    rw [hsome]
    simp only [Bool.false_eq_true, if_false]
    split
    · simp
    · split
      · simp
      · split <;> simp

theorem fetchPublished_ne_error (hf : σ.ledger.Flagged) (hstray : σ.NoStray) (hv : σ.pipes.Flowing)
    (i : Nat) (e : Fault) : σ.fetchPublished i ≠ .error e := by
  unfold fetchPublished
  split
  · simp
  · rename_i key ids hi
    have hsome : (ids.any fun id => (σ.work id).isNone) = false := by
      rw [List.any_eq_false]
      intro j hj
      have hmem : j ∈ σ.pipes.awaited key := by
        refine Multiset.mem_add.mpr (.inl (Multiset.mem_bind.mpr ⟨(key, ids), ?_, ?_⟩))
        · exact Multiset.mem_coe.mpr (List.mem_of_getElem? hi)
        · rw [if_pos rfl]
          exact Multiset.mem_coe.mpr hj
      rw [← hv.fed.awaited key, Multiset.mem_coe] at hmem
      obtain ⟨w, hw, -⟩ := hf.line key j (mem_line_of_fetched hstray (List.mem_filter.mp hmem).1)
      rw [ledger, view_work] at hw
      obtain ⟨w₀, hw₀, -⟩ := Option.map_eq_some_iff.mp hw
      rw [hw₀]
      simp
    rw [hsome]
    simp

/-- What has reached `ExecuteWork` so far. No work reached it twice, every work that did got a
slot before, and the works of a queue pair did so in the order they got their slots. The
others are in the pipeline, where each waits for an event: only a batch may be without,
when its timer could not be armed. So once no event of a queue pair is left, and no batch
timer of it was refused, all its works with a slot were executed. The pipeline never fails
on a work that has left the map. -/
structure ExecutesInOrder (σ : Submission) : Prop where
  once : (executedIds σ.log).Nodup
  reserved : ∀ id ∈ executedIds σ.log, ∃ key, id ∈ reservedIds key σ.log
  reservedOnce : ∀ key, (reservedIds key σ.log).Nodup
  order : ∀ key, executedOn key σ.log <+: reservedIds key σ.log
  waiting : ∀ key, reservedIds key σ.log = executedOn key σ.log ++ ((σ.qps key).fetching ++
    (σ.qps key).pcieFetched ++ (σ.qps key).published ++ (σ.qps key).publishing)
  awaited : ∀ key id rest, (σ.qps key).pcieFetched = id :: rest →
    (∃ ids, (key, ids) ∈ σ.doorbells ∧ id ∈ ids) ∨ (key, id) ∈ σ.fetches
  timed : ∀ key, (σ.qps key).published ≠ [] → (σ.qps key).batchEvent = true ∨ key ∈ σ.unarmed
  drained : ∀ key, σ.Drained key → key ∉ σ.unarmed → executedOn key σ.log = reservedIds key σ.log
  publish : ∀ key e, σ.publish key ≠ .error e
  fetchPublished : ∀ i e, σ.fetchPublished i ≠ .error e

/-- **At most once, in queue order, and exactly once unless an event was discarded**: in every run, for
every configuration and any order of events. -/
theorem executesInOrder : submissionMachine.Invariant ExecutesInOrder := by
  intro σ hreach
  obtain ⟨hb, hr, hv⟩ := piped_invariant σ hreach
  have hflow := flowing_invariant σ hreach
  have hstray : σ.NoStray := hb.numbered.stray
  have hwaiting (key : QpKey) : reservedIds key σ.log = executedOn key σ.log ++
      ((σ.qps key).fetching ++ (σ.qps key).pcieFetched ++ (σ.qps key).published ++
        (σ.qps key).publishing) := by
    rw [← line_eq_append hstray]
    exact hv.order key
  refine ⟨hv.executed_nodup, hv.source, hv.once, ?_, hwaiting, ?_, hflow.timed, ?_, ?_, ?_⟩
  · intro key
    exact ⟨_, (hv.order key).symm⟩
  · intro key id rest hq
    exact awaited_of_first hflow hq
  -- drained
  · intro key hdrained harmed
    have hpublished : (σ.qps key).published = [] := by
      by_contra hne
      rcases hflow.timed key hne with htimer | hunarmed
      · exact Bool.false_ne_true (hdrained.batchEvent.symm.trans htimer)
      · exact harmed hunarmed
    have hfetched : (σ.qps key).pcieFetched = [] := by
      cases hq : (σ.qps key).pcieFetched with
      | nil => rfl
      | cons id rest =>
          rcases awaited_of_first hflow hq with ⟨ids, hd, -⟩ | hf
          · exact absurd rfl (hdrained.doorbells _ hd)
          · exact absurd rfl (hdrained.fetches _ hf)
    rw [hwaiting, hdrained.fetching, hfetched, hpublished, hdrained.publishing]
    simp
  · intro key e
    exact publish_ne_error hb.flagged e
  · intro i e
    exact fetchPublished_ne_error hb.flagged hstray hflow i e

/-- Two works behind one doorbell whose descriptors come in the wrong order. -/
theorem executesInOrder_crossedReads :
    ∃ σ, submissionMachine.Reachable σ ∧ executedOn (1, 0) σ.log = [1, 2] ∧ ExecutesInOrder σ := by
  have run : (submissionMachine.runs (idle { pcieModel := .tlp, doorbellBatch := 2 })
      [.submit .write 1 64 none, .submit .write 1 64 none, .publish (1, 0), .publish (1, 0),
        .fetchPublished 0, .fetched 1, .fetched 0]).map (fun σ => executedOn (1, 0) σ.log) =
      some [1, 2] := by
    decide +kernel
  have start : submissionMachine.init (idle { pcieModel := .tlp, doorbellBatch := 2 }) :=
    ⟨_, rfl, rfl⟩
  obtain ⟨σ, reach, executed⟩ := Machine.Reachable.exists_of_runs start run
  exact ⟨σ, reach, executed, executesInOrder σ reach⟩

/-- A batch timer that would run out at `Time::Max()` is not armed: a batch that does not fill is never
rung, with no event of the queue pair left. -/
theorem unexecuted_unarmedTimer : ¬ ∀ σ, submissionMachine.Reachable σ → ∀ key, σ.Drained key →
    executedOn key σ.log = reservedIds key σ.log := by
  have run : (submissionMachine.runs (idle { doorbellBatch := 2, batchTimeout := horizon })
      [.submit .write 1 64 none, .publish (1, 0)]).map
        (fun σ => (decide (σ.Drained (1, 0)), executedOn (1, 0) σ.log, reservedIds (1, 0) σ.log)) =
      some (true, [], [1]) := by
    decide +kernel
  have start : submissionMachine.init (idle { doorbellBatch := 2, batchTimeout := horizon }) :=
    ⟨_, rfl, rfl⟩
  obtain ⟨σ, reach, same⟩ := Machine.Reachable.exists_of_runs start run
  obtain ⟨drained, same⟩ := Prod.mk.inj same
  obtain ⟨executed, reserved⟩ := Prod.mk.inj same
  intro all
  have equal := all σ reach (1, 0) (of_decide_eq_true drained)
  rw [executed, reserved] at equal
  cases equal

end Submission

end ProtoBridge.Rdma
