import ProtoBridge.Lib.Bag
import ProtoBridge.Rdma.Ledger

/-!
# Every call is a chain of ledger steps

One lemma for each function of the submission model: when it returns, the view of the
state it returns is reached from the view of the state it was given, with what was on
the agenda done. What the functions do besides, to descriptors, doorbells and staging
space, leaves the view as it is.
-/

namespace ProtoBridge.Rdma

open Lib Relation
open Function (update update_eq_self update_idem update_self)

namespace Submission

variable {C : View → Nat → Prop} {σ σ' : Submission} {l : Agenda} {key : QpKey} {id : Nat} {w : Work}

/-! ## Updates seen through the view -/

theorem view_setQp (σ : Submission) (key : QpKey) (q : Qp) (l : Agenda) :
    (σ.setQp key q).view l = (σ.view l).setQp key (q.ledger σ.config) := by
  simp only [view, setQp, View.setQp, Function.comp_update]
  rfl

theorem view_setWork (σ : Submission) (id : Nat) (w : Work) (l : Agenda) :
    (σ.setWork id w).view l = (σ.view l).setWork id w.core := by
  simp only [view, setWork, View.setWork, Function.comp_update]
  rfl

theorem view_record (σ : Submission) (e : Event) (l : Agenda) :
    (σ.record e).view l = (σ.view l).record e := rfl

@[simp] theorem view_work (σ : Submission) (l : Agenda) (id : Nat) :
    (σ.view l).work id = (σ.work id).map Work.core := rfl

theorem view_work_eq (hw : σ.work id = some w) : (σ.view l).work id = some w.core := by
  simp [hw]

variable {q : Qp} {ids rest : List Nat} {count fuel : Nat} {s : Submit}

theorem view_setQp_same (hq : q.ledger σ.config = (σ.qps key).ledger σ.config) :
    (σ.setQp key q).view l = σ.view l := by
  rw [view_setQp, hq]
  simp only [View.setQp, view]
  congr 1
  exact update_eq_self key _

theorem blockedByFence_view (σ : Submission) (l : Agenda) (w : Work) :
    (σ.view l).blockedByFence w.core = σ.blockedByFence w := by
  simp only [View.blockedByFence, blockedByFence]
  congr 1
  funext id
  rw [view_work]
  cases σ.work id <;> rfl

/-! ## Pump -/

theorem chain_reserve (hid : (σ.qps key).waiting = id :: rest) (hw : σ.work id = some w)
    (hslot : (σ.qps key).occupied < σ.config.queueDepth)
    (hcredit : w.time.opcode.usesReadAtomicCredit →
      (σ.qps key).readAtomicOccupied < σ.config.maxReadAtomic) (hfence : σ.blockedByFence w = false)
    :
    Chain C (σ.view l) ((σ.reserve key id w rest).view l) := by
  have hstep := Micro.reserve (C := C) (σ.view l) key id rest w.core hid (view_work_eq hw) hslot
    hcredit ((blockedByFence_view σ l w).trans hfence)
  refine .single (cast (congrArg _ ?_) hstep)
  unfold reserve
  rw [view_record, view_setQp, view_setWork]
  simp only [Qp.ledger, ← List.append_assoc]
  rfl

theorem chain_pumpLoop (h : pumpLoop fuel σ key = .ok σ') : Chain C (σ.view l) (σ'.view l) := by
  induction fuel generalizing σ with
  | zero =>
      cases h
      exact .refl
  | succ fuel ih =>
      simp only [pumpLoop] at h
      split at h
      · cases h
        exact .refl
      · rename_i id rest hid
        split at h
        · cases h
          exact .refl
        · rename_i hslot
          split at h
          · cases h
          · rename_i w hw
            split at h
            · cases h
              exact .refl
            · rename_i hcredit
              split at h
              · cases h
                exact .refl
              · rename_i hfence
                refine (chain_reserve hid hw (Nat.lt_of_not_le hslot) ?_ (by simpa using hfence)).trans
                  (ih h)
                intro hop
                exact Nat.lt_of_not_le fun hle => hcredit ⟨hop, hle⟩

theorem chain_pump (h : σ.pump key = .ok σ') : Chain C (σ.view l) (σ'.view l) :=
  chain_pumpLoop h

theorem chain_foldlM {α : Type} {f : Submission → α → Except Fault Submission} {as : List α}
    (hf : ∀ σ σ' a, f σ a = .ok σ' → Chain C (σ.view l) (σ'.view l))
    (h : as.foldlM f σ = .ok σ') : Chain C (σ.view l) (σ'.view l) := by
  induction as generalizing σ with
  | nil =>
      cases h
      exact .refl
  | cons a as ih =>
      rw [List.foldlM_cons] at h
      obtain ⟨σ₁, h₁, h₂⟩ := bind_eq_ok.mp h
      exact (hf _ _ _ h₁).trans (ih h₂)

theorem chain_pumpAll (h : σ.pumpAll = .ok σ') : Chain C (σ.view l) (σ'.view l) :=
  chain_foldlM (fun _ _ _ h => chain_pump h) h

/-! ## Staging -/

theorem view_touchQp (σ : Submission) (key : QpKey) (l : Agenda) :
    (σ.touchQp key).view l = σ.view l := by
  unfold touchQp
  split <;> rfl

theorem chain_enqueueWaiting (h : σ.enqueueWaiting id w = .ok σ') :
    Chain C ((σ.view l).setQp w.key
      { (σ.view l).qps w.key with waiting := insertId id ((σ.view l).qps w.key).waiting })
      (σ'.view l) := by
  unfold enqueueWaiting at h
  have hview := view_touchQp σ w.key l
  have hqps : (σ.touchQp w.key).qps = σ.qps := by
    unfold touchQp
    split <;> rfl
  simp only [hqps] at h
  have hconf : (σ.touchQp w.key).config = σ.config := by
    unfold touchQp
    split <;> rfl
  refine ReflTransGen.trans ?_ (chain_pump h)
  rw [view_setQp, hview, hconf]
  exact .refl

theorem core_grantStaging (work : Nat → Option Work) (grant : Nat × Option Nat) :
    Option.map Work.core ∘ grantStaging work grant = Option.map Work.core ∘ work := by
  unfold grantStaging
  split
  · rfl
  · rename_i id _
    rw [Function.comp_update]
    have hsame : Option.map Work.core ((work id).map fun w => { w with stagingAllocated := true }) =
        (Option.map Work.core ∘ work) id := by
      rw [Option.map_map]
      rfl
    rw [hsame, update_eq_self]

theorem core_foldl_grantStaging (grants : List (Nat × Option Nat)) (work : Nat → Option Work) :
    Option.map Work.core ∘ grants.foldl grantStaging work = Option.map Work.core ∘ work := by
  induction grants generalizing work with
  | nil => rfl
  | cons g grants ih =>
      rw [List.foldl_cons, ih, core_grantStaging]

theorem upstream_pumpSourceStaging (σ : Submission) : σ.pumpSourceStaging.upstream = σ.upstream := by
  simp only [upstream, pumpSourceStaging, ← σ.staging.pump_owes, List.filterMap_append,
    ← Multiset.coe_add]
  ac_rfl

theorem view_pumpSourceStaging (σ : Submission) (l : Agenda) :
    σ.pumpSourceStaging.view l = σ.view l := by
  have hwork := core_foldl_grantStaging σ.staging.granted σ.work
  have hup := upstream_pumpSourceStaging σ
  simp only [view, hup]
  simp only [pumpSourceStaging] at hwork ⊢
  rw [hwork]

variable {bytes i : Nat}

theorem view_stageSourcePayload (h : σ.stageSourcePayload bytes = .ok σ') :
    σ'.view l = σ.view l := by
  unfold stageSourcePayload at h
  split at h
  · cases h
  · cases h
    rw [view_pumpSourceStaging]
    have hup : ({ σ with staging := σ.staging.request bytes (bytes, none) } : Submission).upstream =
        σ.upstream := by
      simp [upstream]
    simp only [view, hup]

theorem view_release (σ : Submission) (bytes lent : Nat) (l : Agenda) :
    ({ σ with staging := σ.staging.release bytes, lent := lent } : Submission).view l = σ.view l := by
  rfl

theorem view_releaseSourceStaging (h : σ.releaseSourceStaging bytes = .ok σ') :
    σ'.view l = σ.view l := by
  unfold releaseSourceStaging at h
  split at h
  · cases h
  · cases h
    rw [view_pumpSourceStaging, view_release]

theorem view_giveBack (h : σ.giveBack bytes = .ok σ') : σ'.view l = σ.view l := by
  unfold giveBack at h
  split at h
  · cases h
  · split at h
    · cases h
      rfl
    · cases h
      rw [view_pumpSourceStaging]
      exact view_release σ bytes σ.lent l

theorem chain_copied (hC : ∀ bytes id, σ.copies[i]? = some (bytes, some id) → C (σ.view l) id)
    (h : σ.copied i = .ok σ') : Chain C (σ.view l) (σ'.view l) := by
  unfold copied at h
  split at h
  · cases h
    exact .refl
  · rename_i bytes hi
    cases h
    have hup : ({ σ with copies := σ.copies.eraseIdx i } : Submission).upstream = σ.upstream := by
      have hbag := coe_eraseIdx_add hi
      have hmap := congrArg (Multiset.filterMap Prod.snd) hbag
      simp only [Multiset.filterMap_add, Multiset.filterMap_coe] at hmap
      simp only [upstream, ← hmap]
      simp
    have hview : ({ σ with copies := σ.copies.eraseIdx i } : Submission).view l = σ.view l := by
      simp only [view, hup]
    rw [hview]
  · rename_i bytes id hi
    split at h
    · cases h
    · rename_i w hw
      have hbag := coe_eraseIdx_add hi
      have hmap := congrArg (Multiset.filterMap Prod.snd) hbag
      simp only [Multiset.filterMap_add, Multiset.filterMap_coe] at hmap
      have hup : σ.upstream =
          ({ σ with copies := σ.copies.eraseIdx i } : Submission).upstream + {id} := by
        simp only [upstream, ← hmap]
        rw [← add_assoc]
        rfl
      have hmem : id ∈ (σ.view l).upstream := by
        change id ∈ σ.upstream
        rw [hup]
        simp
      have hstep := Micro.copy (C := C) (σ.view l) id w.core hmem (view_work_eq hw) (hC _ _ hi)
      refine ReflTransGen.head hstep ?_
      have herase : (σ.view l).upstream.erase id =
          ({ σ with copies := σ.copies.eraseIdx i } : Submission).upstream := by
        change σ.upstream.erase id = _
        rw [hup, add_comm, Multiset.singleton_add, Multiset.erase_cons_head]
      rw [herase]
      exact chain_enqueueWaiting (l := l) h

/-! ## Submission -/

theorem live_lt (h : id ∈ σ.live) : id < σ.nextId := by
  simp only [live, List.mem_filter, List.mem_range] at h
  exact h.1

theorem payloadFence_lt (hpos : 0 < σ.nextId) (key : QpKey) : σ.payloadFence key < σ.nextId := by
  unfold payloadFence
  refine List.foldlRecOn (motive := (· < σ.nextId)) _ _ hpos ?_
  intro fence hfence id hid
  split
  · split
    · exact max_lt hfence (live_lt hid)
    · exact hfence
  · exact hfence

/-- One turn of the loop that cuts a request up. -/
theorem chain_addWork (index offset : Nat) (hpos : 0 < σ.nextId) (hreq : l.request = s)
    (hleft : l.left = count + 1) (hclosed : l.closed = false)
    (hrem : count + 1 ≤ σ.remaining s.requestId) (hcurrent : 0 < s.requestId) :
    Micro C (σ.view l) ((σ.addWork (σ.newWork s index offset)).view
      { l with
        back := l.back ++ [σ.nextId]
        left := count
        closed := decide (index = dataChunks σ.config s.opcode s.bytes) }) := by
  subst hreq
  have hremaining : update (σ.view l).remaining (σ.view l).request.requestId
      ((σ.view l).remaining (σ.view l).request.requestId + 1) =
      update σ.remaining l.request.requestId
        (σ.remaining l.request.requestId - count) := by
    simp only [view, update_self, update_idem]
    congr 1
    omega
  by_cases hsig : index = dataChunks σ.config l.request.opcode l.request.bytes
  · have hop : (σ.newWork l.request index offset).time.opcode = .signal := by
      simp only [newWork, if_pos hsig]
    have hfence : (σ.newWork l.request index offset).fenceThrough = σ.nextId - 1 := by
      simp only [newWork, if_pos hsig]
    have hstep := Micro.addSignal (C := C) (σ.view l) (σ.newWork l.request index offset).core rfl rfl
      rfl ⟨rfl, rfl, rfl, rfl⟩ hclosed hop hfence hcurrent
    refine cast (congrArg _ ?_) hstep
    rw [hremaining]
    simp only [view, addWork, Function.comp_update, hsig, decide_true, List.append_assoc]
    rfl
  · have hop : (σ.newWork l.request index offset).time.opcode = l.request.opcode := by
      simp only [newWork, if_neg hsig]
    -- the fence is the peer's, or the last payload of the queue pair for a read or an atomic
    obtain ⟨raw, hraw, hfence⟩ : ∃ raw < σ.nextId,
        (σ.newWork l.request index offset).fenceThrough = max (σ.fences l.request.peer) raw := by
      simp only [newWork, if_neg hsig]
      split
      · exact ⟨_, payloadFence_lt hpos _, rfl⟩
      · exact ⟨0, hpos, rfl⟩
    have hstep := Micro.addData (C := C) (σ.view l) (σ.newWork l.request index offset).core raw rfl rfl
      rfl ⟨rfl, rfl, rfl, rfl⟩ hclosed hop hraw hfence hcurrent
    refine cast (congrArg _ ?_) hstep
    rw [hremaining]
    simp only [view, addWork, Function.comp_update, hsig, decide_false, List.append_assoc]
    simp only [hclosed]
    rfl

theorem addWork_config (σ : Submission) (w : Work) : (σ.addWork w).config = σ.config := rfl

/-- The whole loop. The signal is the last work of its request. -/
theorem chain_addWorks (index offset : Nat) (hpos : 0 < σ.nextId) (hreq : l.request = s)
    (hleft : l.left = count) (hclosed : 0 < count → l.closed = false)
    (hrem : count ≤ σ.remaining s.requestId)
    (hindex : 0 < count → index + count = dataChunks σ.config s.opcode s.bytes + signalItems s.opcode)
    (hcurrent : 0 < s.requestId) :
    Chain C (σ.view l) ((addWorks s count index offset σ).view
      { front := l.front, back := l.back ++ List.range' σ.nextId count, due := l.due
        refusing := l.refusing, unfinished := l.unfinished }) := by
  induction count generalizing σ l index offset with
  | zero =>
      refine .single ?_
      have hstep := Micro.closeRequest (C := C) (σ.view l)
        { opcode := .write, peer := 0, bytes := 0, producer := none, requestId := 0 } rfl
      refine cast (congrArg _ ?_) hstep
      simp only [addWorks, view, hleft, Nat.sub_zero, update_eq_self, List.range'_zero,
        List.append_nil]
  | succ count ih =>
      have hstep := chain_addWork (C := C) index offset hpos hreq hleft
        (hclosed (Nat.succ_pos _)) hrem hcurrent
      refine ReflTransGen.head hstep ?_
      simp only [addWorks]
      have hlast := hindex (Nat.succ_pos _)
      have hnext := ih (σ := σ.addWork (σ.newWork s index offset))
        (l := { l with
          back := l.back ++ [σ.nextId]
          left := count
          closed := decide (index = dataChunks σ.config s.opcode s.bytes) })
        (index + 1)
        (if index = dataChunks σ.config s.opcode s.bytes then offset
          else offset + (σ.newWork s index offset).time.bytes)
        (Nat.succ_pos _) hreq rfl ?_ (Nat.le_of_succ_le hrem) ?_
      · refine cast (congrArg _ ?_) hnext
        simp only [List.append_assoc, List.range'_succ]
        rfl
      · intro hcount
        -- at most one signal item follows the data, so it is the last
        have hsmall : signalItems s.opcode ≤ 1 := by
          unfold signalItems
          split <;> omega
        exact decide_eq_false (by omega)
      · intro _
        rw [addWork_config]
        omega

theorem chain_enqueue (hfront : l.front = id :: rest) (h : σ.enqueue id = .ok σ')
    : Chain C (σ.view l) (σ'.view { l with front := rest }) := by
  unfold enqueue at h
  have hstarting : (σ.view l).starting = id :: (rest ++ σ.handoffs.flatten ++ l.back) := by
    simp only [view, hfront, List.cons_append]
  split at h
  · cases h
  · rename_i w hw
    split at h
    · cases h
      refine .single (cast (congrArg _ ?_)
        (Micro.stage (C := C) (σ.view l) id _ w.core hstarting (view_work_eq hw)))
      have hup : σ.upstream + {id} =
          ({ σ with staging := σ.staging.request w.time.bytes (w.time.bytes, some id) } :
            Submission).upstream := by
        simp only [upstream, Pool.owed_request, List.filterMap_append, ← Multiset.coe_add]
        exact add_right_comm _ _ _
      simp only [view, ← hup]
    · refine ReflTransGen.head
        (Micro.start (C := C) (σ.view l) id _ w.core hstarting (view_work_eq hw)) ?_
      exact chain_enqueueWaiting (l := { l with front := rest }) h

theorem chain_start (hfront : l.front = ids) (h : σ.start ids = .ok σ') :
    Chain C (σ.view l) (σ'.view { l with front := [] }) := by
  obtain ⟨σ₁, h₁, h₂⟩ := bind_eq_ok.mp h
  cases h₂
  rw [view_pumpSourceStaging]
  clear h
  induction ids generalizing σ l with
  | nil =>
      cases h₁
      rw [← hfront]
  | cons id ids ih =>
      rw [List.foldlM_cons] at h₁
      obtain ⟨σ₂, henq, hrest⟩ := bind_eq_ok.mp h₁
      exact (chain_enqueue hfront henq).trans
        (ih (l := { l with front := ids }) rfl hrest)

theorem addWorks_frame (s : Submit) (count index offset : Nat) (σ : Submission) :
    (addWorks s count index offset σ).handoffs = σ.handoffs ∧
      (addWorks s count index offset σ).config = σ.config := by
  induction count generalizing index offset σ with
  | zero => exact ⟨rfl, rfl⟩
  | succ count ih => exact ih _ _ _

theorem chain_submitOperation {opcode : Opcode} {peer : Nat} {producer : Option Nat}
    (hpos : 0 < σ.nextId) (hidle : handoffDelay σ.config = 0 → σ.handoffs = [])
    (h : σ.submitOperation opcode peer bytes producer = .ok σ') : Chain C σ.ledger σ'.ledger := by
  unfold submitOperation at h
  split at h
  · cases h
  split at h
  · cases h
  split at h
  · cases h
  simp only at h
  split at h
  · cases h
  split at h
  · cases h
  set s : Submit := { opcode, peer, bytes, producer, requestId := σ.nextId } with hs
  set count := dataChunks σ.config opcode bytes + signalItems opcode with hcount
  set ids := List.range' σ.nextId count with hids
  have hopen : Chain C σ.ledger ((σ.openRequest count).view { request := s, left := count }) := by
    refine .single (cast (congrArg _ ?_) (Micro.openRequest (C := C) σ.ledger s rfl))
    simp only [ledger, view, openRequest, hs, Nat.sub_zero, update_eq_self,
      update_self, update_idem, Nat.sub_self]
    rfl
  have hadd := chain_addWorks (C := C) (σ := σ.openRequest count) (s := s)
    (l := { request := s, left := count }) 0 0 hpos rfl rfl (fun _ => rfl)
    (by simp [openRequest, hs]) (fun _ => by simp [openRequest, hs, hcount]) hpos
  obtain ⟨hhand, hconf⟩ := addWorks_frame s count 0 0 (σ.openRequest count)
  refine (hopen.trans hadd).trans ?_
  simp only [List.nil_append]
  split at h
  · rename_i hdelay
    -- no handoff is under way, so the new works are the next to start
    have hnone : (addWorks s count 0 0 (σ.openRequest count)).handoffs = [] := by
      rw [hhand]
      apply hidle
      rw [hconf] at hdelay
      exact hdelay
    have hview : (addWorks s count 0 0 (σ.openRequest count)).view { back := ids } =
        (addWorks s count 0 0 (σ.openRequest count)).view { front := ids } := by
      simp only [view, hnone, List.flatten_nil, List.append_nil, List.nil_append]
    change Chain C ((addWorks s count 0 0 (σ.openRequest count)).view { back := ids }) _
    rw [hview]
    exact chain_start (l := { front := ids }) rfl h
  · rename_i hdelay
    cases h
    refine .single (cast (congrArg _ ?_) (Micro.regroup (C := C)
      ((addWorks s count 0 0 (σ.openRequest count)).view { back := ids })
      ((addWorks s count 0 0 (σ.openRequest count)).handoffs ++ [ids]) (fun h0 => absurd h0 hdelay)))
    simp only [ledger, view, List.flatten_append, List.flatten_singleton, List.append_nil,
      List.nil_append]
    rfl

theorem chain_handedOff (h : σ.handedOff = .ok σ') : Chain C σ.ledger σ'.ledger := by
  unfold handedOff at h
  split at h
  · cases h
    exact .refl
  · rename_i ids rest hhand
    have hregroup : Chain C σ.ledger
        (({ σ with handoffs := rest } : Submission).view { front := ids }) := by
      refine .single (cast (congrArg _ ?_) (Micro.regroup (C := C) σ.ledger rest ?_))
      · simp only [ledger, view, hhand, List.flatten_cons, List.append_nil, List.nil_append]
        rfl
      · intro _
        right
        simp only [ledger, view, hhand, List.tail_cons]
    exact hregroup.trans (chain_start (l := { front := ids }) rfl h)

/-! ## Completion -/

theorem acked_view (σ : Submission) (l : Agenda) (hw : σ.work id = some w) :
    (σ.view l).acked id = w.acked := by
  simp only [View.acked, view_work_eq hw]
  rfl

theorem readyPrefix_ok {ready : List Nat} (h : σ.readyPrefix ids = .ok ready) :
    ready = ids.takeWhile (σ.view l).acked := by
  induction ids generalizing ready with
  | nil =>
      cases h
      rfl
  | cons id ids ih =>
      simp only [readyPrefix] at h
      split at h
      · cases h
      · rename_i w hw
        have hacked := acked_view σ l hw
        split at h
        · rename_i hyes
          obtain ⟨ready', hrec, hcons⟩ := bind_eq_ok.mp h
          cases hcons
          rw [List.takeWhile_cons_of_pos (by rw [hacked, hyes]), ih hrec]
        · rename_i hno
          cases h
          rw [List.takeWhile_cons_of_neg (by rw [hacked]; exact hno)]

theorem chain_progress (hdue : l.due = some key) (h : σ.progress key = .ok σ') :
    Chain C (σ.view l) (σ'.view { l with due := none }) := by
  obtain ⟨ready, hready, h⟩ := bind_eq_ok.mp h
  have heq : ready = (σ.view l).ready key := readyPrefix_ok hready
  split at h
  · rename_i hnil
    cases h
    exact .single (.pass (σ.view l) key hdue (.inl (heq ▸ hnil)))
  · rename_i hne
    split at h
    · rename_i hwait
      cases h
      exact .single (.pass (σ.view l) key hdue (.inr (heq ▸ hwait)))
    · cases h
      refine .single (cast (congrArg _ ?_) (Micro.signal (C := C) (σ.view l) key hdue (heq ▸ hne)))
      rw [← heq, signal, view_record, view_setQp]
      rfl

theorem chain_markFailed (hw : σ.work id = some w) (hex : w.executed = true) :
    Chain C (σ.view l) ((σ.markFailed id w).view l) := by
  unfold markFailed
  split
  · exact .refl
  · rename_i hok
    replace hok : w.failed = false := by simpa using hok
    refine .single (cast (congrArg _ ?_)
      (Micro.fail (C := C) (σ.view l) id w.core (view_work_eq hw) hex hok))
    rw [view_record]
    simp only [view, View.setWork, Function.comp_update]
    rfl

theorem chain_acknowledgeWork (hw : σ.work id = some w) (hex : w.executed = true)
    (hok : w.acked = false) (hdue : l.due = none)
    (hr : l.refusing = none ∨ l.refusing = some id ∧ w.failed = true)
    (h : σ.acknowledgeWork id w = .ok σ') :
    Chain C (σ.view l) (σ'.view { l with refusing := none }) := by
  obtain ⟨σ₁, h₁, h₂⟩ := bind_eq_ok.mp h
  refine ReflTransGen.trans ?_ (chain_pumpAll h₂)
  refine ReflTransGen.head (.ack (σ.view l) id w.core (view_work_eq hw) hex hok hdue hr) ?_
  have hprog := chain_progress (C := C) (l := { l with due := some w.key, refusing := none }) rfl h₁
  rw [view_record, view_setWork] at hprog
  have hl : ({ l with due := none, refusing := none } : Agenda) = { l with refusing := none } := by
    rw [← hdue]
  simp only [hl] at hprog
  exact hprog

theorem chain_notifyOperationComplete {success : Bool} (hheard : σ.Heard id) (hdue : l.due = none)
    (hr : l.refusing = none ∨ l.refusing = some id ∧ success = false ∧ (σ.work id).isSome)
    (h : σ.notifyOperationComplete id success = .ok σ') :
    Chain C (σ.view l) (σ'.view { l with refusing := none }) := by
  have hnone : l.refusing = none → ({ l with refusing := none } : Agenda) = l := by
    intro hl
    rw [← hl]
  unfold notifyOperationComplete at h
  split at h
  · rename_i hw
    cases h
    rcases hr with hr | ⟨-, -, hsome⟩
    · rw [hnone hr]
    · rw [hw] at hsome
      cases hsome
  · rename_i w hw
    have hex := hheard w hw
    split at h
    · rename_i hacked
      cases h
      rcases hr with hr | ⟨hr, -, -⟩
      · rw [hnone hr]
      · exact .single (.settle (σ.view l) id w.core hr (view_work_eq hw) hacked)
    · rename_i hok
      replace hok : w.acked = false := by simpa using hok
      split at h
      · rename_i hsuccess
        refine chain_acknowledgeWork hw hex hok hdue (.inl ?_) h
        rcases hr with hr | ⟨-, hfalse, -⟩
        · exact hr
        · rw [hsuccess] at hfalse
          cases hfalse
      · refine (chain_markFailed hw hex).trans (chain_acknowledgeWork ?_ ?_ ?_ hdue ?_ h)
        · unfold markFailed
          split
          · rename_i hfailed
            rw [hw, ← hfailed]
          · simp [record]
        · exact hex
        · exact hok
        · exact hr.imp_right fun hr => ⟨hr.1, rfl⟩

theorem chain_notifyPacketAck (hheard : σ.Heard id) (hdue : l.due = none) (hr : l.refusing = none)
    (h : σ.notifyPacketAck id bytes = .ok σ') : Chain C (σ.view l) (σ'.view l) := by
  have hl : ({ l with refusing := none } : Agenda) = l := by
    rw [← hr]
  unfold notifyPacketAck at h
  split at h
  · cases h
    exact .refl
  · rename_i w hw
    have hex := hheard w hw
    split at h
    · cases h
      exact .refl
    · rename_i hok
      split at h
      · cases h
      · split at h
        · cases h
          -- a partial acknowledgement only counts bytes
          rw [view_setWork]
          have hsame : (σ.view l).setWork id
              ({ w with acknowledgedBytes := w.acknowledgedBytes + bytes } : Work).core =
              σ.view l := by
            have hcore : some ({ w with acknowledgedBytes := w.acknowledgedBytes + bytes } : Work).core =
                (σ.view l).work id := (view_work_eq hw).symm
            simp only [View.setWork, hcore, update_eq_self]
          rw [hsame]
        · have hack := chain_acknowledgeWork (C := C) hw hex (by simpa using hok) hdue (.inl hr) h
          rw [hl] at hack
          exact hack

theorem chain_notifyFailure (hheard : σ.Heard id) :
    Chain C (σ.view l) ((σ.notifyFailure id).view l) := by
  unfold notifyFailure
  split
  · exact .refl
  · rename_i w hw
    exact chain_markFailed hw (hheard w hw)

theorem covered_view (σ : Submission) (l : Agenda) (key : QpKey) (through : Nat) :
    (σ.view l).covered key through = σ.covered key through := by
  simp only [View.covered, covered]
  congr 1
  funext id
  rw [view_work]
  cases σ.work id <;> rfl

theorem credited_view (σ : Submission) (l : Agenda) (ids : List Nat) :
    (σ.view l).credited ids = σ.credited ids := by
  simp only [View.credited, credited]
  congr 1
  funext id
  rw [view_work]
  cases σ.work id <;> rfl

theorem chain_finish {works : List Work} (hw : l.unfinished = works) (hreq : l.left = 0)
    (hidle : l.request.requestId = 0) :
    Chain C (σ.view l) ((works.foldl finish σ).view { l with unfinished := [] }) := by
  induction works generalizing σ l with
  | nil =>
      have hl : ({ l with unfinished := [] } : Agenda) = l := by
        rw [← hw]
      rw [hl]
      exact .refl
  | cons w works ih =>
      rw [List.foldl_cons]
      refine ReflTransGen.head ?_ (ih (l := { l with unfinished := works }) rfl hreq hidle)
      have hrem : (σ.view l).remaining = σ.remaining := by
        simp only [view, hreq, Nat.sub_zero, update_eq_self]
      have hunf : (σ.view l).unfinished = w.core :: works.map Work.core := by
        simp only [view, hw, List.map_cons]
      refine cast (congrArg _ ?_) (Micro.finish (C := C) (σ.view l) w.core _ hunf hidle)
      simp only [hrem]
      unfold finish
      simp only [update_self]
      have htime : w.core.time = w.time := rfl
      have hfailed : w.core.failed = w.failed := rfl
      simp only [htime, hfailed]
      split <;> simp only [view, record, hreq, Nat.sub_zero, update_eq_self] <;> rfl

theorem chain_checkQuiet (σ : Submission) (l : Agenda) :
    Chain C (σ.view l) (σ.checkQuiet.view l) := by
  have hgo : ∀ (es : List Event) (v : View), (∀ e ∈ es, ∃ n b, e = .quieted n b) →
      Chain C v { v with log := v.log ++ es } := by
    intro es
    induction es with
    | nil =>
        intro v _
        rw [List.append_nil]
    | cons e es ih =>
        intro v hes
        obtain ⟨n, b, rfl⟩ := hes e (by simp)
        refine ReflTransGen.head (.quieted v n b) ?_
        have hrest := ih (v.record (.quieted n b)) fun e he => hes e (by simp [he])
        simp only [View.record, List.append_assoc, List.cons_append, List.nil_append] at hrest
        exact hrest
  refine hgo _ (σ.view l) ?_
  intro e he
  obtain ⟨q, -, rfl⟩ := List.mem_map.mp he
  exact ⟨_, _, rfl⟩

/-- A completion write arrives: what it covers is erased, slots are filled, the next
completions are looked at and the callbacks run. -/
theorem chain_completionWritten (h : σ.completionWritten key i = .ok σ') :
    Chain C σ.ledger σ'.ledger := by
  unfold completionWritten at h
  split at h
  · cases h
    exact .refl
  · rename_i through ids hi
    set σ₀ := σ.setQp key
      { σ.qps key with completions := (σ.qps key).completions.eraseIdx i } with hσ₀
    obtain ⟨σ₁, h₁, h⟩ := bind_eq_ok.mp h
    obtain ⟨σ₂, h₂, h⟩ := bind_eq_ok.mp h
    obtain ⟨σ₃, h₃, h⟩ := bind_eq_ok.mp h
    cases h
    set works := (σ₀.covered key through).filterMap σ₀.work with hworks
    have hcov : σ.ledger.covered key through = σ₀.covered key through := covered_view σ {} key through
    have hcred : σ.ledger.credited (σ₀.covered key through) =
        σ₀.credited (σ₀.covered key through) := credited_view σ {} _
    have hunf : (σ₀.covered key through).filterMap σ.ledger.work = works.map Work.core := by
      rw [hworks, List.map_filterMap]
      rfl
    have herase : Chain C σ.ledger
        ((σ₀.erase key through).view { due := some key, unfinished := works }) := by
      refine .single (cast (congrArg _ ?_)
        (Micro.observe (C := C) σ.ledger key i through ids rfl rfl hi))
      rw [hcov, hcred, hunf, erase, view_record, view_setQp]
      have hold : σ₀.qps key = { σ.qps key with completions := (σ.qps key).completions.eraseIdx i } := by
        simp only [hσ₀, setQp, update_self]
      have hmap : (fun id => if id ∈ σ₀.covered key through then none else σ.ledger.work id) =
          Option.map Work.core ∘ fun id =>
            if id ∈ σ₀.covered key through then none else σ₀.work id := by
        funext id
        simp only [Function.comp]
        split <;> rfl
      have hqps : ∀ q, update σ.ledger.qps key q =
          update (Qp.ledger σ₀.config ∘ σ₀.qps) key q := by
        intro q
        simp only [hσ₀, setQp, Function.comp_update, update_idem]
        rfl
      rw [hmap, hold]
      simp only [View.setQp, hqps]
      rfl
    refine herase.trans ?_
    rw [← view_giveBack (l := { due := some key, unfinished := works }) h₁]
    refine (chain_pump h₂).trans ((chain_progress rfl h₃).trans ?_)
    exact (chain_finish (l := { unfinished := works }) rfl rfl rfl).trans (chain_checkQuiet _ _)

/-! ## Publication and execution -/

/-- `Ring` moves the published entries on in their line. -/
theorem view_ring (σ : Submission) (key : QpKey) (l : Agenda) : (σ.ring key).view l = σ.view l := by
  unfold ring
  simp only
  split
  · exact view_setQp_same rfl
  · split
    · rename_i htlp
      have hsame : (σ.setQp key { σ.qps key with
          batchEvent := false, published := []
          pcieFetched := (σ.qps key).pcieFetched ++ (σ.qps key).published }).view l = σ.view l :=
        view_setQp_same (by simp [Qp.ledger, htlp])
      exact hsame
    · rename_i htlp
      exact view_setQp_same (by simp [Qp.ledger, htlp])

theorem view_publish (h : σ.publish key = .ok σ') : σ'.view l = σ.view l := by
  unfold publish at h
  split at h
  · cases h
    rfl
  · rename_i id rest hpub
    split at h
    · cases h
    · simp only at h
      split at h
      · cases h
        rw [view_ring]
        exact view_setQp_same (by simp [Qp.ledger, hpub])
      · split at h
        · cases h
          exact view_setQp_same (by simp [Qp.ledger, hpub])
        · split at h
          · cases h
            exact view_setQp_same (by simp [Qp.ledger, hpub])
          · cases h
            show (σ.setQp key _).view l = σ.view l
            exact view_setQp_same (by simp [Qp.ledger, hpub])

theorem view_batchTimeout (σ : Submission) (key : QpKey) (l : Agenda) :
    (σ.batchTimeout key).view l = σ.view l := by
  unfold batchTimeout
  split
  · exact view_ring σ key l
  · rfl

theorem view_ringAll (σ : Submission) (keys : List QpKey) (l : Agenda) :
    (σ.ringAll keys).view l = σ.view l := by
  unfold ringAll
  induction keys generalizing σ with
  | nil => rfl
  | cons key keys ih => exact (ih _).trans (view_ring σ key l)

/-- The first of a line is executed. -/
theorem chain_executeWork (rest : List Nat) {r : Finset Nat}
    (hline : ((σ.qps key).ledger σ.config).line = id :: rest)
    (hq : q.ledger σ.config = { (σ.qps key).ledger σ.config with line := rest })
    (hdue : l.due = none) (hr : l.refusing = none)
    (h : executeWork ({ σ with pcieReady := r }.setQp key q) id = .ok σ') :
    Chain C (σ.view l) (σ'.view l) := by
  have hl : ({ l with refusing := none } : Agenda) = l := by
    rw [← hr]
  have hpop : (({ σ with pcieReady := r } : Submission).setQp key q).view l =
      (σ.view l).setQp key { (σ.view l).qps key with line := rest } := by
    rw [view_setQp]
    exact congrArg ((σ.view l).setQp key) hq
  unfold executeWork at h
  split at h
  · rename_i hw
    cases h
    rw [hpop]
    refine .single (.skip (σ.view l) key id rest hline ?_)
    rw [view_work]
    exact congrArg _ hw
  · rename_i w hw
    have hvw : (σ.view l).work id = some w.core := view_work_eq hw
    simp only at h
    split at h
    · rename_i hrefused
      have hbad : w.time.opcode = .signal ∧ σ.succeeded w.time.requestId = false := by
        simpa [setQp] using hrefused
      have hstep := Micro.refuse (C := C) (σ.view l) key id rest w.core hline hvw hr hbad.1 hbad.2
      refine ReflTransGen.head hstep ?_
      have hnotify := chain_notifyOperationComplete (C := C) (l := { l with refusing := some id })
        ?_ hdue (.inr ⟨rfl, rfl, ?_⟩) h
      · simp only [hl] at hnotify
        refine cast (congrArg (fun v => Chain C v _) ?_) hnotify
        rw [view_record, view_setWork, hrefused]
        rw [view_setQp]
        simp only [View.setQp, View.setWork, View.record]
        congr 1
        exact congrArg (update (σ.view l).qps key) hq
      · intro w' hw'
        simp only [record, setWork, update_self] at hw'
        cases hw'
        rfl
      · simp [record, setWork]
    · rename_i hrefused
      have hfine : w.time.opcode ≠ .signal ∨ σ.succeeded w.time.requestId = true := by
        simp only [setQp, Bool.and_eq_true, beq_iff_eq, Bool.not_eq_true', not_and] at hrefused
        by_cases hop : w.time.opcode = .signal
        · exact .inr (by simpa using hrefused hop)
        · exact .inl hop
      cases h
      refine .single (cast (congrArg _ ?_)
        (Micro.execute (C := C) (σ.view l) key id rest w.core hline hvw hr hfine))
      have hflag : (!(w.time.opcode == .signal && !σ.succeeded w.time.requestId)) = true := by
        rcases hfine with hop | hok
        · simp [hop]
        · simp [hok]
      rw [view_record, view_setWork, hpop]
      simp only [setQp] at hflag ⊢
      rw [hflag]
      rfl

/-- The lists that the PCIe model does not use are empty. -/
def NoStray (σ : Submission) : Prop := ∀ key, ((σ.qps key).ledger σ.config).stray = []

theorem chain_execute (hstray : σ.NoStray) (hdue : l.due = none) (hr : l.refusing = none)
    (h : σ.execute key = .ok σ') : Chain C (σ.view l) (σ'.view l) := by
  unfold execute at h
  split at h
  · cases h
    exact .refl
  · rename_i id rest hfetch
    have hmodel : σ.config.pcieModel ≠ .tlp := by
      intro htlp
      have hempty := hstray key
      simp only [Qp.ledger, htlp, if_true, hfetch] at hempty
      cases hempty
    refine chain_executeWork (r := σ.pcieReady)
      (rest ++ (σ.qps key).published ++ (σ.qps key).publishing) ?_ ?_ hdue hr h
    · simp [Qp.ledger, hmodel, hfetch]
    · simp [Qp.ledger, hmodel]

theorem view_fetchPublished (h : σ.fetchPublished i = .ok σ') : σ'.view l = σ.view l := by
  unfold fetchPublished at h
  split at h
  · cases h
    rfl
  · split at h
    · cases h
    · cases h
      rfl

theorem stray_step {v v' : View} (h : Micro C v v') :
    (∀ key, (v'.qps key).stray = (v.qps key).stray) ∧ v'.config = v.config := by
  cases h with
  | start | copy | reserve | execute | refuse | skip | signal | observe =>
      exact ⟨update_same Ledger.stray (by rfl), rfl⟩
  | _ => exact ⟨fun _ => rfl, rfl⟩

theorem noStray_chain (hstray : σ.NoStray) (h : Chain C (σ.view l) (σ'.view l)) : σ'.NoStray := by
  intro key
  refine star_preserves (P := fun v : View => (v.qps key).stray = []) ?_ h (hstray key)
  intro v v' hv hstep
  exact ((stray_step hstep).1 key).trans hv

theorem chain_pumpPcieFetch (hstray : σ.NoStray) (hdue : l.due = none) (hr : l.refusing = none)
    (h : pumpPcieFetch fuel σ key = .ok σ') : Chain C (σ.view l) (σ'.view l) := by
  induction fuel generalizing σ with
  | zero =>
      cases h
      exact .refl
  | succ fuel ih =>
      simp only [pumpPcieFetch] at h
      split at h
      · cases h
        exact .refl
      · rename_i id rest hfetch
        have hmodel : σ.config.pcieModel = .tlp := by
          by_contra hmodel
          have hempty := hstray key
          simp only [Qp.ledger, hmodel, if_false, hfetch] at hempty
          cases hempty
        split at h
        · obtain ⟨σ₁, h₁, h₂⟩ := bind_eq_ok.mp h
          have hone : Chain C (σ.view l) (σ₁.view l) := by
            refine chain_executeWork
              (rest ++ (σ.qps key).published ++ (σ.qps key).publishing) ?_ ?_ hdue hr h₁
            · simp [Qp.ledger, hmodel, hfetch]
            · simp [Qp.ledger, hmodel]
          exact hone.trans (ih (noStray_chain hstray hone) h₂)
        · cases h
          exact .refl

theorem chain_fetched (hstray : σ.NoStray) (hdue : l.due = none) (hr : l.refusing = none)
    (h : σ.fetched i = .ok σ') : Chain C (σ.view l) (σ'.view l) := by
  unfold fetched at h
  split at h
  · cases h
    exact .refl
  · rename_i key id hi
    exact chain_pumpPcieFetch
      (σ := { σ with fetches := σ.fetches.eraseIdx i, pcieReady := insert id σ.pcieReady })
      hstray hdue hr h

/-! ## Every action -/

/-- The condition `C` holds when the action ends the copy of a work. -/
def MeetsCopy (C : View → Nat → Prop) (σ : Submission) : Act → Prop
  | .copied i => ∀ bytes id, σ.copies[i]? = some (bytes, some id) → C σ.ledger id
  | _ => True

/-- An action of the model is a chain of ledger steps. -/
theorem chain_exec {a : Act} (hpos : 0 < σ.nextId)
    (hidle : handoffDelay σ.config = 0 → σ.handoffs = []) (hstray : σ.NoStray) (hen : σ.enabled a)
    (hC : MeetsCopy C σ a) (h : σ.exec a = .ok σ') : Chain C σ.ledger σ'.ledger := by
  have hrefl : σ'.ledger = σ.ledger → Chain C σ.ledger σ'.ledger := by
    intro hsame
    rw [hsame]
  cases a with
  | submit opcode peer bytes producer => exact chain_submitOperation hpos hidle h
  | fence peer =>
      cases h
      refine .single (cast (congrArg _ ?_) (Micro.fence (C := C) σ.ledger peer))
      exact (view_ringAll
        (record { σ with fences := update σ.fences peer (σ.nextId - 1) } (.fenced peer))
        _ {}).symm
  | quiet =>
      cases h
      have hring := view_ringAll
        { σ with
          quiet := σ.quiet ++ [(σ.nextId - 1, σ.quietCalls)]
          quietCalls := σ.quietCalls + 1 } σ.qpKeys {}
      have hquiet := chain_checkQuiet (C := C) (ringAll
        { σ with
          quiet := σ.quiet ++ [(σ.nextId - 1, σ.quietCalls)]
          quietCalls := σ.quietCalls + 1 } σ.qpKeys) {}
      rw [hring] at hquiet
      exact hquiet
  | notifyPacketAck id bytes => exact chain_notifyPacketAck hen rfl rfl h
  | notifyOperationComplete id success =>
      exact chain_notifyOperationComplete (l := {}) hen rfl (.inl rfl) h
  | notifyFailure id =>
      cases h
      exact chain_notifyFailure hen
  | stageSourcePayload bytes => exact hrefl (view_stageSourcePayload h)
  | releaseSourceStaging bytes => exact hrefl (view_releaseSourceStaging h)
  | handedOff => exact chain_handedOff h
  | copied i => exact chain_copied hC h
  | publish key => exact hrefl (view_publish h)
  | batchTimeout key =>
      cases h
      exact hrefl (view_batchTimeout σ key {})
  | fetchPublished i => exact hrefl (view_fetchPublished h)
  | fetched i => exact chain_fetched hstray rfl rfl h
  | execute key => exact chain_execute hstray rfl rfl h
  | completionWritten key i => exact chain_completionWritten h
  | tick ticks =>
      cases h
      exact hrefl rfl

end Submission

end ProtoBridge.Rdma
