import ProtoBridge.Collective.AlltoAllLayout
import ProtoBridge.Lib.Count

/-!
# Runs of AlltoAll

All that the members hold can be read off the log of a run: a rank has come as far as the bytes of final
hops make whole chunks, and that says which transfers are due.
-/

namespace ProtoBridge.Collective

open Lib Fabric

namespace AlltoAllObs

/-- The bytes that an event brings a rank of the chunk that is for it. -/
def finalBytes (dest : Nat) : AlltoAllObs → Nat
  | .delivered t bytes => if t.dst = dest ∧ t.final = dest then bytes else 0
  | _ => 0

end AlltoAllObs

namespace AlltoAllRun

variable {a : AlltoAll} {c : AlltoAllRun} {log : List AlltoAllObs} {e : AlltoAllObs}
  {t : AlltoAllTransfer} {origin dest inter gpu step bytes : Nat}

/-! ## Observations of a log -/

/-- The bytes of final hops that have arrived at a rank. -/
def arrivedAt (log : List AlltoAllObs) (dest : Nat) : Nat :=
  (log.map (AlltoAllObs.finalBytes dest)).sum

/-- The whole chunks that a rank has got, all of them where a chunk is empty. -/
def progress (a : AlltoAll) (log : List AlltoAllObs) (dest : Nat) : Nat :=
  if a.chunkSizeOf dest = 0 then a.numGpus - 1 else arrivedAt log dest / a.chunkSizeOf dest

theorem deliveredOf_append (log log' : List AlltoAllObs) (t : AlltoAllTransfer) :
    deliveredOf (log ++ log') t = deliveredOf log t + deliveredOf log' t := by
  rw [deliveredOf, List.map_append, List.sum_append]
  rfl

theorem arrivedAt_append (log log' : List AlltoAllObs) (dest : Nat) :
    arrivedAt (log ++ log') dest = arrivedAt log dest + arrivedAt log' dest := by
  rw [arrivedAt, List.map_append, List.sum_append]
  rfl

theorem bytesSent_append (a : AlltoAll) (log log' : List AlltoAllObs) :
    bytesSent a (log ++ log') = bytesSent a log + bytesSent a log' := by
  rw [bytesSent, List.map_append, List.sum_append]
  rfl

theorem deliveredOf_delivered (log : List AlltoAllObs) (t t' : AlltoAllTransfer) (bytes : Nat) :
    deliveredOf (log ++ [.delivered t bytes]) t' =
      deliveredOf log t' + if t = t' then bytes else 0 := by
  rw [deliveredOf_append]
  simp [deliveredOf, AlltoAllObs.bytesOf]

theorem arrivedAt_delivered (log : List AlltoAllObs) (t : AlltoAllTransfer) (bytes dest : Nat) :
    arrivedAt (log ++ [.delivered t bytes]) dest =
      arrivedAt log dest + if t.dst = dest ∧ t.final = dest then bytes else 0 := by
  rw [arrivedAt_append]
  simp [arrivedAt, AlltoAllObs.finalBytes]

/-- An event that brings nothing. -/
def Brings (e : AlltoAllObs) : Prop := ∃ t bytes, e = .delivered t bytes

theorem deliveredOf_snoc (he : ¬ Brings e) (t : AlltoAllTransfer) :
    deliveredOf (log ++ [e]) t = deliveredOf log t := by
  rw [deliveredOf_append]
  cases e with
  | delivered t' bytes => exact absurd ⟨t', bytes, rfl⟩ he
  | sent t' => rfl
  | completed => rfl

theorem arrivedAt_snoc (he : ¬ Brings e) (dest : Nat) :
    arrivedAt (log ++ [e]) dest = arrivedAt log dest := by
  rw [arrivedAt_append]
  cases e with
  | delivered t' bytes => exact absurd ⟨t', bytes, rfl⟩ he
  | sent t' => rfl
  | completed => rfl

theorem progress_snoc (he : ¬ Brings e) (dest : Nat) :
    progress a (log ++ [e]) dest = progress a log dest := by
  unfold progress
  rw [arrivedAt_snoc he]

theorem count_completed_snoc (he : e ≠ .completed) :
    (log ++ [e]).count .completed = log.count .completed := by
  rw [List.count_append, List.count_singleton]
  simp [he]

/-! ## What is due -/

/-- What a log lets the ranks send behind the first event: on the ring the steps up to the chunks that
the rank has got, else the chunk for each other rank, and on the grid the chunk behind its first hop. -/
inductive Due (a : AlltoAll) (log : List AlltoAllObs) : AlltoAllTransfer → Prop
  | step {gpu step : Nat} : a.mode = .ringPipeline → gpu < a.numGpus → step < a.numGpus - 1 →
      step ≤ progress a log gpu → Due a log (a.stepTransfer gpu step)
  | chunk {origin dest : Nat} : a.mode ≠ .ringPipeline → origin < a.numGpus → dest < a.numGpus →
      origin ≠ dest → Due a log (a.chunkTransfer origin dest)
  | forward {origin dest inter : Nat} : origin < a.numGpus → dest < a.numGpus →
      a.intermediate origin dest = some inter → 0 < a.chunkSizeOf dest →
      deliveredOf log (a.chunkTransfer origin dest) = a.chunkSizeOf dest →
      Due a log (a.finalTransfer origin dest)

theorem due_ring_iff (hmode : a.mode = .ringPipeline) :
    Due a log t ↔ ∃ gpu < a.numGpus, ∃ step < a.numGpus - 1, step ≤ progress a log gpu ∧
      t = a.stepTransfer gpu step := by
  constructor
  · intro h
    cases h with
    | step _ hgpu hstep hle => exact ⟨_, hgpu, _, hstep, hle, rfl⟩
    | chunk hother => exact absurd hmode hother
    | forward _ _ hinter => exact absurd hmode (AlltoAll.mode_of_intermediate hinter)
  · rintro ⟨gpu, hgpu, step, hstep, hle, rfl⟩
    exact .step hmode hgpu hstep hle

/-- A transfer brings a chunk of one rank to another, or to the rank between. -/
def Hop (a : AlltoAll) (t : AlltoAllTransfer) : Prop :=
  ∃ origin < a.numGpus, ∃ dest < a.numGpus, origin ≠ dest ∧ (t = a.finalTransfer origin dest ∨
    ∃ inter, a.intermediate origin dest = some inter ∧ t = a.chunkTransfer origin dest)

theorem Due.hop (h : Due a log t) (hr : a.Lawful) : Hop a t := by
  have htwo := hr.two
  cases h with
  | step hmode hgpu hstep hle =>
      refine ⟨_, hgpu, _, Nat.mod_lt _ (by omega), (AlltoAll.stepOf_of_step hgpu hstep).1, .inl ?_⟩
      exact AlltoAll.stepTransfer_eq_final hmode hgpu hstep
  | @chunk origin dest hmode horigin hdest hne =>
      refine ⟨origin, horigin, dest, hdest, hne, ?_⟩
      cases hinter : a.intermediate origin dest with
      | none => exact .inl (AlltoAll.chunkTransfer_eq_final hmode hinter)
      | some inter => exact .inr ⟨inter, rfl, rfl⟩
  | forward horigin hdest hinter hpos hcame =>
      exact ⟨_, horigin, _, hdest, (hr.intermediate horigin hinter).2.2.1, .inl rfl⟩

theorem Hop.final_iff (h : Hop a t) (hr : a.Lawful) (dest : Nat) :
    t.dst = dest ∧ t.final = dest ↔
      t.origin < a.numGpus ∧ dest < a.numGpus ∧ t.origin ≠ dest ∧
        t = a.finalTransfer t.origin dest := by
  obtain ⟨origin, horigin, dest', hdest', hne, rfl | ⟨inter, hinter, rfl⟩⟩ := h
  · rw [AlltoAll.finalTransfer_origin, AlltoAll.finalTransfer_final horigin hdest' hne,
      AlltoAll.finalTransfer_dst horigin hdest' hne]
    constructor
    · rintro ⟨rfl, -⟩
      exact ⟨horigin, hdest', hne, rfl⟩
    · rintro ⟨-, hdest, hother, heq⟩
      have hfinal := congrArg AlltoAllTransfer.final heq
      rw [AlltoAll.finalTransfer_final horigin hdest' hne,
        AlltoAll.finalTransfer_final horigin hdest hother] at hfinal
      exact ⟨hfinal, hfinal⟩
  · have hbetween := (hr.intermediate horigin hinter).2.1
    rw [AlltoAll.chunkTransfer_origin, AlltoAll.chunkTransfer_final,
      AlltoAll.chunkTransfer_dst hinter]
    constructor
    · rintro ⟨rfl, rfl⟩
      exact absurd rfl hbetween
    · rintro ⟨-, hdest, hother, heq⟩
      have hdst := congrArg AlltoAllTransfer.dst heq
      have hfinal := congrArg AlltoAllTransfer.final heq
      rw [AlltoAll.chunkTransfer_dst hinter, AlltoAll.finalTransfer_dst horigin hdest hother] at hdst
      rw [AlltoAll.chunkTransfer_final, AlltoAll.finalTransfer_final horigin hdest hother] at hfinal
      exact absurd (hdst.trans hfinal.symm) hbetween

/-! ## Ledgers -/

/-- Transfers are sent when they are due, each byte of them arrives behind that and once, and what a rank
has got came by the last hops to it. -/
structure Ledger (a : AlltoAll) (log : List AlltoAllObs) : Prop where
  sends : Justified (fun pre e => ∀ t, e = .sent t → Due a pre t) log
  flown : ∀ t, deliveredOf log t ≠ 0 → .sent t ∈ log
  cap : ∀ t, deliveredOf log t ≤ a.chunkSizeOf t.final
  pooled : ∀ dest < a.numGpus, arrivedAt log dest =
    ∑ origin ∈ (Finset.range a.numGpus).erase dest, deliveredOf log (a.finalTransfer origin dest)

theorem Ledger.nil : Ledger a [] where
  sends := .nil
  flown _ h := absurd rfl h
  cap _ := Nat.zero_le _
  pooled _ _ := (Finset.sum_eq_zero fun _ _ => rfl).symm

theorem Ledger.hop (h : Ledger a log) (hr : a.Lawful) (hsent : .sent t ∈ log) : Hop a t := by
  obtain ⟨pre, post, heq⟩ := List.append_of_mem hsent
  exact (h.sends pre _ post heq t rfl).hop hr

theorem Ledger.snoc (h : Ledger a log) (he : ¬ Brings e) (hdue : ∀ t, e = .sent t → Due a log t) :
    Ledger a (log ++ [e]) where
  sends := h.sends.snoc hdue
  flown t hcame := by
    rw [deliveredOf_snoc he] at hcame
    exact List.mem_append_left _ (h.flown t hcame)
  cap t := (deliveredOf_snoc he t).le.trans (h.cap t)
  pooled dest hdest := by
    rw [arrivedAt_snoc he, h.pooled dest hdest]
    exact Finset.sum_congr rfl fun origin _ => (deliveredOf_snoc he _).symm

theorem Ledger.deliver (h : Ledger a log) (hr : a.Lawful) (hsent : .sent t ∈ log)
    (hcap : deliveredOf log t + bytes ≤ a.chunkSizeOf t.final) :
    Ledger a (log ++ [.delivered t bytes]) where
  sends := h.sends.snoc fun t heq => nomatch heq
  flown t' hcame := by
    apply List.mem_append_left
    rw [deliveredOf_delivered] at hcame
    split at hcame
    · rename_i heq
      exact heq ▸ hsent
    · exact h.flown t' hcame
  cap t' := by
    rw [deliveredOf_delivered]
    split
    · rename_i heq
      exact heq ▸ hcap
    · exact h.cap t'
  pooled dest hdest := by
    have hiff := (h.hop hr hsent).final_iff hr dest
    have hshare : (if t.dst = dest ∧ t.final = dest then bytes else 0) =
        ∑ origin ∈ (Finset.range a.numGpus).erase dest,
          if t = a.finalTransfer origin dest then bytes else 0 := by
      by_cases hfinal : t.dst = dest ∧ t.final = dest
      · obtain ⟨horigin, -, hne, heq⟩ := hiff.mp hfinal
        rw [if_pos hfinal, Finset.sum_eq_single t.origin, if_pos heq]
        · intro origin _ hother
          refine if_neg fun heq' => hother ?_
          rw [heq', AlltoAll.finalTransfer_origin]
        · intro hout
          exact absurd (Finset.mem_erase.mpr ⟨hne, Finset.mem_range.mpr horigin⟩) hout
      · rw [if_neg hfinal]
        refine (Finset.sum_eq_zero ?_).symm
        intro origin hin
        obtain ⟨hne, hrange⟩ := Finset.mem_erase.mp hin
        refine if_neg fun heq => hfinal (hiff.mpr ?_)
        rw [heq, AlltoAll.finalTransfer_origin]
        exact ⟨Finset.mem_range.mp hrange, hdest, hne, rfl⟩
    rw [arrivedAt_delivered, h.pooled dest hdest, hshare, ← Finset.sum_add_distrib]
    exact Finset.sum_congr rfl fun origin _ => (deliveredOf_delivered log t _ bytes).symm

theorem Ledger.arrived_le (h : Ledger a log) (hdest : dest < a.numGpus) :
    arrivedAt log dest ≤ (a.numGpus - 1) * a.chunkSizeOf dest := by
  have hcard : ((Finset.range a.numGpus).erase dest).card = a.numGpus - 1 := by
    rw [Finset.card_erase_of_mem (Finset.mem_range.mpr hdest), Finset.card_range]
  rw [h.pooled dest hdest, ← hcard, ← smul_eq_mul]
  refine Finset.sum_le_card_nsmul _ _ _ ?_
  intro origin hin
  obtain ⟨hne, hrange⟩ := Finset.mem_erase.mp hin
  have hcap := h.cap (a.finalTransfer origin dest)
  rwa [AlltoAll.finalTransfer_final (Finset.mem_range.mp hrange) hdest hne] at hcap

theorem Ledger.full_iff (h : Ledger a log) (hdest : dest < a.numGpus) :
    progress a log dest = a.numGpus - 1 ↔ ∀ origin < a.numGpus, origin ≠ dest →
      deliveredOf log (a.finalTransfer origin dest) = a.chunkSizeOf dest := by
  have hcap : ∀ origin ∈ (Finset.range a.numGpus).erase dest,
      deliveredOf log (a.finalTransfer origin dest) ≤ a.chunkSizeOf dest := by
    intro origin hin
    obtain ⟨hne, hrange⟩ := Finset.mem_erase.mp hin
    have hcap := h.cap (a.finalTransfer origin dest)
    rwa [AlltoAll.finalTransfer_final (Finset.mem_range.mp hrange) hdest hne] at hcap
  have hall : (∀ origin < a.numGpus, origin ≠ dest →
      deliveredOf log (a.finalTransfer origin dest) = a.chunkSizeOf dest) ↔
        ∀ origin ∈ (Finset.range a.numGpus).erase dest,
          deliveredOf log (a.finalTransfer origin dest) = a.chunkSizeOf dest := by
    simp only [Finset.mem_erase, Finset.mem_range, and_imp]
    exact ⟨fun hfull origin hne horigin => hfull origin horigin hne,
      fun hfull origin horigin hne => hfull origin hne horigin⟩
  have hsum : ∑ origin ∈ (Finset.range a.numGpus).erase dest, a.chunkSizeOf dest =
      (a.numGpus - 1) * a.chunkSizeOf dest := by
    rw [Finset.sum_const, Finset.card_erase_of_mem (Finset.mem_range.mpr hdest), Finset.card_range,
      smul_eq_mul]
  rw [hall, ← Finset.sum_eq_sum_iff_of_le hcap, hsum, ← h.pooled dest hdest]
  unfold progress
  split
  · rename_i hzero
    have hle := h.arrived_le hdest
    rw [hzero, Nat.mul_zero] at hle ⊢
    exact iff_of_true rfl (Nat.le_zero.mp hle)
  · rename_i hne
    have hpos := Nat.pos_of_ne_zero hne
    constructor
    · intro hquot
      apply le_antisymm (h.arrived_le hdest)
      rw [← hquot]
      exact Nat.div_mul_le_self _ _
    · intro heq
      rw [heq, Nat.mul_div_cancel _ hpos]

theorem Ledger.progress_le (h : Ledger a log) (hdest : dest < a.numGpus) :
    progress a log dest ≤ a.numGpus - 1 := by
  unfold progress
  split
  · exact le_rfl
  · rename_i hne
    exact Nat.div_le_of_le_mul ((h.arrived_le hdest).trans_eq (Nat.mul_comm _ _))

/-! ## Completion -/

/-- The callback is called behind all bytes of all chunks. -/
def CompletesBehindArrivals (a : AlltoAll) (log : List AlltoAllObs) : Prop :=
  Justified (fun pre e => e = .completed → ∀ dest < a.numGpus, ∀ origin < a.numGpus, origin ≠ dest →
    deliveredOf pre (a.finalTransfer origin dest) = a.chunkSizeOf dest) log

/-- The ranks that have all chunks are counted, and the callback is called at the last one. -/
structure Closing (a : AlltoAll) (total : Nat) (completed : Bool) (log : List AlltoAllObs) : Prop where
  done : total =
    ((Finset.range a.numGpus).filter fun dest => progress a log dest = a.numGpus - 1).card
  ended : completed = true ↔ ∀ dest < a.numGpus, progress a log dest = a.numGpus - 1
  once : log.count .completed = if completed then 1 else 0
  completes : CompletesBehindArrivals a log

theorem Closing.snoc {total : Nat} {completed : Bool} (h : Closing a total completed log)
    (he : e ≠ .completed) (hsame : ∀ dest < a.numGpus,
      (progress a (log ++ [e]) dest = a.numGpus - 1 ↔ progress a log dest = a.numGpus - 1)) :
    Closing a total completed (log ++ [e]) where
  done := by
    rw [h.done]
    exact congrArg Finset.card
      (Finset.filter_congr fun dest hin => (hsame dest (Finset.mem_range.mp hin)).symm)
  ended := h.ended.trans
    ⟨fun hall dest hdest => (hsame dest hdest).mpr (hall dest hdest),
      fun hall dest hdest => (hsame dest hdest).mp (hall dest hdest)⟩
  once := by
    rw [count_completed_snoc he, h.once]
  completes := h.completes.snoc fun heq => absurd heq he

theorem not_brings_completed : ¬ Brings .completed := by
  rintro ⟨t, bytes, heq⟩
  cases heq

theorem not_brings_sent (t : AlltoAllTransfer) : ¬ Brings (.sent t) := by
  rintro ⟨t', bytes, heq⟩
  cases heq

/-- The count of the ranks that are done goes up, and the callback is called if that was the last. -/
theorem Closing.check {total : Nat} {completed : Bool} (h : Closing a total completed log)
    (htotal : c.totalCompletedGpus = total) (hcompleted : c.completed = completed) (hplan : c.plan = a)
    (hlog : c.log = log ++ [e]) (he : e ≠ .completed) (hledger : Ledger a c.log)
    (hdest : dest < a.numGpus) (hold : progress a log dest ≠ a.numGpus - 1)
    (hnew : progress a c.log dest = a.numGpus - 1)
    (hsame : ∀ k, k ≠ dest → progress a c.log k = progress a log k) :
    Closing a c.checkGlobalCompletion.totalCompletedGpus c.checkGlobalCompletion.completed
      c.checkGlobalCompletion.log := by
  subst htotal hcompleted
  have hopen : c.completed = false := by
    by_contra hover
    exact hold (h.ended.mp (by simpa using hover) dest hdest)
  have hcount : c.totalCompletedGpus + 1 = ((Finset.range a.numGpus).filter fun k =>
      progress a c.log k = a.numGpus - 1).card := by
    rw [h.done]
    refine (card_filter_insert hdest hold hnew ?_).symm
    intro k hk
    rw [hsame k hk]
  have honce : c.log.count .completed = 0 := by
    rw [hlog, count_completed_snoc he, h.once, hopen]
    rfl
  have hbehind : CompletesBehindArrivals a c.log := by
    rw [hlog]
    exact h.completes.snoc fun heq => absurd heq he
  unfold checkGlobalCompletion
  rw [hplan]
  dsimp only
  split
  · rename_i hfull
    have hall := forall_of_card (hcount ▸ hfull)
    have hquiet := fun k => (progress_snoc not_brings_completed k : progress a (c.log ++ [.completed]) k = _)
    constructor
    · show c.totalCompletedGpus + 1 = _
      rw [hcount]
      exact congrArg Finset.card (Finset.filter_congr fun k _ => by rw [complete, hquiet])
    · refine iff_of_true rfl ?_
      intro k hk
      exact (hquiet k).trans (hall k hk)
    · show (c.log ++ [AlltoAllObs.completed]).count .completed = 1
      rw [List.count_append, honce]
      rfl
    · refine hbehind.snoc fun _ k hk => ?_
      exact (hledger.full_iff hk).mp (hall k hk)
  · rename_i hpart
    refine ⟨hcount, ?_, ?_, hbehind⟩
    · refine iff_of_false (by simp [hopen]) ?_
      intro hall
      rw [hcount, Finset.filter_true_of_mem fun k hk => hall k (Finset.mem_range.mp hk),
        Finset.card_range] at hpart
      exact hpart le_rfl
    · show c.log.count .completed = if c.completed then 1 else 0
      rw [honce, hopen]
      rfl

end AlltoAllRun

end ProtoBridge.Collective
