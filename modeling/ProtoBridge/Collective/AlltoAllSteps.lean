import ProtoBridge.Collective.AlltoAllRuns

/-!
# Steps of AlltoAll

What is due has been sent, or there is an event that will send it. A fragment is no larger than a chunk,
so it makes at most one more chunk whole; the members keep step with the log.
-/

namespace ProtoBridge.Collective

open Lib Fabric

namespace AlltoAllRun

variable {a : AlltoAll} {c : AlltoAllRun} {log log' : List AlltoAllObs} {e : AlltoAllObs}
  {ev : AlltoAllEvent} {scheduled : List AlltoAllEvent} {t : AlltoAllTransfer}
  {origin dest inter gpu step bytes : Nat}

/-! ## Scheduled sends -/

/-- The transfer that a scheduled event starts. -/
def eventTransfer (a : AlltoAll) : AlltoAllEvent → Option AlltoAllTransfer
  | .sendGpuStepData gpu step => some (a.stepTransfer gpu step)
  | .forwardTwoDimensionalChunk origin inter final flowId =>
      some { origin, src := inter, dst := final, final, flowId }
  | _ => none

/-- How often a transfer is scheduled. -/
def pending (a : AlltoAll) (scheduled : List AlltoAllEvent) (t : AlltoAllTransfer) : Nat :=
  (scheduled.filterMap (eventTransfer a)).count t

/-- Behind the first event only transfers are scheduled. What is due was sent or is scheduled, once; all
else neither. -/
structure Sends (a : AlltoAll) (scheduled : List AlltoAllEvent) (log : List AlltoAllObs) : Prop where
  opened : ∀ ev ∈ scheduled, ∃ t, eventTransfer a ev = some t
  due : ∀ t, Due a log t → log.count (.sent t) + pending a scheduled t = 1
  other : ∀ t, ¬ Due a log t → log.count (.sent t) + pending a scheduled t = 0

theorem pending_snoc (hev : eventTransfer a ev = some t) (t' : AlltoAllTransfer) :
    pending a (scheduled ++ [ev]) t' = pending a scheduled t' + if t = t' then 1 else 0 := by
  have hone : [ev].filterMap (eventTransfer a) = [t] := by
    simp [hev]
  rw [pending, List.filterMap_append, List.count_append, hone, List.count_singleton]
  simp only [beq_iff_eq]
  rfl

theorem pending_erase {i : Nat} (hget : scheduled[i]? = some ev) (hev : eventTransfer a ev = some t)
    (t' : AlltoAllTransfer) :
    pending a scheduled t' = pending a (scheduled.eraseIdx i) t' + if t = t' then 1 else 0 := by
  obtain ⟨hi, hat⟩ := List.getElem?_eq_some_iff.mp hget
  have hperm : List.Perm (ev :: scheduled.eraseIdx i) scheduled := by
    rw [← hat]
    exact List.getElem_cons_eraseIdx_perm hi
  unfold pending
  rw [← (hperm.filterMap (eventTransfer a)).count_eq, List.filterMap_cons_some hev, List.count_cons]
  simp only [beq_iff_eq]

theorem Due.congr (hprogress : ∀ k, progress a log k = progress a log' k)
    (hcame : ∀ origin dest inter, a.intermediate origin dest = some inter →
      deliveredOf log (a.chunkTransfer origin dest) = deliveredOf log' (a.chunkTransfer origin dest))
    (h : Due a log t) : Due a log' t := by
  cases h with
  | step hmode hgpu hstep hle => exact .step hmode hgpu hstep (hprogress _ ▸ hle)
  | chunk hmode horigin hdest hne => exact .chunk hmode horigin hdest hne
  | forward horigin hdest hinter hpos hall =>
      exact .forward horigin hdest hinter hpos ((hcame _ _ _ hinter).symm.trans hall)

theorem due_snoc (he : ¬ Brings e) : Due a (log ++ [e]) t ↔ Due a log t := by
  constructor
  · exact Due.congr (fun k => progress_snoc he k) fun _ _ _ _ => deliveredOf_snoc he _
  · exact Due.congr (fun k => (progress_snoc he k).symm) fun _ _ _ _ => (deliveredOf_snoc he _).symm

theorem Sends.same (h : Sends a scheduled log)
    (hcount : ∀ t, log'.count (.sent t) = log.count (.sent t))
    (hdue : ∀ t, Due a log' t ↔ Due a log t) : Sends a scheduled log' where
  opened := h.opened
  due t ht := by
    rw [hcount]
    exact h.due t ((hdue t).mp ht)
  other t ht := by
    rw [hcount]
    exact h.other t fun hdue' => ht ((hdue t).mpr hdue')

theorem Sends.schedule (h : Sends a scheduled log)
    (hcount : ∀ t, log'.count (.sent t) = log.count (.sent t)) (hev : eventTransfer a ev = some t)
    (hnew : ¬ Due a log t) (hdue : ∀ t', Due a log' t' ↔ Due a log t' ∨ t' = t) :
    Sends a (scheduled ++ [ev]) log' where
  opened ev' hin := by
    rcases List.mem_append.mp hin with hin | hin
    · exact h.opened ev' hin
    · rw [List.mem_singleton.mp hin]
      exact ⟨t, hev⟩
  due t' ht := by
    rw [hcount, pending_snoc hev]
    rcases (hdue t').mp ht with hold | rfl
    · have hne : t ≠ t' := fun heq => hnew (heq ▸ hold)
      rw [if_neg hne]
      exact h.due t' hold
    · rw [if_pos rfl, ← Nat.add_assoc, h.other t' hnew]
  other t' ht := by
    have hne : t ≠ t' := fun heq => ht ((hdue t').mpr (.inr heq.symm))
    rw [hcount, pending_snoc hev, if_neg hne]
    exact h.other t' fun hold => ht ((hdue t').mpr (.inl hold))

theorem Sends.due_of_scheduled (h : Sends a scheduled log) {i : Nat} (hget : scheduled[i]? = some ev)
    (hev : eventTransfer a ev = some t) : Due a log t := by
  by_contra hnot
  have hnone := h.other t hnot
  have hone := pending_erase hget hev t
  rw [if_pos rfl] at hone
  omega

theorem Sends.send (h : Sends a scheduled log) {i : Nat} (hget : scheduled[i]? = some ev)
    (hev : eventTransfer a ev = some t) :
    Sends a (scheduled.eraseIdx i) (log ++ [.sent t]) := by
  have hbooks : ∀ t', (log ++ [AlltoAllObs.sent t]).count (.sent t') +
      pending a (scheduled.eraseIdx i) t' = log.count (.sent t') + pending a scheduled t' := by
    intro t'
    rw [pending_erase hget hev, List.count_append, List.count_singleton]
    simp only [beq_iff_eq, AlltoAllObs.sent.injEq]
    omega
  constructor
  · intro ev' hin
    exact h.opened ev' (List.eraseIdx_subset hin)
  · intro t' ht
    rw [hbooks]
    exact h.due t' ((due_snoc (not_brings_sent t)).mp ht)
  · intro t' ht
    rw [hbooks]
    exact h.other t' fun hold => ht ((due_snoc (not_brings_sent t)).mpr hold)

/-! ## Books -/

/-- The members keep step with the log. -/
structure Booked (a : AlltoAll) (c : AlltoAllRun) : Prop where
  plan : c.plan = a
  ledger : Ledger a c.log
  stepped : a.mode = .ringPipeline → ∀ dest < a.numGpus,
    c.gpuCompletedStep dest = progress a c.log dest ∧
      c.gpuStepReceivedBytes dest = arrivedAt c.log dest % a.chunkSizeOf dest
  chunked : a.mode ≠ .ringPipeline → ∀ dest < a.numGpus,
    c.gpuReceivedBytes dest = arrivedAt c.log dest ∧
      c.gpuSourcesReceived dest = progress a c.log dest
  hops : ∀ origin < a.numGpus, ∀ dest < a.numGpus, ∀ inter, a.intermediate origin dest = some inter →
    c.firstHopReceivedBytes (origin, dest) =
      if deliveredOf c.log (a.chunkTransfer origin dest) = a.chunkSizeOf dest then 0
      else deliveredOf c.log (a.chunkTransfer origin dest)
  bytes : c.sentDataBytes = bytesSent a c.log % 2 ^ 64

theorem Booked.snoc {d : AlltoAllRun} (h : Booked a c) (he : ¬ Brings e)
    (hdue : ∀ t, e = .sent t → Due a c.log t) (hplan : d.plan = c.plan) (hlog : d.log = c.log ++ [e])
    (hstep : d.gpuCompletedStep = c.gpuCompletedStep)
    (hstepBytes : d.gpuStepReceivedBytes = c.gpuStepReceivedBytes)
    (hbytes : d.gpuReceivedBytes = c.gpuReceivedBytes)
    (hsources : d.gpuSourcesReceived = c.gpuSourcesReceived)
    (hhops : d.firstHopReceivedBytes = c.firstHopReceivedBytes)
    (hsent : d.sentDataBytes = (c.sentDataBytes + e.sentBytes a) % 2 ^ 64) : Booked a d where
  plan := hplan.trans h.plan
  ledger := hlog ▸ h.ledger.snoc he hdue
  stepped hmode dest hdest := by
    rw [hstep, hstepBytes, hlog, progress_snoc he, arrivedAt_snoc he]
    exact h.stepped hmode dest hdest
  chunked hmode dest hdest := by
    rw [hbytes, hsources, hlog, progress_snoc he, arrivedAt_snoc he]
    exact h.chunked hmode dest hdest
  hops origin horigin dest hdest inter hinter := by
    rw [hhops, hlog, deliveredOf_snoc he]
    exact h.hops origin horigin dest hdest inter hinter
  bytes := by
    rw [hsent, hlog, bytesSent_append, h.bytes, Nat.mod_add_mod]
    rfl

theorem Booked.send (h : Booked a c) (hdue : Due a c.log t) : Booked a (c.send t) := by
  refine h.snoc (not_brings_sent t) ?_ rfl rfl rfl rfl rfl rfl rfl ?_
  · intro t' heq
    cases heq
    exact hdue
  · unfold AlltoAllRun.send wadd
    rw [h.plan]
    rfl

theorem Booked.checkGlobalCompletion (h : Booked a c) : Booked a c.checkGlobalCompletion := by
  unfold AlltoAllRun.checkGlobalCompletion
  dsimp only
  split
  · refine h.snoc not_brings_completed (fun t heq => nomatch heq) rfl rfl rfl rfl rfl rfl rfl ?_
    show c.sentDataBytes = (c.sentDataBytes + 0) % 2 ^ 64
    rw [Nat.add_zero, h.bytes, Nat.mod_mod]
  · exact ⟨h.plan, h.ledger, h.stepped, h.chunked, h.hops, h.bytes⟩

theorem Sends.checkGlobalCompletion (h : Sends a c.scheduled c.log) :
    Sends a c.checkGlobalCompletion.scheduled c.checkGlobalCompletion.log := by
  unfold AlltoAllRun.checkGlobalCompletion
  dsimp only
  split
  · refine h.same (fun t => ?_) fun t => due_snoc not_brings_completed
    rw [complete, List.count_append]
    rfl
  · exact h

/-- The members keep step with the log, what is due was sent or is scheduled, and the ranks that are done
are counted. -/
structure Kept (a : AlltoAll) (c : AlltoAllRun) : Prop where
  booked : Booked a c
  closing : Closing a c.totalCompletedGpus c.completed c.log
  sends : Sends a c.scheduled c.log

/-! ## Fragments -/

theorem div_crossed {n b k : Nat} (hb : b ≤ k) (hk : 0 < k) (hcross : k ≤ n % k + b) :
    (n + b) / k = n / k + 1 ∧ (n + b) % k = n % k + b - k := by
  have hmod := Nat.mod_lt n hk
  have hmul := Nat.div_add_mod n k
  rw [Nat.div_mod_unique hk, Nat.mul_succ]
  omega

theorem div_uncrossed {n b k : Nat} (hcross : n % k + b < k) :
    (n + b) / k = n / k ∧ (n + b) % k = n % k + b := by
  have hk : 0 < k := by omega
  have hmul := Nat.div_add_mod n k
  rw [Nat.div_mod_unique hk]
  omega

/-- What a fragment says of the rank that its chunk is for, when it comes to it. -/
structure Fragment (a : AlltoAll) (log : List AlltoAllObs) (t : AlltoAllTransfer) (dest bytes : Nat) :
    Prop where
  rank : dest < a.numGpus
  ends : t.dst = dest ∧ t.final = dest
  started : .sent t ∈ log
  pos : 0 < bytes
  cap : deliveredOf log t + bytes ≤ a.chunkSizeOf dest
  last : t = a.finalTransfer t.origin dest
  apart : t.origin < a.numGpus ∧ t.origin ≠ dest

theorem Ledger.fragment (h : Ledger a log) (hr : a.Lawful) (hsent : .sent t ∈ log)
    (hfinal : t.dst = t.final) (hsome : 0 < bytes)
    (hcap : deliveredOf log t + bytes ≤ a.chunkSizeOf t.final) : Fragment a log t t.final bytes := by
  obtain ⟨horigin, hdest, hne, heq⟩ := ((h.hop hr hsent).final_iff hr t.final).mp ⟨hfinal, rfl⟩
  exact ⟨hdest, ⟨hfinal, rfl⟩, hsent, hsome, hcap, heq, horigin, hne⟩

namespace Fragment

theorem ledger (f : Fragment a log t dest bytes) (h : Ledger a log) (hr : a.Lawful) :
    Ledger a (log ++ [.delivered t bytes]) := by
  refine h.deliver hr f.started ?_
  rw [f.ends.2]
  exact f.cap

theorem le_chunk (f : Fragment a log t dest bytes) : bytes ≤ a.chunkSizeOf dest :=
  (Nat.le_add_left _ _).trans f.cap

theorem chunk_pos (f : Fragment a log t dest bytes) : 0 < a.chunkSizeOf dest :=
  f.pos.trans_le f.le_chunk

theorem arrived (f : Fragment a log t dest bytes) :
    arrivedAt (log ++ [.delivered t bytes]) dest = arrivedAt log dest + bytes := by
  rw [arrivedAt_delivered, if_pos f.ends]

theorem word (f : Fragment a log t dest bytes) (h : Ledger a log) (hr : a.Lawful) :
    arrivedAt log dest + bytes ≤ (a.numGpus - 1) * a.chunkSizeOf dest ∧
      (a.numGpus - 1) * a.chunkSizeOf dest < 2 ^ 64 := by
  have htwo := hr.two
  have hfew := hr.few
  constructor
  · rw [← f.arrived]
    exact (f.ledger h hr).arrived_le f.rank
  · rw [hr.chunk]
    exact mul_portion_lt hr.word (by omega) (by omega) dest

theorem behind (f : Fragment a log t dest bytes) (h : Ledger a log) :
    progress a log dest < a.numGpus - 1 := by
  refine lt_of_le_of_ne (h.progress_le f.rank) ?_
  intro hall
  have hfull := (h.full_iff f.rank).mp hall t.origin f.apart.1 f.apart.2
  have hcap := f.cap
  have hsome := f.pos
  rw [f.last, hfull] at hcap
  omega

theorem crossed (f : Fragment a log t dest bytes)
    (hcross : a.chunkSizeOf dest ≤ arrivedAt log dest % a.chunkSizeOf dest + bytes) :
    progress a (log ++ [.delivered t bytes]) dest = progress a log dest + 1 ∧
      arrivedAt (log ++ [.delivered t bytes]) dest % a.chunkSizeOf dest =
        arrivedAt log dest % a.chunkSizeOf dest + bytes - a.chunkSizeOf dest := by
  obtain ⟨hdiv, hmod⟩ := div_crossed f.le_chunk f.chunk_pos hcross
  unfold progress
  rw [if_neg f.chunk_pos.ne', if_neg f.chunk_pos.ne', f.arrived]
  exact ⟨hdiv, hmod⟩

theorem uncrossed (f : Fragment a log t dest bytes)
    (hcross : arrivedAt log dest % a.chunkSizeOf dest + bytes < a.chunkSizeOf dest) :
    progress a (log ++ [.delivered t bytes]) dest = progress a log dest ∧
      arrivedAt (log ++ [.delivered t bytes]) dest % a.chunkSizeOf dest =
        arrivedAt log dest % a.chunkSizeOf dest + bytes := by
  obtain ⟨hdiv, hmod⟩ := div_uncrossed hcross
  unfold progress
  rw [if_neg f.chunk_pos.ne', if_neg f.chunk_pos.ne', f.arrived]
  exact ⟨hdiv, hmod⟩

theorem arrived_other (f : Fragment a log t dest bytes) {k : Nat} (hk : k ≠ dest) :
    arrivedAt (log ++ [.delivered t bytes]) k = arrivedAt log k := by
  rw [arrivedAt_delivered, if_neg, Nat.add_zero]
  rintro ⟨rfl, -⟩
  exact hk f.ends.1

theorem progress_other (f : Fragment a log t dest bytes) {k : Nat} (hk : k ≠ dest) :
    progress a (log ++ [.delivered t bytes]) k = progress a log k := by
  unfold progress
  rw [f.arrived_other hk]

theorem delivered_firstHop (f : Fragment a log t dest bytes) (hr : a.Lawful) {k : Nat}
    (horigin : origin < a.numGpus) (hinter : a.intermediate origin k = some inter) :
    deliveredOf (log ++ [.delivered t bytes]) (a.chunkTransfer origin k) =
      deliveredOf log (a.chunkTransfer origin k) := by
  rw [deliveredOf_delivered, if_neg, Nat.add_zero]
  rintro rfl
  have hbetween := (hr.intermediate horigin hinter).2.1
  have hfinal := f.ends
  rw [AlltoAll.chunkTransfer_dst hinter, AlltoAll.chunkTransfer_final] at hfinal
  exact hbetween (hfinal.1.trans hfinal.2.symm)

end Fragment

theorem count_sent_delivered (log : List AlltoAllObs) (t t' : AlltoAllTransfer) (bytes : Nat) :
    (log ++ [AlltoAllObs.delivered t bytes]).count (.sent t') = log.count (.sent t') := by
  rw [List.count_append]
  rfl

theorem bytesSent_delivered (a : AlltoAll) (log : List AlltoAllObs) (t : AlltoAllTransfer)
    (bytes : Nat) : bytesSent a (log ++ [.delivered t bytes]) = bytesSent a log := by
  rw [bytesSent_append]
  rfl

end AlltoAllRun

end ProtoBridge.Collective
