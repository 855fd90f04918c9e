import ProtoBridge.Pcie.Exact

/-!
# Transfers complete once, with their bytes

The accounts of `Exact.lean` at the moment a transfer finishes: nothing of it is
under way, so the deliveries in the history cover its range. The same accounts
show that a TLP in the fabric always finds the transfer and the tag it belongs to,
which is what the aborts of the receive path check.
-/

namespace ProtoBridge.Pcie

open Lib Fabric

/-- `f` carries bytes of `op` to where they belong: a write to the target memory,
a completion to the requester. -/
def Frame.Serves (f : Frame) (op : Transfer) : Prop :=
  f.transaction = op.id ∧ f.header.type = (if op.read then .completion else .write) ∧
    f.destination = if op.read then op.requester else op.target

instance (f : Frame) (op : Transfer) : Decidable (f.Serves op) :=
  inferInstanceAs (Decidable (_ ∧ _ ∧ _))

/-- How often this event delivered address `a` for the transfer. -/
def deliveredAt (op : Transfer) (a : Nat) : Obs → Nat
  | .delivered f => if f.Serves op then span f.header.address f.header.bytes a else 0
  | _ => 0

/-- How often address `a` was delivered for the transfer. -/
def coverage (op : Transfer) (trace : List Obs) (a : Nat) : Nat :=
  (trace.map (deliveredAt op a)).sum

/-- Completions in the history are single, and each comes after its bytes. -/
structure Txn.History (d : Txn) : Prop where
  once : ∀ id, d.trace.count (.scheduled id) ≤ 1
  complete : ∀ pre post id, d.trace = pre ++ .scheduled id :: post →
    ∃ op, .submitted op ∈ pre ∧ op.id = id ∧ ∀ a, coverage op pre a = span op.address op.bytes a

/-! ## The history of a finished transfer -/

section Finished

variable {d : Txn} {op : Transfer}

theorem Txn.Filing.serves (hf : d.Filing) (hop : .submitted op ∈ d.trace) {f : Frame}
    (hd : .delivered f ∈ d.trace) :
    (f.Serves op ↔ f.transaction = op.id) ∧
      (f.transaction = op.id → f.header.address = op.address + f.offset) := by
  obtain ⟨hty, o, ho, hof⟩ := hf.delivered f hd
  by_cases heq : f.transaction = op.id
  · have hsame : o = op := hf.unique o op ho hop (hof.transaction.symm.trans heq)
    subst hsame
    have hdir : o.read = (f.header.type != .write) := hof.direction
    have hdest : f.destination = if f.header.type = .completion then o.requester else o.target :=
      hof.destination
    refine ⟨iff_of_true ⟨heq, ?_, ?_⟩ heq, fun _ => hof.address⟩
    · cases h : f.header.type <;> simp_all
    · cases h : f.header.type <;> simp_all
  · exact ⟨iff_of_false (fun hs => heq hs.1) heq, fun h => absurd h heq⟩

theorem Txn.Filing.coverage_eq (hf : d.Filing) (hop : .submitted op ∈ d.trace) (x : Nat) :
    coverage op d.trace (op.address + x) = (d.trace.map (arrivedSpan op.id x)).sum := by
  unfold coverage
  refine congrArg List.sum (List.map_congr_left fun o ho => ?_)
  cases o with
  | delivered f =>
      obtain ⟨hserves, haddr⟩ := hf.serves hop ho
      by_cases heq : f.transaction = op.id
      · simp only [deliveredAt, arrivedSpan, if_pos (hserves.mpr heq), if_pos heq, haddr heq,
          span_shift]
      · simp only [deliveredAt, arrivedSpan, if_neg fun hs => heq (hserves.mp hs), if_neg heq]
  | _ => rfl

theorem Txn.Filing.coverage_below (hf : d.Filing) (hop : .submitted op ∈ d.trace) {a : Nat}
    (ha : a < op.address) : coverage op d.trace a = 0 := by
  refine List.sum_eq_zero fun v hv => ?_
  obtain ⟨o, ho, rfl⟩ := List.mem_map.mp hv
  cases o with
  | delivered f =>
      obtain ⟨hserves, haddr⟩ := hf.serves hop ho
      simp only [deliveredAt]
      split
      · rename_i hs
        rw [haddr (hserves.mp hs), span, if_neg (by omega)]
      · rfl
  | _ => rfl

theorem Txn.Accounts.arrived_of_done (ha : d.Accounts) (hop : .submitted op ∈ d.trace)
    (hnext : nextOf d.transfers op = op.bytes) (hpend : pendingOf d.transfers op.id = 0) (x : Nat) :
    (d.trace.map (arrivedSpan op.id x)).sum = span 0 op.bytes x := by
  cases hrd : op.read with
  | false =>
      have hcount := ha.writing op hop hrd
      rw [hpend, Multiset.sum_eq_zero_iff] at hcount
      have hzero : (d.cargo.map (writeSpan op.id x)).sum = 0 := by
        refine Multiset.sum_eq_zero fun v hv => ?_
        obtain ⟨c, hc, rfl⟩ := Multiset.mem_map.mp hv
        have := hcount _ (Multiset.mem_map_of_mem _ hc)
        simp only [writeCount, writeSpan, ite_eq_right_iff] at this ⊢
        exact fun h => absurd (this h) one_ne_zero
      have hold := ha.written op hop hrd x
      rwa [hzero, zero_add, hnext] at hold
  | true =>
      have hcount := ha.reading op hop hrd
      rw [hpend, List.sum_eq_zero_iff] at hcount
      have hne : ∀ r ∈ d.reads op.requester, r.transaction ≠ op.id := by
        intro r hr heq
        have := hcount _ (List.mem_map_of_mem hr)
        simp [ReadState.countOf, heq] at this
      have hspan : ((d.reads op.requester).map (ReadState.spanOf op.id x)).sum = 0 :=
        List.sum_eq_zero fun v hv => by
          obtain ⟨r, hr, rfl⟩ := List.mem_map.mp hv
          simp [ReadState.spanOf, hne r hr]
      have hcov : ((d.reads op.requester).map (ReadState.coverOf op.id x)).sum = 0 :=
        List.sum_eq_zero fun v hv => by
          obtain ⟨r, hr, rfl⟩ := List.mem_map.mp hv
          simp [ReadState.coverOf, hne r hr]
      have hold := ha.returned op hop hrd x
      rwa [hspan, hcov, add_zero, add_zero, hnext] at hold

theorem Txn.Accounts.covered_of_done (ha : d.Accounts) (hf : d.Filing) (hop : .submitted op ∈ d.trace)
    (hnext : nextOf d.transfers op = op.bytes) (hpend : pendingOf d.transfers op.id = 0) (a : Nat) :
    coverage op d.trace a = span op.address op.bytes a := by
  by_cases h : a < op.address
  · rw [hf.coverage_below hop h, span, if_neg (by omega)]
  · obtain ⟨x, rfl⟩ := Nat.exists_eq_add_of_le (Nat.le_of_not_lt h)
    rw [hf.coverage_eq hop, ha.arrived_of_done hop hnext hpend]
    exact (span_shift op.address 0 op.bytes x).symm

end Finished

variable {d d' : Txn} {r : ReadState}

theorem Txn.History.snoc {o : Obs} (h : d.History) (htrace : d'.trace = d.trace ++ [o])
    (hnew : ∀ id, o = .scheduled id → .scheduled id ∉ d.trace ∧
      ∃ op, .submitted op ∈ d.trace ∧ op.id = id ∧
        ∀ a, coverage op d.trace a = span op.address op.bytes a) : d'.History := by
  refine ⟨fun id => ?_, fun pre post id heq => ?_⟩
  · rw [htrace, List.count_append, List.count_singleton]
    have hold := h.once id
    by_cases ho : o = .scheduled id
    · rw [List.count_eq_zero.mpr (hnew id ho).1]
      split <;> omega
    · rw [if_neg (by simpa using ho)]
      exact hold
  · rw [htrace] at heq
    rcases snoc_split heq with ⟨-, rfl, ho⟩ | ⟨post', heq⟩
    · exact (hnew id ho).2
    · exact h.complete pre post' id heq

theorem Txn.History.same (h : d.History) (htrace : d'.trace = d.trace) : d'.History :=
  ⟨htrace ▸ h.once, htrace ▸ h.complete⟩

theorem Txn.Step.history (h : Txn.Step d d') (hf : d.Filing) (ha : d.Accounts) (hh : d.History)
    : d'.History := by
  cases h with
  | note ho =>
      obtain ⟨f, rfl⟩ := ho
      exact hh.snoc rfl (by simp)
  | submit | issueWrite | issueRead | respond | land | accept => exact hh.snoc rfl (by simp)
  | retire => exact hh.same rfl
  | @finish id op hop hnext hpend =>
      cases hc : op.complete with
      | false => exact hh.same (by simp)
      | true =>
          refine hh.snoc (o := .scheduled id) (by simp) fun id' hid => ?_
          cases hid
          obtain ⟨hid, -, hsub⟩ := hf.filed id op hop
          have hop' : d.transfers op.origin.id = some op := hid.symm ▸ hop
          refine ⟨hf.not_scheduled hop, op.origin, hsub, hid, fun a => ?_⟩
          exact ha.covered_of_done hf hsub ((nextOf_eq hop').trans hnext)
            ((pendingOf_eq hop').trans hpend) a

/-! ## TLPs find what they belong to -/

section Found

variable {d : Txn} {n : Nat}

theorem live_of_pending {tr : Nat → Option Transfer} {id : Nat} (h : 0 < pendingOf tr id) :
    ∃ op, tr id = some op ∧ op.pending ≠ 0 := by
  unfold pendingOf at h
  cases hop : tr id with
  | none => simp [hop] at h
  | some op => exact ⟨op, rfl, by simp only [hop] at h; omega⟩

variable {c : Cargo}

theorem Txn.Accounts.write_live (ha : d.Accounts) (hf : d.Filing) (hc : c ∈ d.cargo)
    (hty : c.header.type = .write)
    : ∃ op, d.transfers c.transaction = some op ∧ op.pending ≠ 0 := by
  obtain ⟨o, ho, hof⟩ := hf.cargo c hc
  have hrd : o.read = false := by
    have hdir := hof.direction
    rw [hty] at hdir
    exact hdir.trans rfl
  refine live_of_pending ?_
  rw [hof.transaction, ← ha.writing o ho hrd]
  refine lt_of_lt_of_le one_pos (le_trans (le_of_eq ?_)
    (Multiset.single_le_sum (fun _ _ => Nat.zero_le _) _ (Multiset.mem_map_of_mem _ hc)))
  simp [writeCount, hty, hof.transaction]

theorem Txn.Accounts.read_live (ha : d.Accounts) (hf : d.Filing) {r : ReadState}
    (hr : r ∈ d.reads n) : ∃ op, d.transfers r.transaction = some op ∧ op.pending ≠ 0 := by
  obtain ⟨o, ho, hrd, hreq, hid⟩ := hf.reads n r hr
  refine live_of_pending ?_
  rw [← hid, ← ha.reading o ho hrd, hreq]
  refine lt_of_lt_of_le one_pos (le_trans (le_of_eq ?_)
    (List.single_le_sum (fun _ _ => Nat.zero_le _) _ (List.mem_map_of_mem hr)))
  simp [ReadState.countOf, hid]

/-- A read request or completion finds its tag, and the bytes it still stands for
lie in the range of that read and are not received yet. -/
theorem Txn.Accounts.tag_live (ha : d.Accounts) (hnd : ((d.reads n).map ReadState.tag).Nodup)
    (hc : c ∈ d.cargo) (hty : c.header.type ≠ .write) (hreq : c.header.requester = n)
    (hmore : c.answered < c.header.bytes) :
    ∃ r ∈ d.reads n, r.tag = c.header.tag ∧ r.transaction = c.transaction ∧
      ∀ x, span (c.offset + c.answered) (c.header.bytes - c.answered) x + cover r.pieces x ≤
        span r.offset r.bytes x := by
  have hspan : ∀ x, readSpan n c.header.tag c.transaction x c =
      span (c.offset + c.answered) (c.header.bytes - c.answered) x := fun x => by
    simp [readSpan, hty, hreq]
  have hle : ∀ x, readSpan n c.header.tag c.transaction x c ≤
      (d.cargo.map (readSpan n c.header.tag c.transaction x)).sum := fun x =>
    Multiset.single_le_sum (fun _ _ => Nat.zero_le _) _ (Multiset.mem_map_of_mem _ hc)
  -- the first byte under way is in the range of some read under the tag
  have hpos : 0 < ((d.reads n).map (atTag c.header.tag
      (ReadState.spanOf c.transaction (c.offset + c.answered)))).sum := by
    rw [← ha.traffic n c.header.tag c.transaction (c.offset + c.answered)]
    have h1 := hle (c.offset + c.answered)
    rw [hspan, span_self (by omega)] at h1
    omega
  obtain ⟨v, hv, hvpos⟩ := List.exists_mem_ne_zero_of_sum_ne_zero (Nat.ne_of_gt hpos)
  obtain ⟨r, hr, rfl⟩ := List.mem_map.mp hv
  have htag : r.tag = c.header.tag := by
    by_contra hne
    simp [atTag, hne] at hvpos
  have htxn : r.transaction = c.transaction := by
    by_contra hne
    simp [atTag, ReadState.spanOf, hne] at hvpos
  refine ⟨r, hr, htag, htxn, fun x => ?_⟩
  have hrange := ha.range_of_read hnd hr x
  rw [htag, htxn] at hrange
  have h1 := hle x
  rw [hspan] at h1
  omega

end Found

/-! ## The receive path never aborts -/

theorem mismatch_eq_false {f : Frame} (htxn : r.transaction = f.transaction)
    (hpos : 0 < f.header.bytes)
    (hin : ∀ x, span f.offset f.header.bytes x + cover r.pieces x ≤ span r.offset r.bytes x) :
    mismatch r f = false := by
  have hfirst := hin f.offset
  have hlast := hin (f.offset + f.header.bytes - 1)
  rw [span_self hpos] at hfirst
  rw [span_last hpos] at hlast
  have h1 := mem_of_span_pos (show 0 < span r.offset r.bytes f.offset by omega)
  have h2 := mem_of_span_pos
    (show 0 < span r.offset r.bytes (f.offset + f.header.bytes - 1) by omega)
  simp only [mismatch, Bool.or_eq_false_iff, bne_eq_false_iff_eq, decide_eq_false_iff_not]
  exact ⟨⟨⟨htxn, by omega⟩, by omega⟩, by omega⟩

theorem overlaps_eq_false {offset bytes : Nat} (hpos : 0 < bytes)
    (hpieces : ∀ q ∈ r.pieces, 0 < q.2)
    (hin : ∀ x, span offset bytes x + cover r.pieces x ≤ span r.offset r.bytes x) :
    overlaps r.pieces offset bytes = false := by
  -- no piece shares a byte with the completion
  have hfree : ∀ q ∈ r.pieces, ∀ x, span offset bytes x = 1 → span q.1 q.2 x ≠ 1 := by
    intro q hq x hx hqx
    have h1 := hin x
    have h2 := span_le_cover hq x
    have h3 := span_le_one r.offset r.bytes x
    omega
  simp only [overlaps, Bool.or_eq_false_iff]
  constructor
  · split
    · rename_i next hnext
      obtain ⟨hmem, hge⟩ := List.mem_filter.mp (List.mem_of_mem_head? hnext)
      simp only [decide_eq_true_eq] at hge
      by_contra hover
      simp only [decide_eq_false_iff_not, not_not] at hover
      exact hfree next hmem next.1 (by rw [span, if_pos (by omega)]) (span_self (hpieces next hmem))
    · rfl
  · split
    · rename_i prev hprev
      obtain ⟨hmem, hlt⟩ := List.mem_filter.mp (List.mem_of_mem_getLast? hprev)
      simp only [decide_eq_true_eq] at hlt
      by_contra hover
      simp only [decide_eq_false_iff_not, not_not] at hover
      exact hfree prev hmem offset (span_self hpos) (by rw [span, if_pos (by omega)])
    · rfl

/-- All that holds of the transaction layer. -/
structure Txn.Sound (d : Txn) : Prop where
  filing : d.Filing
  window : ∀ n, ReadWindow d.config (d.reads n) (d.readBytes n)
  accounts : d.Accounts
  history : d.History

theorem Txn.Step.sound (h : Txn.Step d d') (hv : d.config.Valid) (hs : d.Sound) : d'.Sound :=
  ⟨h.filing hv hs.filing, h.window hv hs.filing hs.window, h.accounts hs.filing hs.window hs.accounts,
    h.history hs.filing hs.accounts hs.history⟩

theorem Micro.sound {env : Env} {s s' : Snap} (h : Micro env s s') (hwf : s.Wf) (hs : s.txn.Sound) :
    s'.txn.Sound := by
  rcases h.txn hwf with heq | hstep
  · exact heq ▸ hs
  · exact hstep.sound hwf.valid hs

theorem Txn.Sound.initial (c : Config) : (Snap.txn ⟨{ config := c }, none⟩).Sound := by
  have htotal : Snap.total ⟨{ config := c }, none⟩ = 0 := by
    simp [Snap.total_none, Fabric.total, live, lost]
  refine ⟨⟨?_, ?_, ?_, ?_, ?_, ?_, ?_⟩, fun n => ⟨?_, ?_, ?_, ?_, ?_, ?_, ?_⟩, ⟨?_, ?_, ?_, ?_, ?_⟩,
    ⟨?_, ?_⟩⟩
  all_goals simp [htotal, Snap.txn]

section NoAbort

variable {s : Snap}

variable {i n t : Nat}

theorem cargo_of_due {e : Event} {x : Site} (he : s.fab.Due i e) (hx : x ∈ e.kind.sites) :
    x.cargo ∈ s.txn.cargo :=
  Multiset.mem_map_of_mem _ (Snap.mem_total (mem_total_of_event (List.mem_of_getElem? he.1) hx))

theorem Txn.Sound.completion_live (hs : s.txn.Sound) (hwf : s.Wf) {f : Frame}
    (hdue : s.fab.Due i ⟨t, .completionService n f⟩) :
    0 < f.header.bytes ∧ ∃ r ∈ (s.fab.nodes n).reads, r.tag = f.header.tag ∧
      r.transaction = f.transaction ∧
      ∀ x, span f.offset f.header.bytes x + cover r.pieces x ≤ span r.offset r.bytes x := by
  have hok := hwf.event_ok (h := s.hand) hdue (Multiset.mem_singleton_self _)
  have hn : n = f.destination := hok.fits.1
  have hty : f.header.type = .completion := hok.fits.2.1
  have hmem : f.cargo ∈ s.txn.cargo := cargo_of_due hdue (Multiset.mem_singleton_self _)
  obtain ⟨o, ho, hof⟩ := hs.filing.cargo _ hmem
  have hreq : f.header.requester = n := by
    have hdest := hof.destination
    simp only [Frame.cargo, hty, ↓reduceIte] at hdest
    exact (hof.requester.trans hdest.symm).trans hn.symm
  have hpos : 0 < f.header.bytes := hof.bytes_pos
  refine ⟨hpos, ?_⟩
  exact hs.accounts.tag_live (hs.window n).nodup hmem (by simp [Frame.cargo, hty]) hreq hpos

theorem Txn.Sound.find_eq (hs : s.txn.Sound) {r r' : ReadState} (hr : r ∈ (s.fab.nodes n).reads)
    (htag : r.tag = t) (hfind : (s.fab.nodes n).reads.find? (fun x => x.tag == t) = some r')
    : r' = r := by
  have htag' : r'.tag = t := by simpa using List.find?_some hfind
  exact List.inj_on_of_nodup_map (hs.window n).nodup (List.mem_of_find?_eq_some hfind) hr
    (htag'.trans htag.symm)

/-- The aborts of the receive path. -/
def receiveAborts : List Abort :=
  [.noLiveTag, .completionMismatch, .overlappingCompletion, .unknownWrite, .unknownRead,
    .lostTransaction]

theorem Txn.Sound.not_fails (hs : s.txn.Sound) (hwf : s.Wf) {e : Abort} (he : e ∈ receiveAborts) :
    ¬ Fails e s.fab := by
  simp only [receiveAborts, List.mem_cons, List.not_mem_nil, or_false] at he
  rcases he with rfl | rfl | rfl | rfl | rfl | rfl
  · rintro ⟨i, t, n, f, hdue, hno⟩
    obtain ⟨-, r, hr, htag, -⟩ := hs.completion_live hwf hdue
    exact hno r hr htag
  · rintro ⟨i, t, n, f, r, hdue, hfind, hmis⟩
    obtain ⟨hpos, r', hr', htag, htxn, hin⟩ := hs.completion_live hwf hdue
    rw [hs.find_eq hr' htag hfind, mismatch_eq_false htxn hpos hin] at hmis
    cases hmis
  · rintro ⟨i, t, n, f, r, hdue, hfind, hover⟩
    obtain ⟨hpos, r', hr', htag, htxn, hin⟩ := hs.completion_live hwf hdue
    rw [hs.find_eq hr' htag hfind,
      overlaps_eq_false hpos ((hs.window n).pieces_pos r' hr') hin] at hover
    cases hover
  · rintro ⟨i, t, n, f, hdue, hno⟩
    have hok := hwf.event_ok (h := s.hand) hdue (Multiset.mem_singleton_self _)
    obtain ⟨op, hop, hpend⟩ := hs.accounts.write_live hs.filing
      (cargo_of_due hdue (Multiset.mem_singleton_self _)) hok.fits.2.1
    exact hpend (hno op hop)
  · rintro ⟨n, r, hr, hno⟩
    obtain ⟨op, hop, hpend⟩ := hs.accounts.read_live hs.filing (n := n) hr
    exact hpend (hno op hop)
  · rintro ⟨n, response, others, hr, hno⟩
    have hmem : response ∈ (s.fab.nodes n).responses := by rw [hr]; exact List.mem_cons_self
    have hok := hwf.response_ok (h := s.hand) hmem
    have hcargo : ({ response.request.cargo with answered := response.next } : Cargo) ∈ s.txn.cargo :=
      Multiset.mem_map_of_mem Site.cargo (Snap.mem_total (mem_total_of_response
        (hwf.stores.responses n (List.ne_nil_of_mem hmem)) hmem))
    obtain ⟨r, hr, -, htxn, -⟩ := hs.accounts.tag_live (hs.window _).nodup hcargo
      (by simp [Frame.cargo, show response.request.header.type = .read from hok.fits.2.1]) rfl
      hok.fits.2.2.2
    obtain ⟨op, hop, -⟩ := hs.accounts.read_live hs.filing hr
    rw [htxn] at hop
    exact absurd (hop.symm.trans hno) (by simp)

end NoAbort

/-- **Transfers complete once, with exactly their bytes.** In every reachable
state a completion was scheduled at most once per transfer, and only after the
deliveries covered its range exactly once; tags are not shared; the read window
holds; and no TLP ever arrives without the transfer and tag it belongs to. -/
theorem transfers_exact (env : Env) :
    (∀ σ, (machine env).Reachable σ →
      (∀ op op', .submitted op ∈ σ.trace → .submitted op' ∈ σ.trace → op.id = op'.id → op = op') ∧
      (∀ id, σ.trace.count (.scheduled id) ≤ 1) ∧
      (∀ pre post id, σ.trace = pre ++ .scheduled id :: post →
        ∃ op, .submitted op ∈ pre ∧ op.id = id ∧
          ∀ a, coverage op pre a = span op.address op.bytes a) ∧
      ∀ n, ((σ.nodes n).reads.map ReadState.tag).Nodup ∧
        (σ.nodes n).reads.length ≤ σ.config.tags ∧
        (σ.nodes n).readBytes = ((σ.nodes n).reads.map ReadState.bytes).sum ∧
        (σ.nodes n).readBytes ≤ min σ.config.maxReadBytes σ.config.completionBufferBytes) ∧
    ∀ e ∈ receiveAborts, ¬ (machine env).Aborts e := by
  have hinit : ∀ c : Config, c.Valid → (Snap.txn ⟨{ config := c }, none⟩).Sound :=
    fun c _ => .initial c
  have hstep : ∀ s s' : Snap, s.Wf → s.txn.Sound → Micro env s s' → s'.txn.Sound :=
    fun _ _ hwf hs hm => hm.sound hwf hs
  refine ⟨fun σ hreach => ?_, fun e he => ?_⟩
  · obtain ⟨-, hs⟩ := fabric_invariant (P := fun s => s.txn.Sound) hinit hstep σ hreach
    refine ⟨hs.filing.unique, hs.history.once, hs.history.complete, fun n => ?_⟩
    have hw := hs.window n
    exact ⟨hw.nodup, hw.length_le, hw.bytes_eq, le_min hw.max_le hw.buffer_le⟩
  · exact fabric_no_abort (P := fun s => s.txn.Sound) hinit hstep
      fun s hwf hs => hs.not_fails hwf he

/-- One read over one link, answered by two completions. -/
def readRun : List Act :=
  [.addNode (.endpoint false false), .addNode (.endpoint false false), .addLink 0 1,
    .submit { read := true, requester := 0, target := 1, bytes := 512 }] ++
  [0, 0, 2, 0, 0, 0, 1, 0, 4, 1, 0, 0, 0, 0, 2, 3, 2, 2, 0, 0, 1].map .fire

theorem readRun_scheduled :
    ((machine tickEnv).runs { config := {} } readRun).map
      (fun σ => decide (.scheduled 1 ∈ σ.trace)) = some true := by
  decide +kernel

theorem transfers_exact_readRun : ∃ σ, (machine tickEnv).Reachable σ ∧
    ∃ pre post op, σ.trace = pre ++ .scheduled 1 :: post ∧ .submitted op ∈ pre ∧ op.id = 1 ∧
      ∀ a, coverage op pre a = span op.address op.bytes a := by
  obtain ⟨σ, hreach, hvals⟩ := Machine.Reachable.exists_of_runs
    (M := machine tickEnv) ⟨_, by constructor <;> decide, rfl, rfl⟩ readRun_scheduled
  obtain ⟨pre, post, htrace⟩ := List.append_of_mem (of_decide_eq_true hvals)
  obtain ⟨-, -, hcomplete, -⟩ := (transfers_exact tickEnv).1 σ hreach
  obtain ⟨op, hsub, hid, hcover⟩ := hcomplete pre post 1 htrace
  exact ⟨σ, hreach, pre, post, op, htrace, hsub, hid, hcover⟩

end ProtoBridge.Pcie
