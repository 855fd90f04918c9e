import Mathlib.Algebra.BigOperators.Ring.Finset
import ProtoBridge.Collective.AlltoAllEnd

/-!
# Totals of an AlltoAll

Each hop is sent once at most, and each act of the network or of the clock sends one or brings bytes of
one: a run of them comes to an end. At the callback all hops of chunks that are not empty are over.
-/

namespace ProtoBridge.Collective

open Lib Fabric

namespace AlltoAllRun

variable {a : AlltoAll} {c : AlltoAllRun} {log : List AlltoAllObs} {t : AlltoAllTransfer}
  {origin dest inter : Nat} {mode : AlltoAllMode} {numGpus : UInt16} {dataSize : UInt64}

/-! ## Hops -/

/-- The pairs of different ranks. -/
def pairs (a : AlltoAll) : Finset (Nat × Nat) :=
  (Finset.range a.numGpus ×ˢ Finset.range a.numGpus).filter fun p => p.1 ≠ p.2

/-- The pairs whose chunk takes two hops. -/
def crossPairs (a : AlltoAll) : Finset (Nat × Nat) :=
  (pairs a).filter fun p => (a.intermediate p.1 p.2).isSome

/-- All transfers of the collective. -/
def hops (a : AlltoAll) : Finset AlltoAllTransfer :=
  (pairs a).image (fun p => a.finalTransfer p.1 p.2) ∪
    (crossPairs a).image fun p => a.chunkTransfer p.1 p.2

theorem mem_pairs {p : Nat × Nat} : p ∈ pairs a ↔ p.1 < a.numGpus ∧ p.2 < a.numGpus ∧ p.1 ≠ p.2 := by
  rw [pairs, Finset.mem_filter, Finset.mem_product, Finset.mem_range, Finset.mem_range, and_assoc]

theorem mem_crossPairs {p : Nat × Nat} :
    p ∈ crossPairs a ↔ p ∈ pairs a ∧ ∃ inter, a.intermediate p.1 p.2 = some inter := by
  rw [crossPairs, Finset.mem_filter, Option.isSome_iff_exists]

theorem mem_hops : t ∈ hops a ↔ Hop a t := by
  rw [hops, Finset.mem_union, Finset.mem_image, Finset.mem_image]
  constructor
  · rintro (⟨p, hp, rfl⟩ | ⟨p, hp, rfl⟩)
    · obtain ⟨horigin, hdest, hne⟩ := mem_pairs.mp hp
      exact ⟨p.1, horigin, p.2, hdest, hne, .inl rfl⟩
    · obtain ⟨hpair, inter, hinter⟩ := mem_crossPairs.mp hp
      obtain ⟨horigin, hdest, hne⟩ := mem_pairs.mp hpair
      exact ⟨p.1, horigin, p.2, hdest, hne, .inr ⟨inter, hinter, rfl⟩⟩
  · rintro ⟨origin, horigin, dest, hdest, hne, rfl | ⟨inter, hinter, rfl⟩⟩
    · exact .inl ⟨(origin, dest), mem_pairs.mpr ⟨horigin, hdest, hne⟩, rfl⟩
    · exact .inr ⟨(origin, dest), mem_crossPairs.mpr ⟨mem_pairs.mpr ⟨horigin, hdest, hne⟩, inter, hinter⟩,
        rfl⟩

theorem sum_hops (hr : a.Lawful) (f : Nat → Nat) :
    ∑ t ∈ hops a, f t.final = ∑ p ∈ pairs a, f p.2 + ∑ p ∈ crossPairs a, f p.2 := by
  have hlast : ∑ t ∈ (pairs a).image (fun p => a.finalTransfer p.1 p.2), f t.final =
      ∑ p ∈ pairs a, f p.2 := by
    rw [Finset.sum_image]
    · refine Finset.sum_congr rfl ?_
      intro p hp
      obtain ⟨horigin, hdest, hne⟩ := mem_pairs.mp hp
      rw [AlltoAll.finalTransfer_final horigin hdest hne]
    · intro p hp q hq heq
      obtain ⟨horigin, hdest, hne⟩ := mem_pairs.mp hp
      obtain ⟨horigin', hdest', hne'⟩ := mem_pairs.mp hq
      obtain ⟨hsame, hfinal⟩ := finalTransfer_injective horigin hdest hne horigin' hdest' hne' heq
      exact Prod.ext hsame hfinal
  have hfirst : ∑ t ∈ (crossPairs a).image (fun p => a.chunkTransfer p.1 p.2), f t.final =
      ∑ p ∈ crossPairs a, f p.2 := by
    rw [Finset.sum_image]
    · refine Finset.sum_congr rfl ?_
      intro p _
      rw [AlltoAll.chunkTransfer_final]
    · intro p _ q _ heq
      obtain ⟨hsame, hfinal⟩ := chunkTransfer_injective heq
      exact Prod.ext hsame hfinal
  have hdisjoint : Disjoint ((pairs a).image fun p => a.finalTransfer p.1 p.2)
      ((crossPairs a).image fun p => a.chunkTransfer p.1 p.2) := by
    rw [Finset.disjoint_left]
    intro t hleft hright
    obtain ⟨p, hp, rfl⟩ := Finset.mem_image.mp hleft
    obtain ⟨q, hq, heq⟩ := Finset.mem_image.mp hright
    obtain ⟨horigin, hdest, hne⟩ := mem_pairs.mp hp
    obtain ⟨hpair, inter, hinter⟩ := mem_crossPairs.mp hq
    have hbetween := (hr.intermediate (mem_pairs.mp hpair).1 hinter).2.1
    have hdst := congrArg AlltoAllTransfer.dst heq
    have hfinal := congrArg AlltoAllTransfer.final heq
    rw [AlltoAll.chunkTransfer_dst hinter, AlltoAll.finalTransfer_dst horigin hdest hne] at hdst
    rw [AlltoAll.chunkTransfer_final, AlltoAll.finalTransfer_final horigin hdest hne] at hfinal
    exact hbetween (hdst.trans hfinal.symm)
  rw [hops, Finset.sum_union hdisjoint, hlast, hfirst]

theorem sum_pairs (hr : a.Lawful) :
    ∑ p ∈ pairs a, a.chunkSizeOf p.2 = (a.numGpus - 1) * a.dataSize := by
  have htwo := hr.two
  have hcolumn : ∀ dest ∈ Finset.range a.numGpus,
      ∑ origin ∈ Finset.range a.numGpus, (if origin ≠ dest then a.chunkSizeOf dest else 0) =
        (a.numGpus - 1) * a.chunkSizeOf dest := by
    intro dest hdest
    rw [← Finset.sum_filter, Finset.sum_const, Finset.filter_ne', Finset.card_erase_of_mem hdest,
      Finset.card_range, smul_eq_mul]
  calc ∑ p ∈ pairs a, a.chunkSizeOf p.2
      = ∑ dest ∈ Finset.range a.numGpus, ∑ origin ∈ Finset.range a.numGpus,
          (if origin ≠ dest then a.chunkSizeOf dest else 0) := by
        rw [pairs, Finset.sum_filter, Finset.sum_product_right]
    _ = ∑ dest ∈ Finset.range a.numGpus, (a.numGpus - 1) * a.chunkSizeOf dest :=
        Finset.sum_congr rfl hcolumn
    _ = (a.numGpus - 1) * ∑ dest ∈ Finset.range a.numGpus, portion a.dataSize a.numGpus dest := by
        rw [Finset.mul_sum]
        exact Finset.sum_congr rfl fun dest _ => by rw [hr.chunk]
    _ = (a.numGpus - 1) * a.dataSize := by rw [sum_portion (by omega)]

/-! ## The end -/

theorem Kept.count_sent_le (h : Kept a c) (t : AlltoAllTransfer) : c.log.count (.sent t) ≤ 1 := by
  by_cases hdue : Due a c.log t
  · have hone := h.sends.due t hdue
    omega
  · have hnone := h.sends.other t hdue
    omega

/-- A chunk is forwarded behind all bytes of its first hop. -/
def ForwardsBehindFirstHop (a : AlltoAll) (log : List AlltoAllObs) : Prop :=
  Justified (fun pre e => ∀ origin < a.numGpus, ∀ dest < a.numGpus, ∀ inter,
    a.intermediate origin dest = some inter → e = .sent (a.finalTransfer origin dest) →
      0 < a.chunkSizeOf dest ∧
        deliveredOf pre (a.chunkTransfer origin dest) = a.chunkSizeOf dest) log

theorem Ledger.forwards (h : Ledger a log) (hr : a.Lawful) : ForwardsBehindFirstHop a log := by
  intro pre e post heq origin horigin dest hdest inter hinter hsent
  exact due_forwarded hr horigin hdest hinter (h.sends pre e post heq _ hsent)

theorem Kept.over_of_completed (h : Kept a c) (hr : a.Lawful) (hover : c.completed = true)
    (hhop : Hop a t) : deliveredOf c.log t = a.chunkSizeOf t.final := by
  have hledger := h.booked.ledger
  have hall := h.closing.ended.mp hover
  obtain ⟨origin, horigin, dest, hdest, hne, rfl | ⟨inter, hinter, rfl⟩⟩ := hhop
  · rw [AlltoAll.finalTransfer_final horigin hdest hne]
    exact (hledger.full_iff hdest).mp (hall dest hdest) origin horigin hne
  · have hlast := (hledger.full_iff hdest).mp (hall dest hdest) origin horigin hne
    have hcap := hledger.cap (a.chunkTransfer origin dest)
    rw [AlltoAll.chunkTransfer_final] at hcap ⊢
    rcases Nat.eq_zero_or_pos (a.chunkSizeOf dest) with hzero | hpos
    · omega
    -- it has been forwarded
    · obtain ⟨pre, post, heq⟩ := List.append_of_mem
        (hledger.flown (a.finalTransfer origin dest) (by omega))
      have hfirst := (hledger.forwards hr pre _ post heq origin horigin dest hdest inter hinter rfl).2
      apply le_antisymm hcap
      rw [heq, deliveredOf_append, hfirst]
      exact Nat.le_add_right _ _

theorem Kept.bytesSent_eq (h : Kept a c) (hr : a.Lawful) (hover : c.completed = true) :
    bytesSent a c.log = ∑ t ∈ hops a, a.chunkSizeOf t.final := by
  have hledger := h.booked.ledger
  have himage : ∑ t ∈ hops a, a.chunkSizeOf t.final =
      ∑ e ∈ (hops a).image AlltoAllObs.sent, e.sentBytes a := by
    rw [Finset.sum_image]
    · rfl
    · intro t _ t' _ heq
      exact AlltoAllObs.sent.inj heq
  rw [himage, bytesSent, Finset.sum_list_map_count]
  refine Finset.sum_congr_of_eq_on_inter ?_ ?_ ?_
  · intro e hin hout
    cases e with
    | sent t =>
        have hhop := hledger.hop hr (List.mem_toFinset.mp hin)
        exact absurd (Finset.mem_image_of_mem _ (mem_hops.mpr hhop)) hout
    | delivered => exact smul_zero _
    | completed => exact smul_zero _
  · intro e hin hout
    obtain ⟨t, ht, rfl⟩ := Finset.mem_image.mp hin
    by_contra hne
    have hcame := h.over_of_completed hr hover (mem_hops.mp ht)
    have hsent : .sent t ∈ c.log := hledger.flown t (by rw [hcame]; exact hne)
    exact hout (List.mem_toFinset.mpr hsent)
  · intro e hin himage'
    obtain ⟨t, -, rfl⟩ := Finset.mem_image.mp himage'
    have hle := h.count_sent_le t
    have hpos := List.count_pos_iff.mpr (List.mem_toFinset.mp hin)
    have hone : c.log.count (.sent t) = 1 := by omega
    rw [hone, one_smul]

/-- The first-hop bytes of the chunks that were forwarded. -/
def forwardedBytes (a : AlltoAll) (log : List AlltoAllObs) : Nat :=
  ∑ p ∈ crossPairs a, if .sent (a.finalTransfer p.1 p.2) ∈ log then
    deliveredOf log (a.chunkTransfer p.1 p.2) else 0

theorem Kept.forwardedBytes_eq (h : Kept a c) (hr : a.Lawful) (hover : c.completed = true) :
    forwardedBytes a c.log = ∑ p ∈ crossPairs a, a.chunkSizeOf p.2 := by
  refine Finset.sum_congr rfl ?_
  intro p hp
  obtain ⟨hpair, inter, hinter⟩ := mem_crossPairs.mp hp
  obtain ⟨horigin, hdest, hne⟩ := mem_pairs.mp hpair
  have hlast := h.over_of_completed hr hover ⟨p.1, horigin, p.2, hdest, hne, .inl rfl⟩
  have hfirst := h.over_of_completed hr hover ⟨p.1, horigin, p.2, hdest, hne, .inr ⟨inter, hinter, rfl⟩⟩
  rw [AlltoAll.finalTransfer_final horigin hdest hne] at hlast
  rw [AlltoAll.chunkTransfer_final] at hfirst
  split
  · exact hfirst
  · rename_i hnot
    by_contra hne'
    refine hnot (h.booked.ledger.flown _ ?_)
    rw [hlast]
    exact Ne.symm hne'

/-! ## Termination -/

/-- The transfers that have not started, and the bytes that have not arrived. -/
def remaining (a : AlltoAll) (log : List AlltoAllObs) : Nat :=
  ∑ t ∈ hops a, ((1 - log.count (.sent t)) + (a.chunkSizeOf t.final - deliveredOf log t))

theorem remaining_lt {more : List AlltoAllObs} (ht : t ∈ hops a)
    (hless : log.count (.sent t) = 0 ∧ 0 < more.count (.sent t) ∨
      deliveredOf log t < a.chunkSizeOf t.final ∧ 0 < deliveredOf more t) :
    remaining a (log ++ more) < remaining a log := by
  apply Finset.sum_lt_sum
  · intro t' _
    rw [List.count_append, deliveredOf_append]
    omega
  · refine ⟨t, ht, ?_⟩
    rw [List.count_append, deliveredOf_append]
    omega

theorem checkGlobalCompletion_log (c : AlltoAllRun) :
    ∃ more, c.checkGlobalCompletion.log = c.log ++ more := by
  unfold checkGlobalCompletion
  dsimp only
  split
  · exact ⟨[.completed], rfl⟩
  · exact ⟨[], (List.append_nil _).symm⟩

theorem finishStep_log (c : AlltoAllRun) (dest : Nat) :
    ∃ more, (c.finishStep dest).log = c.log ++ more := by
  unfold finishStep onGpuStepReceiveComplete
  dsimp only
  split
  · exact checkGlobalCompletion_log _
  · exact ⟨[], (List.append_nil _).symm⟩

theorem drain_log (dest rounds : Nat) (c : AlltoAllRun) :
    ∃ more, (drain dest rounds c).log = c.log ++ more := by
  induction rounds generalizing c with
  | zero => exact ⟨[], (List.append_nil _).symm⟩
  | succ rounds ih =>
      unfold drain
      split
      · obtain ⟨more, hmore⟩ := c.finishStep_log dest
        obtain ⟨rest, hrest⟩ := ih (c.finishStep dest)
        exact ⟨more ++ rest, by rw [hrest, hmore, List.append_assoc]⟩
      · exact ⟨[], (List.append_nil _).symm⟩

theorem receiveStep_log (c : AlltoAllRun) (dest bytes : Nat) :
    ∃ more, (c.receiveStep dest bytes).log = c.log ++ more :=
  drain_log dest _ _

theorem receiveChunk_log (c : AlltoAllRun) (dest bytes : Nat) :
    ∃ more, (c.receiveChunk dest bytes).log = c.log ++ more := by
  unfold receiveChunk
  dsimp only
  split
  · split
    · exact checkGlobalCompletion_log _
    · exact ⟨[], (List.append_nil _).symm⟩
  · exact ⟨[], (List.append_nil _).symm⟩

theorem receiveFirstHop_log (c : AlltoAllRun) (source dest final bytes : Nat) :
    ∃ more, (c.receiveFirstHop source dest final bytes).log = c.log ++ more := by
  unfold receiveFirstHop
  dsimp only
  split
  · exact ⟨[], (List.append_nil _).symm⟩
  · exact ⟨[], (List.append_nil _).symm⟩

theorem onPacketReceived_log (c : AlltoAllRun) (h : Header) (packetSize : UInt32) :
    ∃ more, (c.onPacketReceived h packetSize).log = c.log ++ more := by
  unfold onPacketReceived
  dsimp only
  split
  · exact ⟨[], (List.append_nil _).symm⟩
  · split
    · exact receiveStep_log _ _ _
    · exact receiveChunk_log _ _ _
    · split
      · exact receiveFirstHop_log _ _ _ _ _
      · exact receiveChunk_log _ _ _

theorem Kept.remaining_lt (h : Kept a c) (hr : a.Lawful) {act : Act} {c' : AlltoAllRun}
    (hmoves : act.Moves) (hen : c.enabled act) (hex : c.exec act = .ok c') :
    remaining a c'.log < remaining a c.log := by
  cases act with
  | fire i =>
      have hi : i < c.scheduled.length := hen
      have hget := List.getElem?_eq_getElem hi
      unfold exec at hex
      dsimp only at hex
      rw [hget] at hex
      obtain rfl := Except.ok.inj hex
      obtain ⟨t, hfresh, hdue, hlog⟩ := (h.fire hget).2
      rw [hlog]
      refine AlltoAllRun.remaining_lt (mem_hops.mpr (hdue.hop hr)) (.inl ⟨?_, ?_⟩)
      · exact List.count_eq_zero.mpr hfresh
      · exact List.count_pos_iff.mpr (List.mem_singleton_self _)
  | deliver t bytes packetSize =>
      obtain ⟨hsent, hbytes, hcap⟩ := hen
      have hpos : 0 < bytes.toNat :=
        Nat.pos_of_ne_zero fun hzero => hbytes (UInt32.toNat_inj.mp hzero)
      rw [h.booked.plan] at hcap
      obtain rfl := Except.ok.inj hex
      obtain ⟨more, hlog⟩ := onPacketReceived_log
        { c with log := c.log ++ [.delivered t bytes.toNat] } (fragmentHeader t bytes) packetSize
      rw [hlog]
      show remaining a (c.log ++ [AlltoAllObs.delivered t bytes.toNat] ++ more) < remaining a c.log
      rw [List.append_assoc]
      refine AlltoAllRun.remaining_lt (mem_hops.mpr (h.booked.ledger.hop hr hsent)) (.inr ⟨by omega, ?_⟩)
      rw [deliveredOf_append]
      refine Nat.add_pos_left ?_ _
      have hone := deliveredOf_delivered [] t t bytes.toNat
      rw [if_pos rfl, List.nil_append] at hone
      omega
  | receive hdr packetSize => cases hmoves

theorem Stage.remaining_lt (h : Stage a c) (hr : a.Lawful) {act : Act} {c' : AlltoAllRun}
    (hmoves : act.Moves) (hen : c.enabled act) (hex : c.exec act = .ok c') :
    remaining a c'.log < remaining a c.log := by
  rcases h with rfl | h
  · have htwo := hr.two
    rcases exec_started hr hen hex with ⟨-, hdr, packetSize, rfl⟩ | rfl
    · cases hmoves
    -- the first rank sends at once
    · have hdue : ∃ t, Due a [] t := by
        by_cases hmode : a.mode = .ringPipeline
        · exact ⟨a.stepTransfer 0 0, .step hmode (by omega) (by omega) (Nat.zero_le _)⟩
        · exact ⟨a.chunkTransfer 0 1, .chunk hmode (by omega) (by omega) Nat.zero_ne_one⟩
      obtain ⟨t, hdue⟩ := hdue
      rw [sendAll_log]
      refine AlltoAllRun.remaining_lt (mem_hops.mpr (hdue.hop hr)) (.inl ⟨rfl, ?_⟩)
      exact List.count_pos_iff.mpr (List.mem_map_of_mem ((mem_opening hr t).mpr hdue))
  · exact h.remaining_lt hr hmoves hen hex

end AlltoAllRun

/-- An AlltoAll delivers. At the callback each rank has the bytes of one chunk from each other rank; a
chunk with two hops is forwarded once, behind all bytes of the first; the callback is called once, behind
all bytes. Nothing keeps a run from it: what is not quiet has an act of the network or of the clock, each
of them leaves less to do, and quiet runs have completed. The counter has what was sent, in 64 bits. -/
structure AlltoAllDelivers (a : AlltoAll) (c : AlltoAllRun) : Prop where
  received : c.completed = true → ∀ dest < a.numGpus,
    AlltoAllRun.arrivedAt c.log dest = (a.numGpus - 1) * a.chunkSizeOf dest ∧
      ∀ origin < a.numGpus, origin ≠ dest →
        AlltoAllRun.deliveredOf c.log (a.finalTransfer origin dest) = a.chunkSizeOf dest
  forwardsBehind : AlltoAllRun.ForwardsBehindFirstHop a c.log
  sendsOnce : ∀ t, c.log.count (.sent t) ≤ 1
  forwardsOnce : c.completed = true → ∀ origin < a.numGpus, ∀ dest < a.numGpus, ∀ inter,
    a.intermediate origin dest = some inter → c.log.count (.sent (a.finalTransfer origin dest)) =
      if a.chunkSizeOf dest = 0 then 0 else 1
  completes : AlltoAllRun.CompletesBehindArrivals a c.log
  once : c.log.count .completed = if c.completed then 1 else 0
  quiet : c.Quiet → c.completed = true
  goesOn : ¬ c.Quiet → ∃ act : AlltoAllRun.Act, act.Moves ∧ c.enabled act
  ends : ∀ (act : AlltoAllRun.Act) c', act.Moves → c.enabled act → c.exec act = .ok c' →
    AlltoAllRun.remaining a c'.log < AlltoAllRun.remaining a c.log
  total : c.completed = true →
    AlltoAllRun.bytesSent a c.log =
        (a.numGpus - 1) * a.dataSize + AlltoAllRun.forwardedBytes a c.log ∧
      c.sentDataBytes =
        ((a.numGpus - 1) * a.dataSize + AlltoAllRun.forwardedBytes a c.log) % 2 ^ 64

namespace AlltoAllRun

variable {a : AlltoAll} {c : AlltoAllRun} {mode : AlltoAllMode} {numGpus : UInt16} {dataSize : UInt64}

theorem Kept.total (h : Kept a c) (hr : a.Lawful) (hover : c.completed = true) :
    bytesSent a c.log = (a.numGpus - 1) * a.dataSize + forwardedBytes a c.log := by
  rw [h.bytesSent_eq hr hover, sum_hops hr, sum_pairs hr, h.forwardedBytes_eq hr hover]

theorem Kept.count_forwarded (h : Kept a c) (hr : a.Lawful) (hover : c.completed = true)
    {origin dest inter : Nat} (horigin : origin < a.numGpus) (hdest : dest < a.numGpus)
    (hinter : a.intermediate origin dest = some inter) :
    c.log.count (.sent (a.finalTransfer origin dest)) = if a.chunkSizeOf dest = 0 then 0 else 1 := by
  obtain ⟨-, -, hne, -⟩ := hr.intermediate horigin hinter
  have hledger := h.booked.ledger
  split
  · rename_i hzero
    apply List.count_eq_zero.mpr
    intro hsent
    obtain ⟨pre, post, heq⟩ := List.append_of_mem hsent
    have hpos := (hledger.forwards hr pre _ post heq origin horigin dest hdest inter hinter rfl).1
    omega
  · rename_i hpos
    have hall := (hledger.full_iff hdest).mp (h.closing.ended.mp hover dest hdest) origin horigin hne
    have hsent := hledger.flown (a.finalTransfer origin dest) (by omega)
    have hle := h.count_sent_le (a.finalTransfer origin dest)
    have hcount := List.count_pos_iff.mpr hsent
    omega

theorem Kept.delivers (h : Kept a c) (hr : a.Lawful) : AlltoAllDelivers a c where
  received hover dest hdest := by
    have hall := (h.booked.ledger.full_iff hdest).mp (h.closing.ended.mp hover dest hdest)
    have hcard : ((Finset.range a.numGpus).erase dest).card = a.numGpus - 1 := by
      rw [Finset.card_erase_of_mem (Finset.mem_range.mpr hdest), Finset.card_range]
    refine ⟨?_, hall⟩
    rw [h.booked.ledger.pooled dest hdest, ← hcard, ← smul_eq_mul, ← Finset.sum_const]
    refine Finset.sum_congr rfl ?_
    intro origin hin
    obtain ⟨hne, hrange⟩ := Finset.mem_erase.mp hin
    exact hall origin (Finset.mem_range.mp hrange) hne
  forwardsBehind := h.booked.ledger.forwards hr
  sendsOnce := h.count_sent_le
  forwardsOnce hover _ horigin _ hdest _ hinter := h.count_forwarded hr hover horigin hdest hinter
  completes := h.closing.completes
  once := h.closing.once
  quiet := h.completed_of_quiet hr
  goesOn := Stage.exists_act (.inr h)
  ends _ _ := h.remaining_lt hr
  total hover := ⟨h.total hr hover, (h.booked.bytes).trans (by rw [h.total hr hover])⟩

theorem Stage.delivers (h : Stage a c) (hr : a.Lawful) : AlltoAllDelivers a c := by
  rcases h with rfl | h
  · exact
      { received := fun hover => absurd hover Bool.false_ne_true
        forwardsBehind := Justified.nil
        sendsOnce := fun _ => Nat.zero_le _
        forwardsOnce := fun hover => absurd hover Bool.false_ne_true
        completes := Justified.nil
        once := rfl
        quiet := fun hquiet => absurd hquiet.1 (List.cons_ne_nil _ _)
        goesOn := Stage.exists_act (.inl rfl)
        ends := fun _ _ => Stage.remaining_lt (.inl rfl) hr
        total := fun hover => absurd hover Bool.false_ne_true }
  · exact h.delivers hr

theorem exists_completed (htwo : 2 ≤ numGpus.toNat) (hdata : 1 ≤ dataSize.toNat)
    (hfits : AlltoAll.Fits mode numGpus) :
    ∃ c, (alltoAllMachine mode numGpus dataSize).Reachable c ∧ c.completed = true := by
  have hr := AlltoAll.lawful_grid htwo hdata hfits
  have hstage := stage_invariant htwo hdata hfits
  have hinit : (alltoAllMachine mode numGpus dataSize).init
      (started (AlltoAll.grid mode numGpus dataSize)) :=
    ⟨_, initialized_eq htwo hdata hfits, (start_credited _).symm⟩
  obtain ⟨c, hc, hquiet⟩ := Machine.Reachable.exists_of_measure (P := Quiet)
    (fun c => remaining (AlltoAll.grid mode numGpus dataSize) c.log) (by
      intro c hc hquiet
      obtain ⟨act, hmoves, hen⟩ := (hstage c hc).exists_act hquiet
      obtain ⟨c', hex⟩ : ∃ c', c.exec act = .ok c' := by
        unfold exec
        split
        · split <;> exact ⟨_, rfl⟩
        · exact ⟨_, rfl⟩
        · exact ⟨_, rfl⟩
      exact ⟨act, c', hen, hex, (hstage c hc).remaining_lt hr hmoves hen hex⟩) (.init hinit)
  exact ⟨c, hc, (hstage c hc).completed_of_quiet hr hquiet⟩

end AlltoAllRun

/-- In every run of an AlltoAll, whatever arrives first. -/
theorem alltoAll_delivers (mode : AlltoAllMode) (numGpus : UInt16) (dataSize : UInt64)
    (htwo : 2 ≤ numGpus.toNat) (hdata : 1 ≤ dataSize.toNat) (hfits : AlltoAll.Fits mode numGpus) :
    (∃ c, (alltoAllMachine mode numGpus dataSize).init c) ∧
      ∀ c, (alltoAllMachine mode numGpus dataSize).Reachable c →
        AlltoAllDelivers (AlltoAll.grid mode numGpus dataSize) c := by
  refine ⟨⟨_, _, AlltoAllRun.initialized_eq htwo hdata hfits, rfl⟩, ?_⟩
  intro c hc
  exact (AlltoAllRun.stage_invariant htwo hdata hfits c hc).delivers
    (AlltoAll.lawful_grid htwo hdata hfits)

/-- Six ranks in two rows, two of them with empty chunks. -/
theorem alltoAll_delivers_twoRows :
    (∃ c, (alltoAllMachine (.twoDimensional 2 3) 6 4).init c) ∧
      ∀ c, (alltoAllMachine (.twoDimensional 2 3) 6 4).Reachable c →
        AlltoAllDelivers (AlltoAll.grid (.twoDimensional 2 3) 6 4) c :=
  alltoAll_delivers (.twoDimensional 2 3) 6 4 (by decide) (by decide) (by
    intro rows cols heq
    cases heq
    decide)

/-- The counter of the sent bytes does not hold the bytes of three ranks with half of 2^64 bytes. -/
theorem not_sentDataBytes_total :
    ¬ ∀ (mode : AlltoAllMode) (numGpus : UInt16) (dataSize : UInt64), 2 ≤ numGpus.toNat →
      1 ≤ dataSize.toNat → AlltoAll.Fits mode numGpus →
      ∀ c, (alltoAllMachine mode numGpus dataSize).Reachable c → c.completed = true →
        c.sentDataBytes = (numGpus.toNat - 1) * dataSize.toNat +
          AlltoAllRun.forwardedBytes (AlltoAll.grid mode numGpus dataSize) c.log := by
  intro hexact
  have hfits : AlltoAll.Fits .concurrent 3 := fun rows cols heq => nomatch heq
  obtain ⟨c, hc, hover⟩ : ∃ c, (alltoAllMachine .concurrent 3 9223372036854775808).Reachable c ∧
      c.completed = true :=
    AlltoAllRun.exists_completed (by decide) (by decide) hfits
  have htotal := hexact .concurrent 3 9223372036854775808 (by decide) (by decide) hfits c hc hover
  have hbytes : c.sentDataBytes < 2 ^ 64 := by
    rcases AlltoAllRun.stage_invariant (by decide) (by decide) hfits c hc with rfl | h
    · cases hover
    · rw [h.booked.bytes]
      exact Nat.mod_lt _ (by norm_num)
  have hwhole : ((3 : UInt16).toNat - 1) * (9223372036854775808 : UInt64).toNat = 2 ^ 64 := by
    decide
  omega

end ProtoBridge.Collective
