import Mathlib.Data.Finset.Card
import ProtoBridge.Lib.Machine
import ProtoBridge.Lib.SortedMap
import ProtoBridge.Lib.Word

/-!
# The reorder buffer of an endpoint

`ReorderBuffer` parks the packets of one flow that arrive ahead of the expected
sequence number and hands them on in order. A number the sender gave up on is a
permanent gap; it is stepped over, and a second callback is told.

The two callbacks are set, as the endpoint sets them when it creates a buffer. What
they are told is `reports`; `accepted` keeps what `Insert` took. Both are history
only: no function reads them.
-/

namespace ProtoBridge.Endpoint

open Lib

variable {P H : Type}

/-- A parked packet (`ReorderEntry`). -/
structure Entry (P H : Type) where
  packet : P
  header : H
  delivered : Bool
  deriving DecidableEq

/-- What a callback was told. -/
inductive Report (P H : Type)
  | delivered (seqNum : Nat) (packet : P) (header : H)
  | gap (seqNum : Nat) (header : H)
  deriving DecidableEq

/-- The number a report is about. -/
def Report.seqNum : Report P H → Nat
  | .delivered seqNum _ _ => seqNum
  | .gap seqNum _ => seqNum

/-- `ReorderBuffer`. Sequence numbers are 32 bits wide. -/
structure ReorderBuffer (P H : Type) where
  maxBufferSize : Nat
  expectedSeq : Nat := 0
  buffer : SortedMap Nat (Entry P H) := .empty
  permanentGaps : Finset Nat := ∅
  permanentGapHeaders : Nat → Option H := fun _ => none
  reorderEventCount : Nat := 0
  maxOccupancy : Nat := 0
  reports : List (Report P H) := []
  accepted : List (Nat × P × H) := []

namespace ReorderBuffer

/-- Tell a callback. -/
def report (b : ReorderBuffer P H) (r : Report P H) : ReorderBuffer P H :=
  { b with reports := b.reports ++ [r] }

/-- `HasReadyPackets`. -/
def hasReadyPackets (b : ReorderBuffer P H) : Bool :=
  match b.buffer.find? b.expectedSeq with
  | some entry => !entry.delivered
  | none => false

/-- `GetNextPacket`. Gaps are erased from the front of a set, so those below the
new expected number go and no other. Entries are erased from the front of a map
while the front is delivered, so an undelivered entry keeps all behind it. -/
def getNextPacket (b : ReorderBuffer P H) : Option (P × H × ReorderBuffer P H) :=
  match b.buffer.find? b.expectedSeq with
  | none => none
  | some entry =>
      if entry.delivered then none
      else
        let next := wadd 32 b.expectedSeq 1
        let marked := b.buffer.set b.expectedSeq { entry with delivered := true }
        some (entry.packet, entry.header,
          { b with
            expectedSeq := next
            permanentGaps := b.permanentGaps.filter (next ≤ ·)
            buffer := marked.trim fun x => x.2.delivered && decide (x.1 < next) })

/-- `IsDuplicate`. -/
def isDuplicate (b : ReorderBuffer P H) (seqNum : Nat) : Bool :=
  decide (seqNum < b.expectedSeq) || (b.buffer.find? seqNum).isSome

/-- `MarkPermanentGap`. -/
def markPermanentGap (b : ReorderBuffer P H) (seqNum : Nat) (header : H) : ReorderBuffer P H :=
  { b with
    permanentGaps := insert seqNum b.permanentGaps
    permanentGapHeaders := Function.update b.permanentGapHeaders seqNum (some header) }

/-- One turn of the loop in `AdvancePastPermanentGaps`: the callback is told when
there is a header for the gap. -/
def skipGap (b : ReorderBuffer P H) : ReorderBuffer P H :=
  let told := match b.permanentGapHeaders b.expectedSeq with
    | some header => b.report (.gap b.expectedSeq header)
    | none => b
  { told with expectedSeq := wadd 32 b.expectedSeq 1 }

/-- That loop. Each turn passes another gap, so the number of gaps is fuel enough. -/
def skipGaps : Nat → ReorderBuffer P H → ReorderBuffer P H
  | 0, b => b
  | fuel + 1, b => if b.expectedSeq ∈ b.permanentGaps then skipGaps fuel b.skipGap else b

/-- `AdvancePastPermanentGaps`. -/
def advancePastPermanentGaps (b : ReorderBuffer P H) : ReorderBuffer P H :=
  let passed := skipGaps b.permanentGaps.card b
  { passed with
    permanentGaps := passed.permanentGaps.filter (passed.expectedSeq ≤ ·)
    permanentGapHeaders := fun seqNum =>
      if seqNum < passed.expectedSeq then none else passed.permanentGapHeaders seqNum }

/-- The loop of `DeliverReadyPackets`. Each turn delivers another entry, so the
number of entries is fuel enough. -/
def deliverLoop : Nat → ReorderBuffer P H → ReorderBuffer P H
  | 0, b => b
  | fuel + 1, b =>
      if b.hasReadyPackets then
        match b.getNextPacket with
        | some (packet, header, b') =>
            let told := b'.report (.delivered (wsub 32 b'.expectedSeq 1) packet header)
            deliverLoop fuel told.advancePastPermanentGaps
        | none => deliverLoop fuel b
      else b

/-- `DeliverReadyPackets`. -/
def deliverReadyPackets (b : ReorderBuffer P H) : ReorderBuffer P H :=
  deliverLoop b.buffer.size b.advancePastPermanentGaps

/-- Put a packet into the buffer. -/
def park (b : ReorderBuffer P H) (seqNum : Nat) (packet : P) (header : H) : ReorderBuffer P H :=
  { b with
    buffer := b.buffer.set seqNum { packet := packet, header := header, delivered := false }
    accepted := b.accepted ++ [(seqNum, packet, header)] }

/-- `Insert`: whether the packet was taken, and the buffer. The expected packet is
taken even when the buffer is full. -/
def insert (b : ReorderBuffer P H) (seqNum : Nat) (packet : P) (header : H) :
    Bool × ReorderBuffer P H :=
  if b.isDuplicate seqNum then (false, b)
  else if seqNum = b.expectedSeq then (true, (b.park seqNum packet header).deliverReadyPackets)
  else if b.expectedSeq < seqNum then
    if b.maxBufferSize ≤ b.buffer.size then (false, b)
    else
      let parked := b.park seqNum packet header
      (true, { parked with
        reorderEventCount := wadd 32 b.reorderEventCount 1
        maxOccupancy := max b.maxOccupancy (parked.buffer.size % 2 ^ 32) })
  else (false, b)

end ReorderBuffer

/-- A call on a buffer. The endpoint issues `insert` and `deliver` for a data packet,
`mark` and `deliver` for a permanent loss notice. -/
inductive ReorderCall (P H : Type)
  | insert (seqNum : Nat) (packet : P) (header : H)
  | mark (seqNum : Nat) (header : H)
  | deliver

namespace ReorderCall

/-- The buffer after a call. -/
def exec (b : ReorderBuffer P H) : ReorderCall P H → ReorderBuffer P H
  | .insert seqNum packet header => (b.insert seqNum packet header).2
  | .mark seqNum header => b.markPermanentGap seqNum header
  | .deliver => b.deliverReadyPackets

/-- Fewer than `2^32` numbers are in use: the last one is not reached. -/
def InRange : ReorderCall P H → Prop
  | .insert seqNum _ _ => seqNum + 1 < 2 ^ 32
  | .mark seqNum _ => seqNum + 1 < 2 ^ 32
  | .deliver => True

instance : (c : ReorderCall P H) → Decidable c.InRange
  | .insert seqNum _ _ => inferInstanceAs (Decidable (seqNum + 1 < 2 ^ 32))
  | .mark seqNum _ => inferInstanceAs (Decidable (seqNum + 1 < 2 ^ 32))
  | .deliver => inferInstanceAs (Decidable True)

end ReorderCall

/-- The runs of a fresh buffer of any capacity under any calls. -/
def reorderMachine (P H : Type) : Machine (ReorderBuffer P H) (ReorderCall P H) Empty where
  init b := ∃ capacity, b = { maxBufferSize := capacity }
  enabled _ c := c.InRange
  exec b c := .ok (c.exec b)

instance (b : ReorderBuffer P H) (c : ReorderCall P H) :
    Decidable ((reorderMachine P H).enabled b c) :=
  inferInstanceAs (Decidable c.InRange)

namespace ReorderBuffer

variable {b b' : ReorderBuffer P H}

/-- Every number passed so far was reported once, in order, and truthfully; nothing
that was accepted is missing; nothing is parked below the expected number. A packet is
accepted when `Insert` says so, and at no other time. -/
structure Faithful (b : ReorderBuffer P H) : Prop where
  inOrder : b.reports.map Report.seqNum = List.range b.expectedSeq
  delivered : ∀ s p h, (s, p, h) ∈ b.accepted → s < b.expectedSeq → .delivered s p h ∈ b.reports
  gap : ∀ s < b.expectedSeq, s ∉ b.accepted.map Prod.fst → ∃ h, .gap s h ∈ b.reports
  drained : ∀ x ∈ b.buffer.entries, b.expectedSeq ≤ x.1
  bounded : b.buffer.size ≤ max b.maxBufferSize 1
  expectedTaken : ∀ p h, (b.insert b.expectedSeq p h).1 = true
  answered : ∀ s p h, (b.insert s p h).2.accepted =
    b.accepted ++ if (b.insert s p h).1 then [(s, p, h)] else []

/-- The call brings a packet and a loss notice of one number together: a packet is
taken whose number is already marked, or a number is marked whose packet is parked. -/
def Clash (b : ReorderBuffer P H) : ReorderCall P H → Prop
  | .insert seqNum _ _ =>
      seqNum ∈ b.permanentGaps ∧ b.isDuplicate seqNum = false ∧
        (seqNum = b.expectedSeq ∨ b.buffer.size < b.maxBufferSize)
  | .mark seqNum _ => (b.buffer.find? seqNum).isSome
  | .deliver => False

instance (b : ReorderBuffer P H) : (c : ReorderCall P H) → Decidable (b.Clash c)
  | .insert _ _ _ => inferInstanceAs (Decidable (_ ∧ _ ∧ (_ ∨ _)))
  | .mark _ _ => inferInstanceAs (Decidable (_ = true))
  | .deliver => inferInstanceAs (Decidable False)

/-- What holds between any two turns of any loop, as long as no call clashed. -/
structure Sound (b : ReorderBuffer P H) : Prop where
  inOrder : b.reports.map Report.seqNum = List.range b.expectedSeq
  honest : ∀ s p h, .delivered s p h ∈ b.reports → (s, p, h) ∈ b.accepted
  kept : ∀ s p h, (s, p, h) ∈ b.accepted →
    .delivered s p h ∈ b.reports ∨ (s, ⟨p, h, false⟩) ∈ b.buffer.entries
  parked : ∀ x ∈ b.buffer.entries,
    b.expectedSeq ≤ x.1 ∧ x.2.delivered = false ∧ x.1 ∉ b.permanentGaps ∧ x.1 + 1 < 2 ^ 32
  backed : ∀ x ∈ b.buffer.entries, (x.1, x.2.packet, x.2.header) ∈ b.accepted
  marked : ∀ g ∈ b.permanentGaps,
    g + 1 < 2 ^ 32 ∧ (b.expectedSeq ≤ g → ∃ h, b.permanentGapHeaders g = some h)

/-- What the loops may do: move the expected number up, and drop parked packets
from the front. -/
structure Advances (b b' : ReorderBuffer P H) : Prop where
  suffix : b'.buffer.entries <:+ b.buffer.entries
  expected : b.expectedSeq ≤ b'.expectedSeq
  accepted : b'.accepted = b.accepted
  capacity : b'.maxBufferSize = b.maxBufferSize

theorem Advances.refl (b : ReorderBuffer P H) : Advances b b :=
  ⟨List.suffix_rfl, le_rfl, rfl, rfl⟩

theorem Advances.trans {b'' : ReorderBuffer P H} (h : Advances b b') (h' : Advances b' b'') :
    Advances b b'' :=
  ⟨h'.suffix.trans h.suffix, h.expected.trans h'.expected, h'.accepted.trans h.accepted,
    h'.capacity.trans h.capacity⟩

/-! ## Only `Insert` accepts -/

theorem accepted_skipGaps (fuel : Nat) (b : ReorderBuffer P H) :
    (skipGaps fuel b).accepted = b.accepted := by
  induction fuel generalizing b with
  | zero => rfl
  | succ fuel ih =>
      rw [skipGaps]
      split
      · rw [ih, skipGap]
        split <;> rfl
      · rfl

theorem accepted_deliverLoop (fuel : Nat) (b : ReorderBuffer P H) :
    (deliverLoop fuel b).accepted = b.accepted := by
  induction fuel generalizing b with
  | zero => rfl
  | succ fuel ih =>
      rw [deliverLoop]
      split
      · split
        · rename_i packet header b' hnext
          rw [ih, advancePastPermanentGaps]
          refine (accepted_skipGaps _ _).trans ?_
          -- taking an entry off the buffer leaves the history alone
          unfold getNextPacket at hnext
          split at hnext
          · cases hnext
          · split at hnext
            · cases hnext
            · cases hnext
              rfl
        · exact ih b
      · rfl

theorem accepted_insert (b : ReorderBuffer P H) (seqNum : Nat) (packet : P) (header : H) :
    (b.insert seqNum packet header).2.accepted =
      b.accepted ++ if (b.insert seqNum packet header).1 then [(seqNum, packet, header)] else [] := by
  have refused : b.accepted = b.accepted ++ [] := (List.append_nil _).symm
  unfold insert
  split
  · exact refused
  · split
    · rename_i expected
      exact (accepted_deliverLoop _ _).trans (accepted_skipGaps _ _)
    · split
      · split
        · exact refused
        · rfl
      · exact refused

/-! ## One turn of each loop -/

theorem sound_skipGap (hs : Sound b) (hgap : b.expectedSeq ∈ b.permanentGaps) :
    Sound b.skipGap ∧ Advances b b.skipGap ∧ b.skipGap.permanentGaps = b.permanentGaps ∧
      b.skipGap.expectedSeq = b.expectedSeq + 1 := by
  obtain ⟨hlt, hhdr⟩ := hs.marked _ hgap
  obtain ⟨header, hheader⟩ := hhdr le_rfl
  have hskip : b.skipGap =
      { b.report (.gap b.expectedSeq header) with expectedSeq := b.expectedSeq + 1 } := by
    simp only [skipGap, hheader, wadd_eq hlt]
  rw [hskip]
  refine ⟨?_, ⟨List.suffix_rfl, Nat.le_succ _, rfl, rfl⟩, rfl, rfl⟩
  constructor
  · simp [report, hs.inOrder, Report.seqNum, List.range_succ]
  · intro s p h hmem
    rcases List.mem_append.mp hmem with hold | hnew
    · exact hs.honest s p h hold
    · exact absurd hnew (by simp)
  · intro s p h hacc
    rcases hs.kept s p h hacc with hrep | hbuf
    · exact .inl (List.mem_append_left _ hrep)
    · exact .inr hbuf
  · intro x hx
    obtain ⟨hle, hdel, hfree, hrange⟩ := hs.parked x hx
    -- a parked number is no gap, so it is not the one just passed
    have hne : b.expectedSeq ≠ x.1 := by
      intro heq
      exact hfree (heq ▸ hgap)
    exact ⟨Nat.lt_of_le_of_ne hle hne, hdel, hfree, hrange⟩
  · exact hs.backed
  · intro g hg
    exact ⟨(hs.marked g hg).1, fun hle => (hs.marked g hg).2 (Nat.le_of_succ_le hle)⟩

variable {fuel seqNum : Nat}

theorem sound_skipGaps (hs : Sound b)
    (hfuel : (b.permanentGaps.filter (b.expectedSeq ≤ ·)).card ≤ fuel) :
    Sound (skipGaps fuel b) ∧ Advances b (skipGaps fuel b) ∧
      (skipGaps fuel b).expectedSeq ∉ (skipGaps fuel b).permanentGaps := by
  induction fuel generalizing b with
  | zero =>
      refine ⟨hs, .refl b, ?_⟩
      intro hgap
      have hempty := Finset.card_eq_zero.mp (Nat.le_zero.mp hfuel)
      exact Finset.notMem_empty _ (hempty ▸ Finset.mem_filter.mpr ⟨hgap, le_rfl⟩)
  | succ fuel ih =>
      simp only [skipGaps]
      split
      · rename_i hgap
        obtain ⟨hs', hadv, hgaps, hexp⟩ := sound_skipGap hs hgap
        -- the gap just passed is no longer counted
        have hless : (b.skipGap.permanentGaps.filter (b.skipGap.expectedSeq ≤ ·)).card <
            (b.permanentGaps.filter (b.expectedSeq ≤ ·)).card := by
          rw [hgaps, hexp]
          apply Finset.card_lt_card
          refine ⟨fun g hg => ?_, fun hsub => ?_⟩
          · obtain ⟨hg, hle⟩ := Finset.mem_filter.mp hg
            exact Finset.mem_filter.mpr ⟨hg, Nat.le_of_succ_le hle⟩
          · have hself := hsub (Finset.mem_filter.mpr ⟨hgap, le_rfl⟩)
            exact absurd (Finset.mem_filter.mp hself).2 (Nat.not_succ_le_self _)
        obtain ⟨hs'', hadv', hout⟩ := ih hs' (by omega)
        exact ⟨hs'', hadv.trans hadv', hout⟩
      · rename_i hgap
        exact ⟨hs, .refl b, hgap⟩

theorem sound_advance (hs : Sound b) :
    Sound b.advancePastPermanentGaps ∧ Advances b b.advancePastPermanentGaps ∧
      b.advancePastPermanentGaps.expectedSeq ∉ b.advancePastPermanentGaps.permanentGaps := by
  obtain ⟨hs', hadv, hout⟩ := sound_skipGaps hs (Finset.card_filter_le _ _)
  refine ⟨?_, ⟨hadv.suffix, hadv.expected, hadv.accepted, hadv.capacity⟩, ?_⟩
  · constructor
    · exact hs'.inOrder
    · exact hs'.honest
    · exact hs'.kept
    · intro x hx
      obtain ⟨hle, hdel, hfree, hrange⟩ := hs'.parked x hx
      exact ⟨hle, hdel, fun hg => hfree (Finset.mem_filter.mp hg).1, hrange⟩
    · exact hs'.backed
    · intro g hg
      obtain ⟨hg, hge⟩ := Finset.mem_filter.mp hg
      refine ⟨(hs'.marked g hg).1, fun hle => ?_⟩
      obtain ⟨header, hheader⟩ := (hs'.marked g hg).2 hle
      exact ⟨header, by simp only [advancePastPermanentGaps, if_neg (Nat.not_lt.mpr hge), hheader]⟩
  · intro hg
    exact hout (Finset.mem_filter.mp hg).1

/-- The entry `GetNextPacket` takes is the front one, and it leaves nothing of it. -/
theorem getNextPacket_eq (hs : Sound b) (hready : b.hasReadyPackets = true) :
    ∃ p h rest, b.buffer.entries = (b.expectedSeq, ⟨p, h, false⟩) :: rest ∧
      ∃ b', b.getNextPacket = some (p, h, b') ∧ b'.buffer.entries = rest ∧
        b' = { b with
          expectedSeq := b.expectedSeq + 1
          permanentGaps := b.permanentGaps.filter (b.expectedSeq + 1 ≤ ·)
          buffer := b'.buffer } := by
  unfold hasReadyPackets at hready
  split at hready
  · rename_i entry hfind
    have hfront : ∀ x ∈ b.buffer.entries, b.expectedSeq ≤ x.1 := fun x hx => (hs.parked x hx).1
    obtain ⟨rest, hentries⟩ := SortedMap.front_of_le hfind hfront
    obtain ⟨-, hdel, -, hlt⟩ := hs.parked (b.expectedSeq, entry) (by simp [hentries])
    obtain ⟨p, h, d⟩ := entry
    simp only at hdel
    subst hdel
    refine ⟨p, h, rest, hentries, ?_⟩
    simp only [getNextPacket, hfind, Bool.false_eq_true, if_false, wadd_eq hlt]
    refine ⟨_, rfl, ?_, rfl⟩
    -- the marked front goes; the next entry is not delivered, so the loop stops there
    simp only [SortedMap.trim, SortedMap.set, hentries, SortedMap.put_front]
    rw [List.dropWhile_cons_of_pos (by simp)]
    cases hrest : rest with
    | nil => rfl
    | cons y rest' =>
        obtain ⟨-, hy, -, -⟩ := hs.parked y (by simp [hentries, hrest])
        rw [List.dropWhile_cons_of_neg (by simp [hy])]
  · exact absurd hready (by simp)

/-- One delivery: the front entry is taken off and reported. -/
theorem sound_deliver (hs : Sound b) (hready : b.hasReadyPackets = true) :
    ∃ p h b', b.getNextPacket = some (p, h, b') ∧
      Sound (b'.report (.delivered (wsub 32 b'.expectedSeq 1) p h)) ∧
      Advances b (b'.report (.delivered (wsub 32 b'.expectedSeq 1) p h)) ∧
      b.buffer.size = b'.buffer.size + 1 := by
  obtain ⟨p, h, rest, hentries, b', hnext, hrest, hb'⟩ := getNextPacket_eq hs hready
  obtain ⟨-, -, -, hlt⟩ := hs.parked (b.expectedSeq, ⟨p, h, false⟩) (by simp [hentries])
  have hexp : b'.expectedSeq = b.expectedSeq + 1 := by rw [hb']
  have hseq : wsub 32 b'.expectedSeq 1 = b.expectedSeq := by
    rw [hexp, wsub_eq (by omega) hlt]
    rfl
  have hreports : b'.reports = b.reports := by rw [hb']
  have hacc : b'.accepted = b.accepted := by rw [hb']
  have hgaps : b'.permanentGaps = b.permanentGaps.filter (b.expectedSeq + 1 ≤ ·) := by rw [hb']
  have hhdrs : b'.permanentGapHeaders = b.permanentGapHeaders := by rw [hb']
  have hmax : b'.maxBufferSize = b.maxBufferSize := by rw [hb']
  refine ⟨p, h, b', hnext, ?_, ?_, ?_⟩
  · rw [hseq]
    have hsorted := b.buffer.sorted
    rw [hentries] at hsorted
    constructor
    · simp [report, hreports, hexp, hs.inOrder, Report.seqNum, List.range_succ]
    · intro s q k hmem
      simp only [report, hreports, List.mem_append, List.mem_singleton, Report.delivered.injEq]
        at hmem
      rcases hmem with hold | ⟨rfl, rfl, rfl⟩
      · exact hacc ▸ hs.honest s q k hold
      · exact hacc ▸ hs.backed _ (by rw [hentries]; exact List.mem_cons_self)
    · intro s q k hmem
      simp only [report, hreports, hrest, List.mem_append, List.mem_singleton]
      rcases hs.kept s q k (hacc ▸ hmem) with hrep | hbuf
      · exact .inl (.inl hrep)
      · rw [hentries] at hbuf
        rcases List.mem_cons.mp hbuf with heq | hbuf
        · cases heq
          exact .inl (.inr rfl)
        · exact .inr hbuf
    · intro x hx
      replace hx : x ∈ rest := hrest ▸ hx
      obtain ⟨-, hdel, hfree, hrange⟩ := hs.parked x (by simp [hentries, hx])
      have habove := (List.pairwise_cons.mp hsorted).1 x.1 (List.mem_map_of_mem hx)
      refine ⟨?_, hdel, ?_, hrange⟩
      · simp only [report, hexp]
        exact habove
      · simp only [report, hgaps]
        intro hg
        exact hfree (Finset.mem_filter.mp hg).1
    · intro x hx
      replace hx : x ∈ rest := hrest ▸ hx
      simp only [report, hacc]
      exact hs.backed x (by simp [hentries, hx])
    · intro g hg
      simp only [report, hgaps, hhdrs, hexp] at hg ⊢
      obtain ⟨hg, hge⟩ := Finset.mem_filter.mp hg
      exact ⟨(hs.marked g hg).1, fun _ => (hs.marked g hg).2 (Nat.le_of_succ_le hge)⟩
  · refine ⟨?_, ?_, hacc, hmax⟩
    · simp only [report, hrest, hentries]
      exact List.suffix_cons _ _
    · simp only [report, hexp]
      exact Nat.le_succ _
  · simp only [SortedMap.size, hrest, hentries, List.length_cons]

/-! ## Whole calls -/

theorem sound_deliverLoop (hs : Sound b) (hfuel : b.buffer.size ≤ fuel) :
    Sound (deliverLoop fuel b) ∧ Advances b (deliverLoop fuel b) ∧
      (deliverLoop fuel b).hasReadyPackets = false := by
  induction fuel generalizing b with
  | zero =>
      refine ⟨hs, .refl b, ?_⟩
      have hnil : b.buffer.entries = [] := List.length_eq_zero_iff.mp (Nat.le_zero.mp hfuel)
      simp [deliverLoop, hasReadyPackets, SortedMap.find?, hnil]
  | succ fuel ih =>
      simp only [deliverLoop]
      split
      · rename_i hready
        obtain ⟨p, h, b', hnext, hs', hadv, hsize⟩ := sound_deliver hs hready
        obtain ⟨hs'', hadv', -⟩ := sound_advance hs'
        simp only [hnext]
        set told := b'.report (.delivered (wsub 32 b'.expectedSeq 1) p h)
        have hle : told.advancePastPermanentGaps.buffer.size ≤ b'.buffer.size :=
          hadv'.suffix.length_le
        obtain ⟨hs3, hadv3, hout⟩ := ih hs'' (by omega)
        exact ⟨hs3, (hadv.trans hadv').trans hadv3, hout⟩
      · rename_i hready
        exact ⟨hs, .refl b, by simpa using hready⟩

theorem sound_deliverReadyPackets (hs : Sound b) :
    Sound b.deliverReadyPackets ∧ Advances b b.deliverReadyPackets ∧
      b.deliverReadyPackets.buffer.find? b.deliverReadyPackets.expectedSeq = none := by
  obtain ⟨hs', hadv, -⟩ := sound_advance hs
  obtain ⟨hs'', hadv', hout⟩ := sound_deliverLoop hs' hadv.suffix.length_le
  refine ⟨hs'', hadv.trans hadv', ?_⟩
  change (deliverLoop b.buffer.size b.advancePastPermanentGaps).hasReadyPackets = false at hout
  unfold deliverReadyPackets
  cases hfind : (deliverLoop b.buffer.size b.advancePastPermanentGaps).buffer.find?
      (deliverLoop b.buffer.size b.advancePastPermanentGaps).expectedSeq with
  | none => rfl
  | some entry =>
      have hdel := (hs''.parked _ (SortedMap.find?_eq_some.mp hfind)).2.1
      simp only at hdel
      simp [hasReadyPackets, hfind, hdel] at hout

theorem not_dup_iff :
    b.isDuplicate seqNum = false ↔ b.expectedSeq ≤ seqNum ∧ b.buffer.find? seqNum = none := by
  simp [isDuplicate]

theorem sound_park (packet : P) (header : H) (hs : Sound b) (hdup : b.isDuplicate seqNum = false)
    (hrange : seqNum + 1 < 2 ^ 32) (hfree : seqNum ∉ b.permanentGaps) :
    Sound (b.park seqNum packet header) ∧
      (b.park seqNum packet header).buffer.size = b.buffer.size + 1 := by
  obtain ⟨hle, hnone⟩ := not_dup_iff.mp hdup
  have hfresh := SortedMap.find?_eq_none.mp hnone
  refine ⟨?_, SortedMap.length_put_of_fresh hfresh⟩
  constructor
  · exact hs.inOrder
  · intro s p h hmem
    exact List.mem_append_left _ (hs.honest s p h hmem)
  · intro s p h hmem
    rcases List.mem_append.mp hmem with hold | hnew
    · rcases hs.kept s p h hold with hrep | hbuf
      · exact .inl hrep
      · exact .inr ((SortedMap.mem_put_of_fresh hfresh).mpr (.inr hbuf))
    · cases List.mem_singleton.mp hnew
      exact .inr ((SortedMap.mem_put_of_fresh hfresh).mpr (.inl rfl))
  · intro x hx
    rcases (SortedMap.mem_put_of_fresh hfresh).mp hx with rfl | hx
    · exact ⟨hle, rfl, hfree, hrange⟩
    · exact hs.parked x hx
  · intro x hx
    rcases (SortedMap.mem_put_of_fresh hfresh).mp hx with rfl | hx
    · exact List.mem_append_right _ (List.mem_singleton.mpr rfl)
    · exact List.mem_append_left _ (hs.backed x hx)
  · exact hs.marked

/-- What holds between calls. -/
structure Settled (b : ReorderBuffer P H) : Prop where
  sound : Sound b
  waiting : b.buffer.find? b.expectedSeq = none
  bounded : b.buffer.size ≤ b.maxBufferSize

theorem settled_deliver (hb : Settled b) : Settled b.deliverReadyPackets := by
  obtain ⟨hs, hadv, hout⟩ := sound_deliverReadyPackets hb.sound
  have hsize : b.deliverReadyPackets.buffer.size ≤ b.buffer.size := hadv.suffix.length_le
  exact ⟨hs, hout, hadv.capacity ▸ hsize.trans hb.bounded⟩

theorem settled_mark {header : H} (hb : Settled b) (hrange : seqNum + 1 < 2 ^ 32)
    (hfree : b.buffer.find? seqNum = none) : Settled (b.markPermanentGap seqNum header) := by
  have hs := hb.sound
  refine ⟨?_, hb.waiting, hb.bounded⟩
  constructor
  · exact hs.inOrder
  · exact hs.honest
  · exact hs.kept
  · intro x hx
    obtain ⟨hle, hdel, hx', hx32⟩ := hs.parked x hx
    refine ⟨hle, hdel, ?_, hx32⟩
    intro hg
    rcases Finset.mem_insert.mp hg with heq | hg
    · exact SortedMap.find?_eq_none.mp hfree (heq ▸ List.mem_map_of_mem hx)
    · exact hx' hg
  · exact hs.backed
  · intro g hg
    by_cases heq : g = seqNum
    · subst heq
      exact ⟨hrange, fun _ => ⟨header, Function.update_self ..⟩⟩
    · have hg' := (Finset.mem_insert.mp hg).resolve_left heq
      refine ⟨(hs.marked g hg').1, fun hle => ?_⟩
      obtain ⟨h, hh⟩ := (hs.marked g hg').2 hle
      exact ⟨h, (Function.update_of_ne heq ..).trans hh⟩

theorem settled_expected {packet : P} {header : H} (hb : Settled b)
    (hdup : b.isDuplicate b.expectedSeq = false) (hrange : b.expectedSeq + 1 < 2 ^ 32)
    (hfree : b.expectedSeq ∉ b.permanentGaps) :
    Settled (b.park b.expectedSeq packet header).deliverReadyPackets := by
  obtain ⟨hpark, hsize⟩ := sound_park packet header hb.sound hdup hrange hfree
  obtain ⟨hs, hadv, hout⟩ := sound_deliverReadyPackets hpark
  refine ⟨hs, hout, ?_⟩
  set c := b.park b.expectedSeq packet header with hc
  have hle : c.deliverReadyPackets.buffer.size ≤ c.buffer.size := hadv.suffix.length_le
  have hne : c.deliverReadyPackets.buffer.size ≠ c.buffer.size := by
    -- were nothing dropped, the expected packet would still be there
    intro heq
    have hsame := hadv.suffix.eq_of_length heq
    have hin : (b.expectedSeq, (⟨packet, header, false⟩ : Entry P H)) ∈
        c.deliverReadyPackets.buffer.entries := by
      rw [hsame]
      exact (SortedMap.mem_put_of_fresh (SortedMap.find?_eq_none.mp hb.waiting)).mpr (.inl rfl)
    have hback : c.deliverReadyPackets.expectedSeq ≤ b.expectedSeq := (hs.parked _ hin).1
    have heq' : c.deliverReadyPackets.expectedSeq = b.expectedSeq :=
      le_antisymm hback hadv.expected
    rw [heq'] at hout
    exact SortedMap.find?_eq_none.mp hout (List.mem_map_of_mem hin)
  have hcap : c.deliverReadyPackets.maxBufferSize = b.maxBufferSize := hadv.capacity
  have hbound := hb.bounded
  omega

theorem settled_insert {packet : P} {header : H} (hb : Settled b) (hrange : seqNum + 1 < 2 ^ 32)
    (hclash : ¬ b.Clash (.insert seqNum packet header)) :
    Settled (b.insert seqNum packet header).2 := by
  unfold insert
  split
  · exact hb
  · rename_i hdup
    replace hdup : b.isDuplicate seqNum = false := by simpa using hdup
    split
    · rename_i heq
      subst heq
      exact settled_expected hb hdup hrange fun hg => hclash ⟨hg, hdup, .inl rfl⟩
    · rename_i hne
      split
      · split
        · exact hb
        · rename_i hroom
          have hfree : seqNum ∉ b.permanentGaps :=
            fun hg => hclash ⟨hg, hdup, .inr (Nat.lt_of_not_le hroom)⟩
          obtain ⟨hs, hsize⟩ := sound_park packet header hb.sound hdup hrange hfree
          refine ⟨⟨hs.inOrder, hs.honest, hs.kept, hs.parked, hs.backed, hs.marked⟩, ?_, ?_⟩
          · refine SortedMap.find?_eq_none.mpr ?_
            intro hmem
            rcases SortedMap.mem_keys_put.mp hmem with heq | hmem
            · exact hne heq.symm
            · exact SortedMap.find?_eq_none.mp hb.waiting hmem
          · change (b.park seqNum packet header).buffer.size ≤ b.maxBufferSize
            omega
      · exact hb

theorem settled_exec {c : ReorderCall P H} (hb : Settled b) (hrange : c.InRange)
    (hclash : ¬ b.Clash c) : Settled (c.exec b) := by
  cases c with
  | insert seqNum packet header => exact settled_insert hb hrange hclash
  | mark seqNum header => exact settled_mark hb hrange (by simpa [Clash] using hclash)
  | deliver => exact settled_deliver hb

theorem Settled.faithful (hb : Settled b) : Faithful b := by
  have hs := hb.sound
  -- a report about `s` is one the expected number has passed
  have hpassed : ∀ s, s ∈ b.reports.map Report.seqNum ↔ s < b.expectedSeq := by
    intro s
    rw [hs.inOrder, List.mem_range]
  refine ⟨hs.inOrder, ?_, ?_, fun x hx => (hs.parked x hx).1, le_max_of_le_left hb.bounded, ?_,
    accepted_insert b⟩
  · intro s p h hacc hlt
    rcases hs.kept s p h hacc with hrep | hbuf
    · exact hrep
    · exact absurd (hs.parked _ hbuf).1 (Nat.not_le.mpr hlt)
  · intro s hlt hnot
    obtain ⟨r, hr, hseq⟩ := List.mem_map.mp ((hpassed s).mpr hlt)
    cases r with
    | delivered s' p h =>
        obtain rfl : s' = s := hseq
        exact absurd (List.mem_map_of_mem (hs.honest s' p h hr)) hnot
    | gap s' h =>
        obtain rfl : s' = s := hseq
        exact ⟨h, hr⟩
  · intro p h
    have hdup : b.isDuplicate b.expectedSeq = false := not_dup_iff.mpr ⟨le_rfl, hb.waiting⟩
    simp [insert, hdup]

/-- A buffer that never sees a packet and a loss notice of one number reports every
number once, in order and truthfully, holds no more than its capacity and never
refuses the packet it waits for. -/
theorem reorder_faithful :
    ((reorderMachine P H).restrict fun b c => ¬ b.Clash c).Invariant Faithful := by
  have hind : ((reorderMachine P H).restrict fun b c => ¬ b.Clash c).Inductive Settled := by
    constructor
    · rintro b ⟨capacity, rfl⟩
      refine ⟨?_, rfl, Nat.zero_le _⟩
      constructor <;> simp [SortedMap.empty]
    · rintro b c b' hb ⟨hrange, hclash⟩ hexec
      cases hexec
      exact settled_exec hb hrange hclash
  intro b hreach
  exact (hind.invariant b hreach).faithful

/-- Packet `2` is parked, and packet `0` brings the gap at `1` and the packet behind it on. -/
theorem reorder_faithful_gapRun :
    ∃ b, ((reorderMachine Nat Nat).restrict fun b c => ¬ b.Clash c).Reachable b ∧
      (b.reports, b.accepted, b.expectedSeq) =
        ([.delivered 0 70 80, .gap 1 91, .delivered 2 72 82], [(2, 72, 82), (0, 70, 80)], 3) ∧
      Faithful b := by
  have hinit : ((reorderMachine Nat Nat).restrict fun b c => ¬ b.Clash c).init
      { maxBufferSize := 4 } := ⟨4, rfl⟩
  have hrun : (((reorderMachine Nat Nat).restrict fun b c => ¬ b.Clash c).runs
      { maxBufferSize := 4 }
      [.insert 2 72 82, .deliver, .mark 1 91, .deliver, .insert 0 70 80, .deliver]).map
        (fun b => (b.reports, b.accepted, b.expectedSeq)) =
      some ([.delivered 0 70 80, .gap 1 91, .delivered 2 72 82], [(2, 72, 82), (0, 70, 80)], 3) := by
    decide
  obtain ⟨b, hreach, hb⟩ := Machine.Reachable.exists_of_runs hinit hrun
  exact ⟨b, hreach, hb, reorder_faithful b hreach⟩

/-- Packet `1` is parked when its loss notice comes; once packet `0` is through, the
gap is reported in place of the packet, which stays in the buffer for good. -/
theorem parkedPacket_reportedLost : ¬ (reorderMachine Nat Nat).Invariant Faithful := by
  intro hinv
  have hinit : (reorderMachine Nat Nat).init { maxBufferSize := 4 } := ⟨4, rfl⟩
  have hrun : ((reorderMachine Nat Nat).runs { maxBufferSize := 4 }
      [.insert 1 71 81, .deliver, .mark 1 91, .deliver, .insert 0 70 80, .deliver]).map
        (fun b => (b.reports, b.accepted, b.expectedSeq)) =
      some ([.delivered 0 70 80, .gap 1 91], [(1, 71, 81), (0, 70, 80)], 2) := by
    decide
  obtain ⟨b, hreach, hb⟩ := Machine.Reachable.exists_of_runs hinit hrun
  obtain ⟨hreports, hacc, hexp⟩ : b.reports = _ ∧ b.accepted = _ ∧ b.expectedSeq = _ := by
    simpa using hb
  have hlost := (hinv b hreach).delivered 1 71 81 (by simp [hacc]) (by simp [hexp])
  simp [hreports] at hlost

end ReorderBuffer

end ProtoBridge.Endpoint
