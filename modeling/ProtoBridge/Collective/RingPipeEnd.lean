import ProtoBridge.Collective.RingPipeRuns

/-!
# What a run of RingBroadcast or RingReduce comes to

The callback is called at the arrival of the last byte: at the last rank of a broadcast, at the root of
a reduce. Before that some byte is in flight.
-/

namespace ProtoBridge.Collective

open Lib Fabric

namespace RingPipeRun

variable {p : RingPipe} {c : RingPipeRun} {gpu : Nat}

/-- A settled run that has reported its completion once, behind all bytes, or has not and has bytes to
come. -/
structure Kept (p : RingPipe) (c : RingPipeRun) : Prop extends Settled p c where
  done : p.reduces = false → c.gpuDoneCount + 1 =
    ((Finset.range p.numGpus).filter fun gpu => p.dataSize ≤ readyAt p c.recvBytes gpu).card
  ended : c.completed = true ↔ ∀ gpu < p.numGpus, p.dataSize ≤ readyAt p c.recvBytes gpu
  once : c.log.count .completed = if c.completed then 1 else 0
  completes : CompletesBehindArrivals p c.log

theorem onPacketReceived_fragment {booked : RingPipeRun} (hp : p.Lawful) (hpipe : c.pipe = p)
    (hpending : c.completed = false)
    (hgpu : gpu < p.numGpus) (hmore : p.target gpu ≠ p.source) {bytes : UInt32} (hbytes : bytes ≠ 0)
    (hroom : c.recvBytes (p.target gpu) + bytes.toNat ≤ p.dataSize)
    (hbooked : booked = { c with
      recvBytes := Function.update c.recvBytes (p.target gpu)
        (c.recvBytes (p.target gpu) + bytes.toNat) }) (packetSize : UInt32) :
    c.onPacketReceived (fragmentHeader gpu (p.target gpu) bytes) packetSize =
      if p.reduces then
        if p.target gpu = p.rootRank then
          if booked.recvBytes (p.target gpu) ≥ p.dataSize then booked.complete else booked
        else booked.pumpForward (p.target gpu)
      else (booked.pumpForward (p.target gpu)).markReceived (p.target gpu) false := by
  have htarget := hp.cycle.lt gpu hgpu
  have hfew := hp.few
  have hpos : bytes.toNat ≠ 0 := fun hzero => hbytes (UInt32.toNat_inj.mp hzero)
  have hdest : (UInt16.ofNat (p.target gpu)).toNat = p.target gpu :=
    UInt16.toNat_ofNat_of_lt' (by simp [UInt16.size]; omega)
  have hadd : wadd 64 (c.recvBytes (p.target gpu)) bytes.toNat =
      c.recvBytes (p.target gpu) + bytes.toNat := wadd_eq (lt_of_le_of_lt hroom hp.size)
  have hbefore : decide (c.recvBytes (p.target gpu) ≥ p.dataSize) = false := by
    rw [decide_eq_false_iff_not]
    omega
  have hopen : ¬ (p.target gpu ≥ p.numGpus ∨ (p.reduces = false ∧ p.target gpu = p.rootRank) ∨
      c.completed = true) := by
    rintro (hle | ⟨hbroadcast, hroot⟩ | hover)
    · omega
    · apply hmore
      rw [RingPipe.source, hbroadcast, if_neg Bool.false_ne_true]
      exact hroot
    · rw [hpending] at hover
      cases hover
  subst hbooked
  unfold onPacketReceived
  rw [if_neg (by simp [fragmentHeader]),
    if_neg (show ¬ (fragmentHeader gpu (p.target gpu) bytes).effectiveDataSize = 0 from hbytes)]
  dsimp only [fragmentHeader]
  simp only [hpipe, hdest, hadd, hbefore]
  rw [if_neg hopen]

variable {recv fwd : Nat → Nat} {log : List RingPipeObs} {x : Nat}

theorem readyAt_update_ne {g : Nat} (hne : g ≠ gpu) :
    readyAt p (Function.update recv gpu x) g = readyAt p recv g := by
  rw [readyAt, readyAt, Function.update_of_ne hne]

theorem dataSize_le_readyAt (hne : gpu ≠ p.source) :
    p.dataSize ≤ readyAt p recv gpu ↔ p.dataSize ≤ recv gpu := by
  rw [readyAt, if_neg hne, le_min_iff]
  exact and_iff_left le_rfl

theorem Books.mark (h : Books p recv fwd log) : Books p recv fwd (log ++ [.completed]) := by
  have hsent : ∀ s d, edgeSent (log ++ [.completed]) s d = edgeSent log s d := by
    intro s d
    rw [edgeSent_append]
    rfl
  have hdelivered : ∀ s d, edgeDelivered (log ++ [.completed]) s d = edgeDelivered log s d := by
    intro s d
    rw [edgeDelivered_append]
    rfl
  refine ⟨fun s d => (hsent s d).trans (h.sent s d), ?_, ?_, h.cap⟩
  · intro g hg hmore
    rw [hdelivered]
    exact h.got g hg hmore
  · intro s d
    rw [hsent, hdelivered]
    exact h.flown s d

theorem Settled.complete (h : Settled p c) (hp : p.Lawful)
    (hall : ∀ gpu < p.numGpus, p.dataSize ≤ readyAt p c.recvBytes gpu)
    (hdone : p.reduces = false → c.gpuDoneCount + 1 =
      ((Finset.range p.numGpus).filter fun gpu => p.dataSize ≤ readyAt p c.recvBytes gpu).card)
    (honce : c.log.count .completed = 0) (hcompletes : CompletesBehindArrivals p c.log) :
    Kept p c.complete := by
  refine ⟨⟨h.pipe, h.source, h.scheduled, h.books.mark, h.released⟩, hdone, iff_of_true rfl hall,
    ?_, ?_⟩
  · show (c.log ++ [RingPipeObs.completed]).count RingPipeObs.completed = 1
    rw [List.count_append, honce]
    rfl
  · exact hcompletes.snoc fun _ => h.books.allDelivered hp hall

theorem Settled.pending (h : Settled p c)
    (hnot : ¬ ∀ gpu < p.numGpus, p.dataSize ≤ readyAt p c.recvBytes gpu)
    (hdone : p.reduces = false → c.gpuDoneCount + 1 =
      ((Finset.range p.numGpus).filter fun gpu => p.dataSize ≤ readyAt p c.recvBytes gpu).card)
    (hpending : c.completed = false) (honce : c.log.count .completed = 0)
    (hcompletes : CompletesBehindArrivals p c.log) : Kept p c := by
  refine ⟨h, hdone, iff_of_false (by simp [hpending]) hnot, ?_, hcompletes⟩
  rw [hpending]
  exact honce

theorem Settled.atRoot (h : Settled p c) (hp : p.Lawful) (hred : p.reduces = true)
    (hgpu : gpu < p.numGpus) (hne : gpu ≠ p.source) (hend : p.target gpu = p.source)
    (hpending : c.completed = false) (honce : c.log.count .completed = 0)
    (hcompletes : CompletesBehindArrivals p c.log) :
    Kept p (if c.recvBytes gpu ≥ p.dataSize then c.complete else c) := by
  have hdone : p.reduces = false → c.gpuDoneCount + 1 =
      ((Finset.range p.numGpus).filter fun gpu => p.dataSize ≤ readyAt p c.recvBytes gpu).card := by
    intro hbroadcast
    rw [hred] at hbroadcast
    cases hbroadcast
  split
  · rename_i hfull
    refine h.complete hp (h.books.all_ready hp ?_) hdone honce hcompletes
    intro g hg hgend
    rw [hp.cycle.injective _ hg _ hgpu (hgend.trans hend.symm)]
    exact (dataSize_le_readyAt hne).mpr hfull
  · rename_i hpart
    refine h.pending ?_ hdone hpending honce hcompletes
    intro hall
    exact hpart ((dataSize_le_readyAt hne).mp (hall gpu hgpu))

theorem Settled.markReceived (h : Settled p c) (hp : p.Lawful) (hgpu : gpu < p.numGpus)
    (hne : gpu ≠ p.source) (hbefore : ¬ p.dataSize ≤ readyAt p recv gpu)
    (hothers : ∀ g, g ≠ gpu → readyAt p c.recvBytes g = readyAt p recv g)
    (hdone : c.gpuDoneCount + 1 =
      ((Finset.range p.numGpus).filter fun gpu => p.dataSize ≤ readyAt p recv gpu).card)
    (hpending : c.completed = false) (honce : c.log.count .completed = 0)
    (hcompletes : CompletesBehindArrivals p c.log) : Kept p (c.markReceived gpu false) := by
  have hsame : ∀ g, g ≠ gpu →
      (p.dataSize ≤ readyAt p c.recvBytes g ↔ p.dataSize ≤ readyAt p recv g) := by
    intro g hg
    rw [hothers g hg]
  obtain rfl := h.pipe
  unfold RingPipeRun.markReceived
  split
  · rename_i hfull
    have hcount := (card_filter_insert hgpu hbefore
      ((dataSize_le_readyAt hne).mpr hfull.2) hsame).symm
    rw [← hdone] at hcount
    have hcounted : Settled c.pipe { c with gpuDoneCount := c.gpuDoneCount + 1 } :=
      ⟨h.pipe, h.source, h.scheduled, h.books, h.released⟩
    have htwo := hp.two
    dsimp only
    split
    · rename_i hlast
      have henough : c.pipe.numGpus ≤ c.gpuDoneCount + 1 + 1 := by omega
      rw [hcount] at henough
      exact hcounted.complete hp (forall_of_card henough) (fun _ => hcount) honce hcompletes
    · rename_i hfew
      refine hcounted.pending ?_ (fun _ => hcount) hpending honce hcompletes
      intro hall
      rw [Finset.filter_true_of_mem fun g hg => hall g (Finset.mem_range.mp hg),
        Finset.card_range] at hcount
      omega
  · rename_i hpart
    have hnot : ¬ c.pipe.dataSize ≤ readyAt c.pipe c.recvBytes gpu :=
      fun hready => hpart ⟨rfl, (dataSize_le_readyAt hne).mp hready⟩
    refine h.pending (fun hall => hnot (hall gpu hgpu)) (fun _ => ?_) hpending honce hcompletes
    exact hdone.trans (card_filter_same (a := gpu) hbefore hnot hsame).symm

theorem Kept.deliver (h : Kept p c) (hp : p.Lawful) {src dst : Nat} {bytes : UInt32}
    (hbytes : bytes ≠ 0)
    (hfits : edgeDelivered c.log src dst + bytes.toNat ≤ edgeSent c.log src dst) (packetSize : UInt32) :
    Kept p (onPacketReceived { c with log := c.log ++ [.delivered src dst bytes.toNat] }
      (fragmentHeader src dst bytes) packetSize) := by
  have hpos : bytes.toNat ≠ 0 := fun hzero => hbytes (UInt32.toNat_inj.mp hzero)
  -- the edge is one of the chain
  obtain ⟨hsrc, rfl, hmore⟩ : src < p.numGpus ∧ dst = p.target src ∧ dst ≠ p.source := by
    by_contra hother
    have hnone := h.books.sent src dst
    rw [if_neg hother] at hnone
    omega
  have hdst := hp.cycle.lt src hsrc
  have hgot := h.books.got src hsrc hmore
  have hsent := h.books.edgeSent_target hsrc hmore
  have hcap := (h.books.cap src hsrc).trans (readyAt_le p _ _)
  have hroom : c.recvBytes (p.target src) + bytes.toNat ≤ p.dataSize := by omega
  have hbehind : ¬ p.dataSize ≤ readyAt p c.recvBytes (p.target src) := by
    rw [dataSize_le_readyAt hmore]
    omega
  have hpending : c.completed = false := by
    by_contra hover
    exact hbehind (h.ended.mp (by simpa using hover) _ hdst)
  generalize hbooked : ({ c with
    recvBytes := Function.update c.recvBytes (p.target src) (c.recvBytes (p.target src) + bytes.toNat)
    log := c.log ++ [.delivered src (p.target src) bytes.toNat] } : RingPipeRun) = d
  rw [onPacketReceived_fragment
    (c := { c with log := c.log ++ [.delivered src (p.target src) bytes.toNat] })
    hp h.pipe hpending hsrc hmore hbytes hroom hbooked.symm]
  have hreadyAt : ∀ g, g ≠ p.target src → readyAt p d.recvBytes g = readyAt p c.recvBytes g := by
    intro g hne
    rw [← hbooked]
    exact readyAt_update_ne hne
  have hbooks : Books p d.recvBytes d.fwdBytes d.log := by
    rw [← hbooked]
    exact h.books.deliver hp hsrc hmore hfits
  have hdpending : d.completed = false := by rw [← hbooked]; exact hpending
  have honce : d.log.count .completed = 0 := by
    rw [← hbooked]
    show (c.log ++ [RingPipeObs.delivered _ _ _]).count RingPipeObs.completed = 0
    rw [List.count_append, h.once, hpending]
    rfl
  have hcompletes : CompletesBehindArrivals p d.log := by
    rw [← hbooked]
    exact h.completes.snoc fun heq => nomatch heq
  have hothers : ∀ g < p.numGpus, g ≠ p.target src → Released p d.recvBytes d.fwdBytes g := by
    intro g hg hne hmore' hready
    rw [hreadyAt g hne] at hready
    rw [← hbooked]
    exact h.released g hg hmore' hready
  have hpipe : d.pipe = p := by rw [← hbooked]; exact h.pipe
  have hsource : d.source = p.source := by rw [← hbooked]; exact h.source
  have hscheduled : d.scheduled = false := by rw [← hbooked]; exact h.scheduled
  have hcounted : d.gpuDoneCount = c.gpuDoneCount := by rw [← hbooked]
  obtain ⟨hsettled, hframe⟩ :=
    settled_pumpForward hp hpipe hsource hscheduled hbooks hdst hothers
  obtain ⟨chunks, hlog⟩ := hframe.log
  have honce' : (d.pumpForward (p.target src)).log.count .completed = 0 := by
    rw [hlog, List.count_append, honce, count_completed_sends]
  have hcompletes' : CompletesBehindArrivals p (d.pumpForward (p.target src)).log := by
    rw [hlog]
    refine hcompletes.append _ ?_
    rintro e hmem pre rfl
    exact absurd hmem (List.count_eq_zero.mp (count_completed_sends _ _ _))
  cases hred : p.reduces with
  | true =>
      have hends : p.target src = p.rootRank ↔ p.target (p.target src) = p.source := by
        rw [← hp.ends _ hdst, RingPipe.Ends, if_pos hred]
      rw [if_pos rfl]
      split
      · rename_i hroot
        have hend := hends.mp hroot
        rw [pumpForward_end hp hpipe hdst hend] at hsettled
        exact hsettled.atRoot hp hred hdst hmore hend hdpending honce hcompletes
      · rename_i hinner
        refine hsettled.pending ?_ (fun heq => by rw [hred] at heq; cases heq)
          (hframe.completed.trans hdpending) honce' hcompletes'
        intro hall
        rw [hframe.recvBytes] at hall
        -- then the end of the chain had all data before
        have hold : c.completed = true := by
          refine h.ended.mpr (h.books.all_ready hp ?_)
          intro gpu hgpu hend
          have hne : gpu ≠ p.target src := by
            rintro rfl
            exact hinner (hends.mpr hend)
          rw [← hreadyAt gpu hne]
          exact hall gpu hgpu
        rw [hpending] at hold
        cases hold
  | false =>
      rw [if_neg Bool.false_ne_true]
      refine hsettled.markReceived hp hdst hmore hbehind ?_ ?_ (hframe.completed.trans hdpending)
        honce' hcompletes'
      · intro g hne
        rw [hframe.recvBytes]
        exact hreadyAt g hne
      · rw [hframe.gpuDoneCount, hcounted]
        exact h.done hred

/-! ## Runs -/

theorem books_nil (p : RingPipe) : Books p (fun _ => 0) (fun _ => 0) [] := by
  refine ⟨fun s d => (ite_self 0).symm, fun _ _ _ => rfl, fun _ _ => le_rfl, ?_⟩
  intro g _
  exact Nat.zero_le _

theorem not_ready_nil (hp : p.Lawful) (hne : gpu ≠ p.source) :
    ¬ p.dataSize ≤ readyAt p (fun _ => 0) gpu := by
  rw [dataSize_le_readyAt hne]
  exact Nat.not_le.mpr hp.data

theorem not_all_ready_nil (hp : p.Lawful) :
    ¬ ∀ gpu < p.numGpus, p.dataSize ≤ readyAt p (fun _ => 0) gpu := fun hall =>
  not_ready_nil hp hp.target_source (hall _ (hp.cycle.lt _ hp.source_lt))

theorem kept_pumpForward (hp : p.Lawful) {head : Nat}
    (hsource : RingPipeRun.source { pipe := p, headRank := head } = p.source) :
    Kept p (pumpForward { pipe := p, headRank := head } p.source) := by
  have hothers : ∀ g < p.numGpus, g ≠ p.source → Released p (fun _ => 0) (fun _ => 0) g :=
    fun g _ hne _ hready => absurd hready (not_ready_nil hp hne)
  obtain ⟨hsettled, hframe⟩ := settled_pumpForward (c := { pipe := p, headRank := head }) hp rfl hsource
    rfl (books_nil p) hp.source_lt hothers
  obtain ⟨chunks, hlog⟩ := hframe.log
  replace hlog : (pumpForward { pipe := p, headRank := head } p.source).log =
    sends p.source (p.target p.source) chunks := hlog
  refine hsettled.pending ?_ (fun _ => ?_) hframe.completed ?_ ?_
  · rw [hframe.recvBytes]
    exact not_all_ready_nil hp
  · have honly : ((Finset.range p.numGpus).filter fun gpu =>
        p.dataSize ≤ readyAt p (fun _ => 0) gpu) = {p.source} := by
      ext g
      rw [Finset.mem_filter, Finset.mem_range, Finset.mem_singleton]
      constructor
      · rintro ⟨-, hready⟩
        by_contra hne
        exact not_ready_nil hp hne hready
      · rintro rfl
        exact ⟨hp.source_lt, (readyAt_source p _).ge⟩
    rw [hframe.gpuDoneCount, hframe.recvBytes, honly, Finset.card_singleton]
  · rw [hlog]
    exact count_completed_sends _ _ _
  · rw [hlog, ← List.nil_append (sends _ _ _)]
    refine Justified.nil.append _ ?_
    rintro e hmem pre rfl
    exact absurd hmem (List.count_eq_zero.mp (count_completed_sends _ _ _))

theorem kept_triggerInitialSends (hp : p.Lawful) : Kept p (triggerInitialSends { pipe := p }) := by
  have htwo := hp.two
  unfold triggerInitialSends
  rw [if_neg (by dsimp only; omega)]
  cases hred : p.reduces with
  | true =>
      have hsource : p.source = p.ringPrevOf p.rootRank := by rw [RingPipe.source, hred, if_pos rfl]
      rw [if_pos rfl]
      dsimp only
      rw [← hsource]
      refine kept_pumpForward hp ?_
      rw [RingPipeRun.source, hred, if_pos rfl]
  | false =>
      have hsource : p.source = p.rootRank := by
        rw [RingPipe.source, hred, if_neg Bool.false_ne_true]
      rw [if_neg Bool.false_ne_true]
      dsimp only
      rw [← hsource]
      refine kept_pumpForward hp ?_
      rw [RingPipeRun.source, hred, if_neg Bool.false_ne_true, hsource]

theorem onPacketReceived_other {q : Header} (hdata : q.packetType ≠ .data) (packetSize : UInt32) :
    c.onPacketReceived q packetSize = c := by
  unfold onPacketReceived
  rw [if_pos hdata]

/-- What a run is at: the start of the flow is scheduled, or the flow goes on. -/
def Stage (p : RingPipe) (c : RingPipeRun) : Prop :=
  c = { pipe := p, scheduled := true } ∨ Kept p c

theorem Stage.exec (h : Stage p c) (hp : p.Lawful) {a : Act} (hen : c.enabled a)
    {c' : RingPipeRun} (hex : c.exec a = .ok c') : Stage p c' := by
  rcases h with rfl | h
  · cases a with
    | trigger =>
        cases hex
        exact .inr (kept_triggerInitialSends hp)
    | deliver src dst bytes packetSize =>
        obtain ⟨hbytes, hfits⟩ := hen
        have hzero : bytes.toNat = 0 := Nat.le_zero.mp ((Nat.le_add_left _ _).trans hfits)
        exact absurd (UInt32.toNat_inj.mp hzero) hbytes
    | receive q packetSize =>
        cases hex
        rw [onPacketReceived_other hen]
        exact .inl rfl
  · right
    cases a with
    | trigger =>
        have hscheduled : c.scheduled = true := hen
        rw [h.scheduled] at hscheduled
        cases hscheduled
    | deliver src dst bytes packetSize =>
        cases hex
        exact h.deliver hp hen.1 hen.2 packetSize
    | receive q packetSize =>
        cases hex
        rw [onPacketReceived_other hen]
        exact h

theorem stage_invariant {reduces : Bool} {numGpus rootRank : UInt16} {dataSize : UInt64}
    {next prev : Nat → Nat}
    (h : RingPipe.initialized reduces numGpus dataSize rootRank next prev = .ok p) (hp : p.Lawful) :
    (ringPipeMachine reduces numGpus dataSize rootRank next prev).Invariant (Stage p) := by
  refine Machine.Inductive.invariant ⟨?_, ?_⟩
  · rintro c ⟨p', h', rfl⟩
    cases h.symm.trans h'
    left
    unfold start
    rw [if_neg hp.data.ne']
  · intro c a c' hc hen hex
    exact hc.exec hp hen hex

/-- The acts of the network and of the clock. -/
def Act.Moves : Act → Prop
  | .receive _ _ => False
  | _ => True

end RingPipeRun

/-! ## Guarantees -/

/-- The ranks are a chain of `numGpus - 1` edges from the source, and bytes go along it only. No rank
has sent on more than it has got. The callback is called once: when the last rank of a broadcast, or
the root of a reduce, has got all data, and then all data have gone over each edge. Nothing keeps a run
from it. -/
structure RingPipeDrains (p : RingPipe) (c : RingPipeRun) : Prop where
  edges : ((Finset.range p.numGpus).filter fun gpu => p.target gpu ≠ p.source).card = p.numGpus - 1
  chain : ∀ gpu < p.numGpus, gpu ≠ p.source → ∃! before, before < p.numGpus ∧ p.target before = gpu
  confined : ∀ src dst, ¬ (src < p.numGpus ∧ dst = p.target src ∧ dst ≠ p.source) →
    RingPipeRun.edgeSent c.log src dst = 0 ∧ RingPipeRun.edgeDelivered c.log src dst = 0
  counted : ∀ gpu < p.numGpus, p.target gpu ≠ p.source →
    c.fwdBytes gpu = RingPipeRun.edgeSent c.log gpu (p.target gpu) ∧
      c.recvBytes (p.target gpu) = RingPipeRun.edgeDelivered c.log gpu (p.target gpu)
  forwards : ∀ gpu < p.numGpus,
    c.fwdBytes gpu ≤ if gpu = p.source then p.dataSize else c.recvBytes gpu
  ended : c.completed = true ↔
    if p.reduces then c.recvBytes p.rootRank = p.dataSize
    else ∀ gpu < p.numGpus, gpu ≠ p.rootRank → c.recvBytes gpu = p.dataSize
  total : c.completed = true → ∀ gpu < p.numGpus, p.target gpu ≠ p.source →
    RingPipeRun.edgeSent c.log gpu (p.target gpu) = p.dataSize ∧
      RingPipeRun.edgeDelivered c.log gpu (p.target gpu) = p.dataSize
  completes : RingPipeRun.CompletesBehindArrivals p c.log
  once : c.log.count .completed = if c.completed then 1 else 0
  quiet : c.Quiet → c.completed = true
  goesOn : ¬ c.Quiet → ∃ a : RingPipeRun.Act, a.Moves ∧ c.enabled a

namespace RingPipe.Lawful

variable {p : RingPipe} {gpu : Nat}

theorem card_edges (h : p.Lawful) :
    ((Finset.range p.numGpus).filter fun gpu => p.target gpu ≠ p.source).card = p.numGpus - 1 := by
  obtain ⟨last, hlast, heq⟩ := h.exists_before h.source_lt
  have herase : ((Finset.range p.numGpus).filter fun gpu => p.target gpu ≠ p.source) =
      (Finset.range p.numGpus).erase last := by
    ext gpu
    rw [Finset.mem_filter, Finset.mem_erase, Finset.mem_range, and_comm]
    refine and_congr_left fun hgpu => not_congr ?_
    constructor
    · exact fun hend => h.cycle.injective _ hgpu _ hlast (hend.trans heq.symm)
    · rintro rfl
      exact heq
  rw [herase, Finset.card_erase_of_mem (Finset.mem_range.mpr hlast), Finset.card_range]

theorem existsUnique_before (h : p.Lawful) (hgpu : gpu < p.numGpus) :
    ∃! before, before < p.numGpus ∧ p.target before = gpu := by
  obtain ⟨before, hbefore, rfl⟩ := h.exists_before hgpu
  refine ⟨before, ⟨hbefore, rfl⟩, ?_⟩
  rintro other ⟨hother, heq⟩
  exact h.cycle.injective _ hother _ hbefore heq

end RingPipe.Lawful

namespace RingPipeRun

variable {p : RingPipe} {c : RingPipeRun} {recv fwd : Nat → Nat} {log : List RingPipeObs}

theorem Books.ready_iff (h : Books p recv fwd log) (hp : p.Lawful) (hroot : p.rootRank < p.numGpus) :
    (∀ gpu < p.numGpus, p.dataSize ≤ readyAt p recv gpu) ↔
      if p.reduces then recv p.rootRank = p.dataSize
      else ∀ gpu < p.numGpus, gpu ≠ p.rootRank → recv gpu = p.dataSize := by
  have hexact : ∀ gpu < p.numGpus, gpu ≠ p.source →
      (p.dataSize ≤ readyAt p recv gpu ↔ recv gpu = p.dataSize) := by
    intro gpu hgpu hne
    obtain ⟨before, hbefore, rfl⟩ := hp.exists_before hgpu
    have hle := h.recv_le_dataSize hbefore hne
    rw [dataSize_le_readyAt hne]
    exact ⟨fun hge => le_antisymm hle hge, fun heq => heq.ge⟩
  cases hred : p.reduces with
  | true =>
      have hend : p.target p.rootRank = p.source := by
        rw [← hp.ends _ hroot, RingPipe.Ends, if_pos hred]
      have hne : p.rootRank ≠ p.source := by
        intro heq
        rw [heq] at hend
        exact hp.target_source hend
      rw [if_pos rfl, ← hexact _ hroot hne]
      refine ⟨fun hall => hall _ hroot, fun hready => h.all_ready hp ?_⟩
      intro gpu hgpu hgend
      rwa [hp.cycle.injective _ hgpu _ hroot (hgend.trans hend.symm)]
  | false =>
      have hsource : p.source = p.rootRank := by
        rw [RingPipe.source, hred, if_neg Bool.false_ne_true]
      rw [if_neg Bool.false_ne_true, ← hsource]
      constructor
      · exact fun hall gpu hgpu hne => (hexact gpu hgpu hne).mp (hall gpu hgpu)
      · intro hall gpu hgpu
        by_cases heq : gpu = p.source
        · rw [heq]
          exact (readyAt_source p recv).ge
        · exact (hexact gpu hgpu heq).mpr (hall gpu hgpu heq)

theorem drains_of_books (hp : p.Lawful) (hroot : p.rootRank < p.numGpus)
    (h : Books p c.recvBytes c.fwdBytes c.log)
    (hended : c.completed = true ↔ ∀ gpu < p.numGpus, p.dataSize ≤ readyAt p c.recvBytes gpu)
    (honce : c.log.count .completed = if c.completed then 1 else 0)
    (hcompletes : CompletesBehindArrivals p c.log) (hquiet : c.Quiet → c.completed = true)
    (hgoesOn : ¬ c.Quiet → ∃ a : Act, a.Moves ∧ c.enabled a) : RingPipeDrains p c := by
  refine
    { edges := hp.card_edges
      chain := fun gpu hgpu _ => hp.existsUnique_before hgpu
      confined := ?_
      counted := fun gpu hgpu hmore => ⟨(h.edgeSent_target hgpu hmore).symm, h.got gpu hgpu hmore⟩
      forwards := ?_
      ended := hended.trans (h.ready_iff hp hroot)
      total := ?_
      completes := hcompletes
      once := honce
      quiet := hquiet
      goesOn := hgoesOn }
  · intro src dst hother
    have hnone := h.sent src dst
    rw [if_neg hother] at hnone
    exact ⟨hnone, Nat.le_zero.mp (hnone ▸ h.flown src dst)⟩
  · intro gpu hgpu
    refine (h.cap gpu hgpu).trans ?_
    unfold readyAt
    split
    · exact le_rfl
    · exact min_le_left _ _
  · intro hover gpu hgpu hmore
    have hcame := h.allDelivered hp (hended.mp hover) gpu hgpu hmore
    refine ⟨le_antisymm ?_ (hcame ▸ h.flown _ _), hcame⟩
    rw [h.edgeSent_target hgpu hmore]
    exact (h.cap gpu hgpu).trans (readyAt_le _ _ _)

theorem Kept.drains (h : Kept p c) (hp : p.Lawful) (hroot : p.rootRank < p.numGpus) :
    RingPipeDrains p c := by
  refine drains_of_books hp hroot h.books h.ended h.once h.completes ?_ ?_
  · intro hquiet
    exact h.ended.mpr (h.books.ready_of_quiet hp h.released hquiet.2)
  · intro hbusy
    have hflight : ∃ src dst, edgeDelivered c.log src dst ≠ edgeSent c.log src dst := by
      by_contra hnone
      push Not at hnone
      exact hbusy ⟨h.scheduled, hnone⟩
    obtain ⟨src, dst, hne⟩ := hflight
    have hle := h.books.flown src dst
    refine ⟨.deliver src dst 1 0, trivial, by decide, ?_⟩
    show edgeDelivered c.log src dst + 1 ≤ _
    omega

theorem Stage.drains (h : Stage p c) (hp : p.Lawful) (hroot : p.rootRank < p.numGpus) :
    RingPipeDrains p c := by
  rcases h with rfl | h
  · refine drains_of_books hp hroot (books_nil p) ?_ rfl Justified.nil ?_ ?_
    · exact iff_of_false Bool.false_ne_true (not_all_ready_nil hp)
    · exact fun hquiet => absurd hquiet.1.symm Bool.false_ne_true
    · exact fun _ => ⟨.trigger, trivial, rfl⟩
  · exact h.drains hp hroot

end RingPipeRun

/-- In every run of the RingBroadcast or the RingReduce. -/
theorem ringPipe_drains (reduces : Bool) (numGpus : UInt16) (dataSize : UInt64) (rootRank : UInt16)
    (next prev : Nat → Nat) (htwo : 2 ≤ numGpus.toNat) (hroot : rootRank.toNat < numGpus.toNat)
    (hdata : 1 ≤ dataSize.toNat) (hembedding : RingEmbedding numGpus.toNat next prev) :
    ∃ p, RingPipe.initialized reduces numGpus dataSize rootRank next prev = .ok p ∧
      p.reduces = reduces ∧ p.numGpus = numGpus.toNat ∧ p.dataSize = dataSize.toNat ∧
      p.rootRank = rootRank.toNat ∧
      ∀ c, (ringPipeMachine reduces numGpus dataSize rootRank next prev).Reachable c →
        RingPipeDrains p c := by
  obtain ⟨p, hinit⟩ :
      ∃ p, RingPipe.initialized reduces numGpus dataSize rootRank next prev = .ok p := by
    unfold RingPipe.initialized
    dsimp only
    rw [if_neg]
    · exact ⟨_, rfl⟩
    · rintro rfl
      exact absurd htwo (by decide)
  have hp := RingPipe.lawful_of_initialized hinit htwo hroot hdata hembedding
  have hfields : p.reduces = reduces ∧ p.numGpus = numGpus.toNat ∧ p.dataSize = dataSize.toNat ∧
      p.rootRank = rootRank.toNat := by
    unfold RingPipe.initialized at hinit
    dsimp only at hinit
    split at hinit
    · cases hinit
    · cases hinit
      exact ⟨rfl, rfl, rfl, rfl⟩
  obtain ⟨hred, hn, hd, hr⟩ := hfields
  refine ⟨p, hinit, hred, hn, hd, hr, ?_⟩
  intro c hc
  exact (RingPipeRun.stage_invariant hinit hp c hc).drains hp (by omega)

/-- Three ranks that reduce to a root in the middle, on a ring that is not in the order of the ranks. -/
theorem ringPipe_drains_crossed :
    ∃ p, RingPipe.initialized true 3 200000 1 crossedNext crossedPrev = .ok p ∧
      p.reduces = true ∧ p.numGpus = 3 ∧ p.dataSize = 200000 ∧ p.rootRank = 1 ∧
      ∀ c, (ringPipeMachine true 3 200000 1 crossedNext crossedPrev).Reachable c →
        RingPipeDrains p c :=
  ringPipe_drains true 3 200000 1 crossedNext crossedPrev (by decide) (by decide) (by decide)
    ringEmbedding_crossed

end ProtoBridge.Collective
