import ProtoBridge.Collective.RingPipe
import ProtoBridge.Lib.Count

/-!
# Runs of RingBroadcast and RingReduce

The chain is the ring, cut at its source. What a rank has got is what the rank before it has sent and
the network has delivered; what it has sent is no more than that. When all data have come to a rank it
holds nothing back, so along the chain all of them come to all ranks.
-/

namespace ProtoBridge.Collective

open Lib Fabric
open Function (update update_eq_self update_idem update_of_ne update_self)

namespace RingPipe

variable {p : RingPipe} {gpu i k : Nat}

/-- The rank at the start of the chain. -/
def source (p : RingPipe) : Nat := if p.reduces then p.ringPrevOf p.rootRank else p.rootRank

/-- The chain is a ring that is cut at its source. -/
structure Lawful (p : RingPipe) : Prop where
  cycle : OneCycle p.numGpus p.target
  source_lt : p.source < p.numGpus
  ends : ∀ gpu < p.numGpus, p.Ends gpu ↔ p.target gpu = p.source
  two : 2 ≤ p.numGpus
  few : p.numGpus ≤ 65535
  chunk : 0 < p.pipeChunkSize
  data : 0 < p.dataSize
  size : p.dataSize < 2 ^ 64

theorem ne_noNeighbor (hfew : p.numGpus ≤ 65535) (hgpu : gpu < p.numGpus) :
    gpu ≠ RingLayout.noNeighbor := by
  rintro rfl
  exact absurd hgpu (Nat.not_lt.mpr hfew)

theorem oneCycle_ringNextOf (hfew : p.numGpus ≤ 65535) (hpos : 0 < p.numGpus)
    (hembedding : RingEmbedding p.numGpus p.ringNext p.ringPrev) :
    OneCycle p.numGpus p.ringNextOf := by
  rcases hembedding with ⟨hcycle, -⟩ | hnone
  · refine hcycle.congr ?_
    intro gpu hgpu
    exact if_pos (ne_noNeighbor hfew (hcycle.lt gpu hgpu))
  · refine (oneCycle_succ hpos).congr ?_
    intro gpu hgpu
    exact if_neg (not_not.mpr (hnone gpu hgpu).1)

theorem ringPrevOf_ringNextOf (hfew : p.numGpus ≤ 65535)
    (hembedding : RingEmbedding p.numGpus p.ringNext p.ringPrev) (hgpu : gpu < p.numGpus) :
    p.ringPrevOf (p.ringNextOf gpu) = gpu := by
  unfold ringNextOf ringPrevOf
  rcases hembedding with ⟨hcycle, hprev⟩ | hnone
  · rw [if_pos (ne_noNeighbor hfew (hcycle.lt gpu hgpu)), hprev gpu hgpu,
      if_pos (ne_noNeighbor hfew hgpu)]
  · have hlt : (gpu + 1) % p.numGpus < p.numGpus := Nat.mod_lt _ (by omega)
    rw [if_neg (not_not.mpr (hnone gpu hgpu).1), if_neg (not_not.mpr (hnone _ hlt).2)]
    by_cases hlast : gpu + 1 = p.numGpus
    · rw [hlast, Nat.mod_self, Nat.zero_add, Nat.mod_eq_of_lt (by omega)]
      omega
    · have hup : (gpu + 1) % p.numGpus + p.numGpus - 1 = gpu + p.numGpus := by
        rw [Nat.mod_eq_of_lt (by omega)]
        omega
      rw [hup, Nat.add_mod_right, Nat.mod_eq_of_lt hgpu]

theorem lawful_of_initialized {reduces : Bool} {numGpus : UInt16} {dataSize : UInt64}
    {rootRank : UInt16} {next prev : Nat → Nat}
    (h : initialized reduces numGpus dataSize rootRank next prev = .ok p) (htwo : 2 ≤ numGpus.toNat)
    (hroot : rootRank.toNat < numGpus.toNat) (hdata : 1 ≤ dataSize.toNat)
    (hembedding : RingEmbedding numGpus.toNat next prev) : p.Lawful := by
  unfold initialized at h
  dsimp only at h
  split at h
  · cases h
  · cases h
    have hfew : numGpus.toNat ≤ 65535 := Nat.le_of_lt_succ numGpus.toNat_lt
    generalize hp : (RingPipe.mk reduces numGpus.toNat dataSize.toNat _ rootRank.toNat next prev) = p
    have hn : p.numGpus = numGpus.toNat := by rw [← hp]
    have hr : p.rootRank = rootRank.toNat := by rw [← hp]
    have hring : RingEmbedding p.numGpus p.ringNext p.ringPrev := by rw [← hp]; exact hembedding
    rw [← hn] at hfew htwo hroot
    rw [← hr] at hroot
    have hnext := oneCycle_ringNextOf hfew (by omega) hring
    have hprev := hnext.inverse fun gpu hgpu => ringPrevOf_ringNextOf hfew hring hgpu
    have hchunk : 0 < p.pipeChunkSize := by
      rw [← hp]
      exact lt_of_lt_of_le (by decide) (le_max_left _ _)
    have hd : p.dataSize = dataSize.toNat := by rw [← hp]
    refine ⟨?_, ?_, ?_, htwo, hfew, hchunk, hd ▸ hdata, hd ▸ dataSize.toNat_lt⟩
    · cases hred : p.reduces with
      | true => exact hprev.congr fun gpu _ => by rw [target, hred, if_pos rfl]
      | false => exact hnext.congr fun gpu _ => by rw [target, hred, if_neg Bool.false_ne_true]
    · unfold source
      split
      · exact hprev.lt _ hroot
      · exact hroot
    · intro gpu hgpu
      unfold Ends source target
      split
      · exact ⟨fun heq => by rw [heq], fun heq => hprev.injective _ hgpu _ hroot heq⟩
      · exact Iff.rfl

namespace Lawful

theorem exists_place (h : p.Lawful) (hgpu : gpu < p.numGpus) :
    ∃ i < p.numGpus, p.target^[i] p.source = gpu :=
  h.cycle.exists_iterate h.source_lt gpu hgpu

theorem place_lt (h : p.Lawful) (i : Nat) : p.target^[i] p.source < p.numGpus :=
  h.cycle.iterate_lt h.source_lt i

theorem exists_before (h : p.Lawful) (hgpu : gpu < p.numGpus) :
    ∃ src < p.numGpus, p.target src = gpu :=
  exists_of_injective h.cycle.lt h.cycle.injective gpu hgpu

theorem target_source (h : p.Lawful) : p.target p.source ≠ p.source := by
  intro heq
  have htwo := h.two
  have := (h.cycle.next_eq_iff h.source_lt (i := 0) (by omega)).mp heq
  omega

theorem along (h : p.Lawful) {P : Nat → Prop} (hsource : P p.source)
    (hstep : ∀ gpu < p.numGpus, p.target gpu ≠ p.source → P gpu → P (p.target gpu)) :
    ∀ gpu < p.numGpus, P gpu := by
  have hplace : ∀ i < p.numGpus, P (p.target^[i] p.source) := by
    intro i
    induction i with
    | zero => exact fun _ => hsource
    | succ i ih =>
        intro hi
        rw [Function.iterate_succ_apply']
        refine hstep _ (h.place_lt i) ?_ (ih (by omega))
        intro hend
        have := (h.cycle.next_eq_iff h.source_lt (by omega)).mp hend
        omega
  intro gpu hgpu
  obtain ⟨i, hi, rfl⟩ := h.exists_place hgpu
  exact hplace i hi

theorem back (h : p.Lawful) {P : Nat → Prop}
    (hend : ∀ gpu < p.numGpus, p.target gpu = p.source → P gpu)
    (hstep : ∀ gpu < p.numGpus, p.target gpu ≠ p.source → P (p.target gpu) → P gpu) :
    ∀ gpu < p.numGpus, P gpu := by
  have hplace : ∀ k < p.numGpus, P (p.target^[p.numGpus - 1 - k] p.source) := by
    intro k
    induction k with
    | zero =>
        intro hpos
        refine hend _ (h.place_lt _) ?_
        exact (h.cycle.next_eq_iff h.source_lt (by omega)).mpr (by omega)
    | succ k ih =>
        intro hk
        refine hstep _ (h.place_lt _) ?_ ?_
        · intro heq
          have := (h.cycle.next_eq_iff h.source_lt (by omega)).mp heq
          omega
        · rw [← Function.iterate_succ_apply' p.target]
          have hsucc : (p.numGpus - 1 - (k + 1)).succ = p.numGpus - 1 - k := by omega
          rw [hsucc]
          exact ih (by omega)
  intro gpu hgpu
  obtain ⟨i, hi, rfl⟩ := h.exists_place hgpu
  have hi' : p.numGpus - 1 - (p.numGpus - 1 - i) = i := by omega
  have := hplace (p.numGpus - 1 - i) (by omega)
  rwa [hi'] at this

end Lawful

end RingPipe

namespace RingPipeRun

/-! ## Observations of a log -/

variable {p : RingPipe} {c : RingPipeRun} {log : List RingPipeObs} {gpu src dst bytes : Nat}

theorem edgeSent_append (log log' : List RingPipeObs) (src dst : Nat) :
    edgeSent (log ++ log') src dst = edgeSent log src dst + edgeSent log' src dst := by
  rw [edgeSent, List.map_append, List.sum_append]
  rfl

theorem edgeDelivered_append (log log' : List RingPipeObs) (src dst : Nat) :
    edgeDelivered (log ++ log') src dst = edgeDelivered log src dst + edgeDelivered log' src dst := by
  rw [edgeDelivered, List.map_append, List.sum_append]
  rfl

theorem edgeDelivered_delivered (s d bytes : Nat) :
    edgeDelivered [.delivered s d bytes] src dst = if s = src ∧ d = dst then bytes else 0 := by
  simp [edgeDelivered, RingPipeObs.deliveredOn]

/-- The pieces that a rank sends. -/
def sends (src dst : Nat) (chunks : List Nat) : List RingPipeObs := chunks.map (.sent src dst)

theorem edgeSent_sends (s d : Nat) (chunks : List Nat) :
    edgeSent (sends s d chunks) src dst = if s = src ∧ d = dst then chunks.sum else 0 := by
  unfold edgeSent sends
  rw [List.map_map]
  by_cases heq : s = src ∧ d = dst
  · rw [if_pos heq]
    refine congrArg List.sum ((List.map_congr_left ?_).trans (List.map_id _))
    intro chunk _
    exact if_pos heq
  · rw [if_neg heq]
    refine List.sum_eq_zero ?_
    intro n hn
    obtain ⟨chunk, -, rfl⟩ := List.mem_map.mp hn
    exact if_neg heq

theorem edgeDelivered_sends (s d : Nat) (chunks : List Nat) :
    edgeDelivered (sends s d chunks) src dst = 0 := by
  unfold edgeDelivered sends
  rw [List.map_map]
  refine List.sum_eq_zero ?_
  intro n hn
  obtain ⟨chunk, -, rfl⟩ := List.mem_map.mp hn
  rfl

theorem count_completed_sends (s d : Nat) (chunks : List Nat) :
    (sends s d chunks).count .completed = 0 := by
  rw [List.count_eq_zero]
  intro hmem
  obtain ⟨chunk, -, heq⟩ := List.mem_map.mp hmem
  cases heq

/-! ## Books -/

/-- All data have gone over each edge of the chain. -/
def AllDelivered (p : RingPipe) (log : List RingPipeObs) : Prop :=
  ∀ gpu < p.numGpus, p.target gpu ≠ p.source → edgeDelivered log gpu (p.target gpu) = p.dataSize

/-- The callback is called behind all bytes. -/
def CompletesBehindArrivals (p : RingPipe) (log : List RingPipeObs) : Prop :=
  Justified (fun pre e => e = .completed → AllDelivered p pre) log

/-- What a rank may send on, when the source is known. -/
def readyAt (p : RingPipe) (recv : Nat → Nat) (gpu : Nat) : Nat :=
  if gpu = p.source then p.dataSize else min (recv gpu) p.dataSize

/-- The counters are those of the log, nothing goes but along the chain, and no rank sends on more than
it has got. -/
structure Books (p : RingPipe) (recv fwd : Nat → Nat) (log : List RingPipeObs) : Prop where
  sent : ∀ src dst, edgeSent log src dst =
    if src < p.numGpus ∧ dst = p.target src ∧ dst ≠ p.source then fwd src else 0
  got : ∀ gpu < p.numGpus, p.target gpu ≠ p.source →
    recv (p.target gpu) = edgeDelivered log gpu (p.target gpu)
  flown : ∀ src dst, edgeDelivered log src dst ≤ edgeSent log src dst
  cap : ∀ gpu < p.numGpus, fwd gpu ≤ readyAt p recv gpu

/-- A rank that has all data holds nothing back. -/
def Released (p : RingPipe) (recv fwd : Nat → Nat) (gpu : Nat) : Prop :=
  p.target gpu ≠ p.source → p.dataSize ≤ readyAt p recv gpu → fwd gpu = p.dataSize

theorem readyAt_le (p : RingPipe) (recv : Nat → Nat) (gpu : Nat) : readyAt p recv gpu ≤ p.dataSize := by
  unfold readyAt
  split
  · exact le_rfl
  · exact min_le_right _ _

theorem readyAt_source (p : RingPipe) (recv : Nat → Nat) : readyAt p recv p.source = p.dataSize :=
  if_pos rfl

variable {recv fwd : Nat → Nat}

namespace Books

theorem edgeSent_target (h : Books p recv fwd log) (hgpu : gpu < p.numGpus)
    (hend : p.target gpu ≠ p.source) : edgeSent log gpu (p.target gpu) = fwd gpu := by
  rw [h.sent, if_pos ⟨hgpu, rfl, hend⟩]

theorem recv_le (h : Books p recv fwd log) (hgpu : gpu < p.numGpus) (hend : p.target gpu ≠ p.source) :
    recv (p.target gpu) ≤ fwd gpu := by
  rw [h.got gpu hgpu hend, ← h.edgeSent_target hgpu hend]
  exact h.flown _ _

theorem recv_le_dataSize (h : Books p recv fwd log) (hgpu : gpu < p.numGpus)
    (hend : p.target gpu ≠ p.source) : recv (p.target gpu) ≤ p.dataSize :=
  (h.recv_le hgpu hend).trans ((h.cap gpu hgpu).trans (readyAt_le p recv gpu))

theorem deliver (h : Books p recv fwd log) (hp : p.Lawful) (hgpu : gpu < p.numGpus)
    (hend : p.target gpu ≠ p.source)
    (hfits : edgeDelivered log gpu (p.target gpu) + bytes ≤ edgeSent log gpu (p.target gpu)) :
    Books p (update recv (p.target gpu) (recv (p.target gpu) + bytes)) fwd
      (log ++ [.delivered gpu (p.target gpu) bytes]) := by
  have hsent : ∀ s d, edgeSent (log ++ [.delivered gpu (p.target gpu) bytes]) s d =
      edgeSent log s d := by
    intro s d
    rw [edgeSent_append]
    rfl
  have hdelivered : ∀ s d, edgeDelivered (log ++ [.delivered gpu (p.target gpu) bytes]) s d =
      edgeDelivered log s d + if gpu = s ∧ p.target gpu = d then bytes else 0 := by
    intro s d
    rw [edgeDelivered_append, edgeDelivered_delivered]
  refine ⟨fun s d => (hsent s d).trans (h.sent s d), ?_, ?_, ?_⟩
  · intro g hg hg'
    rw [hdelivered]
    by_cases heq : gpu = g
    · rw [← heq, update_self, if_pos ⟨rfl, rfl⟩, h.got gpu hgpu hend]
    · have hother : p.target g ≠ p.target gpu :=
        fun hsame => heq (hp.cycle.injective _ hgpu _ hg hsame.symm)
      rw [update_of_ne hother, if_neg fun hsame => heq hsame.1, h.got g hg hg', Nat.add_zero]
  · intro s d
    rw [hsent, hdelivered]
    split
    · rename_i heq
      rw [← heq.1, ← heq.2]
      exact hfits
    · exact h.flown s d
  · intro g hg
    refine (h.cap g hg).trans ?_
    unfold readyAt
    split
    · exact le_rfl
    · refine min_le_min_right _ ?_
      by_cases heq : g = p.target gpu
      · rw [heq, update_self]
        exact Nat.le_add_right _ _
      · rw [update_of_ne heq]

theorem pump (h : Books p recv fwd log) (hgpu : gpu < p.numGpus) (hend : p.target gpu ≠ p.source)
    {chunks : List Nat} (hfits : fwd gpu + chunks.sum ≤ readyAt p recv gpu) :
    Books p recv (update fwd gpu (fwd gpu + chunks.sum))
      (log ++ sends gpu (p.target gpu) chunks) := by
  have hdelivered : ∀ s d, edgeDelivered (log ++ sends gpu (p.target gpu) chunks) s d =
      edgeDelivered log s d := by
    intro s d
    rw [edgeDelivered_append, edgeDelivered_sends, Nat.add_zero]
  refine ⟨?_, ?_, ?_, ?_⟩
  -- sent
  · intro s d
    rw [edgeSent_append, edgeSent_sends, h.sent]
    by_cases heq : gpu = s
    · subst heq
      rw [update_self]
      by_cases hd : p.target gpu = d
      · subst hd
        rw [if_pos ⟨hgpu, rfl, hend⟩, if_pos ⟨rfl, rfl⟩, if_pos ⟨hgpu, rfl, hend⟩]
      · rw [if_neg fun hin => hd hin.2.1.symm, if_neg fun hin => hd hin.2,
          if_neg fun hin => hd hin.2.1.symm]
    · have hnew : ¬ (gpu = s ∧ p.target gpu = d) := fun hin => heq hin.1
      rw [update_of_ne (Ne.symm heq), if_neg hnew, Nat.add_zero]
  · intro g hg hg'
    rw [hdelivered]
    exact h.got g hg hg'
  · intro s d
    rw [hdelivered, edgeSent_append]
    exact (h.flown s d).trans (Nat.le_add_right _ _)
  · intro g hg
    by_cases heq : g = gpu
    · rw [heq, update_self]
      exact hfits
    · rw [update_of_ne heq]
      exact h.cap g hg

end Books

/-! ## Along the chain -/

namespace Books

theorem all_ready (h : Books p recv fwd log) (hp : p.Lawful)
    (hend : ∀ gpu < p.numGpus, p.target gpu = p.source → p.dataSize ≤ readyAt p recv gpu) :
    ∀ gpu < p.numGpus, p.dataSize ≤ readyAt p recv gpu := by
  refine hp.back hend ?_
  intro gpu hgpu hmore hready
  rw [readyAt, if_neg hmore] at hready
  calc p.dataSize ≤ recv (p.target gpu) := hready.trans (min_le_left _ _)
    _ ≤ fwd gpu := h.recv_le hgpu hmore
    _ ≤ readyAt p recv gpu := h.cap gpu hgpu

theorem allDelivered (h : Books p recv fwd log) (hp : p.Lawful)
    (hall : ∀ gpu < p.numGpus, p.dataSize ≤ readyAt p recv gpu) : AllDelivered p log := by
  intro gpu hgpu hmore
  have hready := hall _ (hp.cycle.lt gpu hgpu)
  rw [readyAt, if_neg hmore] at hready
  rw [← h.got gpu hgpu hmore]
  exact le_antisymm (h.recv_le_dataSize hgpu hmore) (hready.trans (min_le_left _ _))

theorem ready_of_quiet (h : Books p recv fwd log) (hp : p.Lawful)
    (hreleased : ∀ gpu < p.numGpus, Released p recv fwd gpu)
    (hquiet : ∀ src dst, edgeDelivered log src dst = edgeSent log src dst) :
    ∀ gpu < p.numGpus, p.dataSize ≤ readyAt p recv gpu := by
  refine hp.along (readyAt_source p recv).ge ?_
  intro gpu hgpu hmore hready
  rw [readyAt, if_neg hmore, h.got gpu hgpu hmore, hquiet, h.edgeSent_target hgpu hmore,
    hreleased gpu hgpu hmore hready, min_self]

end Books

/-! ## Pumping -/

/-- The chunks that a rank sends on. -/
def chunksOf (p : RingPipe) (c : RingPipeRun) (gpu : Nat) : List Nat :=
  pieces p.pipeChunkSize p.dataSize (readyAt p c.recvBytes gpu) (c.fwdBytes gpu)

theorem foldl_forward (c : RingPipeRun) (gpu : Nat) (chunks : List Nat) :
    chunks.foldl (fun c chunk => c.forward gpu chunk) c =
      { c with
        fwdBytes := update c.fwdBytes gpu (c.fwdBytes gpu + chunks.sum)
        log := c.log ++ sends gpu (c.pipe.target gpu) chunks } := by
  induction chunks generalizing c with
  | nil =>
      simp only [List.foldl_nil, List.sum_nil, Nat.add_zero, update_eq_self, sends,
        List.map_nil, List.append_nil]
  | cons chunk rest ih =>
      rw [List.foldl_cons, ih]
      simp only [forward, update_self, update_idem, List.sum_cons, Nat.add_assoc,
        sends, List.map_cons, List.append_assoc, List.singleton_append]

theorem pumpForward_end (hp : p.Lawful) (hpipe : c.pipe = p) (hgpu : gpu < p.numGpus)
    (hend : p.target gpu = p.source) : c.pumpForward gpu = c := by
  unfold pumpForward
  rw [hpipe, if_neg (Nat.not_le.mpr hgpu), if_pos ((hp.ends gpu hgpu).mpr hend)]

theorem pumpForward_eq (hp : p.Lawful) (hpipe : c.pipe = p) (hsource : c.source = p.source)
    (hgpu : gpu < p.numGpus) (hmore : p.target gpu ≠ p.source) : c.pumpForward gpu =
      { c with
        fwdBytes := update c.fwdBytes gpu (c.fwdBytes gpu + (chunksOf p c gpu).sum)
        log := c.log ++ sends gpu (p.target gpu) (chunksOf p c gpu) } := by
  have hready : c.ready gpu = readyAt p c.recvBytes gpu := by
    rw [ready, readyAt, hsource, hpipe]
  unfold pumpForward
  rw [foldl_forward, hready, hpipe, if_neg (Nat.not_le.mpr hgpu),
    if_neg fun hends => hmore ((hp.ends gpu hgpu).mp hends)]
  rfl

/-- A run whose counters are right, and where no rank that has all data holds any back. -/
structure Settled (p : RingPipe) (c : RingPipeRun) : Prop where
  pipe : c.pipe = p
  source : c.source = p.source
  scheduled : c.scheduled = false
  books : Books p c.recvBytes c.fwdBytes c.log
  released : ∀ gpu < p.numGpus, Released p c.recvBytes c.fwdBytes gpu

/-- Two runs differ in what was sent from a rank on. -/
structure SentOn (p : RingPipe) (gpu : Nat) (c c' : RingPipeRun) : Prop where
  completed : c'.completed = c.completed
  recvBytes : c'.recvBytes = c.recvBytes
  gpuDoneCount : c'.gpuDoneCount = c.gpuDoneCount
  log : ∃ chunks, c'.log = c.log ++ sends gpu (p.target gpu) chunks

theorem settled_pumpForward (hp : p.Lawful) (hpipe : c.pipe = p) (hsource : c.source = p.source)
    (hscheduled : c.scheduled = false) (hbooks : Books p c.recvBytes c.fwdBytes c.log)
    (hgpu : gpu < p.numGpus)
    (hothers : ∀ g < p.numGpus, g ≠ gpu → Released p c.recvBytes c.fwdBytes g) :
    Settled p (c.pumpForward gpu) ∧ SentOn p gpu c (c.pumpForward gpu) := by
  by_cases hend : p.target gpu = p.source
  · rw [pumpForward_end hp hpipe hgpu hend]
    refine ⟨⟨hpipe, hsource, hscheduled, hbooks, ?_⟩, rfl, rfl, rfl, [], ?_⟩
    · intro g hg
      by_cases heq : g = gpu
      · exact fun hmore => absurd (heq ▸ hend) hmore
      · exact hothers g hg heq
    · rw [sends, List.map_nil, List.append_nil]
  · have hcap := hbooks.cap gpu hgpu
    rw [pumpForward_eq hp hpipe hsource hgpu hend]
    refine ⟨⟨hpipe, hsource, hscheduled, hbooks.pump hgpu hend (sum_pieces_le hcap), ?_⟩,
      rfl, rfl, rfl, _, rfl⟩
    intro g hg
    by_cases heq : g = gpu
    · intro _ hready
      show update c.fwdBytes gpu _ g = _
      rw [heq] at hready ⊢
      rw [update_self]
      exact (sum_pieces_eq hp.chunk hready hcap).trans (le_antisymm (readyAt_le _ _ _) hready)
    · intro hmore hready
      show update c.fwdBytes gpu _ g = _
      rw [update_of_ne heq]
      exact hothers g hg heq hmore hready

end RingPipeRun

end ProtoBridge.Collective
