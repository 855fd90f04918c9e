import Mathlib.Data.Nat.ModEq
import ProtoBridge.Lib.Cycle
import ProtoBridge.Lib.Table
import ProtoBridge.Lib.Word

/-!
# Layout of the NCCL ring

`NcclRingAllReduce` splits the data into one chunk for each channel and rank and
sends the chunks of a channel around its own ring. The layout is fixed by
`Initialize`; here is what the rest relies on: a ring has one predecessor for each
rank, no chunk is empty, and the channel can be read off a flow id.
-/

namespace ProtoBridge.Collective

open Lib

/-- What `Initialize` fixes. -/
structure NcclRing where
  numGpus : Nat
  dataSize : Nat
  gpusPerNode : Nat
  numNodes : Nat
  numChannels : Nat := 1
  chunkSize : Nat := 0
  chunkRemainder : Nat := 0
  totalSteps : Nat := 0
  trivialSingleRank : Bool := false
  trivialZeroData : Bool := false
  ringNext : Nat → Nat → Nat := fun _ _ => 0
  ringPos : Nat → Nat → Nat := fun _ _ => 0

/-- What ends the simulation in `Initialize`. -/
inductive NcclAbort
  | layout
  | outOfRange
  deriving DecidableEq

namespace NcclRing

/-- The flow id of the first channel and step; 0 is no flow id. -/
def flowIdBase : Nat := 1

/-- The writes of `BuildRings` to the successors on a channel. -/
def ringEdges (numNodes g channel : Nat) : List (Nat × Nat) :=
  (List.range numNodes).flatMap fun node => (List.range g).map fun k =>
    (node * g + (channel + k) % g,
      if k + 1 < g then node * g + (channel + k + 1) % g
      else (node + 1) % numNodes * g + channel % g)

/-- The walk of `BuildRings` around a ring. -/
def walk (next : Nat → Nat) (n : Nat) : Nat → Nat → Nat → (Nat → Nat) → Nat → Nat
  | 0, _, _, table => table
  | fuel + 1, pos, cur, table =>
      let table := Function.update table cur pos
      if next cur ≠ 0 ∧ pos + 1 < n then walk next n fuel (pos + 1) (next cur) table else table

/-- `BuildRings`. -/
def buildRings (r : NcclRing) : NcclRing :=
  let ringNext := fun channel => tableOf (fun _ => 0) (ringEdges r.numNodes r.gpusPerNode channel)
  { r with
    ringNext
    ringPos := fun channel => walk (ringNext channel) r.numGpus r.numGpus 0 0 fun _ => 0 }

/-- The channels that `Initialize` settles on. -/
def resolvedChannels (numChannelsCfg gpusPerNode totalSteps : Nat) : Nat :=
  let numChannels := min (if numChannelsCfg > 0 then numChannelsCfg else gpusPerNode) gpusPerNode
  let maxChannels := (65536 - flowIdBase) / totalSteps
  if numChannels > maxChannels then max maxChannels 1 else numChannels

/-- `Initialize`. -/
def initialized (numGpus : UInt16) (dataSize : UInt64) (gpusPerNode numNodes numChannelsCfg : UInt32) :
    Except NcclAbort NcclRing :=
  let n := numGpus.toNat
  let r : NcclRing :=
    { numGpus := n
      dataSize := dataSize.toNat
      gpusPerNode := gpusPerNode.toNat
      numNodes := numNodes.toNat }
  if numGpus ≤ 1 then .ok { r with trivialSingleRank := true }
  else if (numNodes * gpusPerNode).toNat ≠ n then .error .layout
  -- the product has wrapped, and the ranks of `BuildRings` run out of its tables
  else if numNodes.toNat * gpusPerNode.toNat ≠ n then .error .outOfRange
  else
    let totalSteps := 2 * (n - 1)
    let numChannels := resolvedChannels numChannelsCfg.toNat gpusPerNode.toNat totalSteps
    let chunkGrid := numChannels * n
    let floored := dataSize.toNat / chunkGrid = 0
    .ok (buildRings
      { r with
        numChannels
        totalSteps
        chunkSize := if dataSize = 0 then 0 else if floored then 1 else dataSize.toNat / chunkGrid
        chunkRemainder := if floored then 0 else dataSize.toNat % chunkGrid
        trivialZeroData := dataSize = 0 })

/-- `ChunkSizeOf`. -/
def chunkSizeOf (r : NcclRing) (channel rank step : Nat) : Nat :=
  let n := r.numGpus
  let idx := (r.ringPos channel rank + n - step % n) % n
  let chunkIndex := channel * n + idx
  r.chunkSize + if chunkIndex < r.chunkRemainder then 1 else 0

/-- `ExpectedRecvBytes`. -/
def expectedRecvBytes (r : NcclRing) (destRank channel step : Nat) : Nat :=
  match (List.range r.numGpus).find? fun rank => r.ringNext channel rank = destRank with
  | some rank => r.chunkSizeOf channel rank step
  | none => r.chunkSize

/-- The flow id of a channel and a step, in 16 bits. -/
def flowIdOf (r : NcclRing) (channel step : Nat) : Nat :=
  (flowIdBase + channel * r.totalSteps + step) % 2 ^ 16

/-- The channel that `OnPacketReceived` reads off a flow id. It drops what has none. -/
def channelOf (r : NcclRing) (flowId : Nat) : Option Nat :=
  if flowId < flowIdBase then none
  else
    let channel := (flowId - flowIdBase) / r.totalSteps
    if channel ≥ r.numChannels then none else some channel

/-- The flow ids of the channels and steps are told apart, and so are the channels. -/
structure Lossless (r : NcclRing) : Prop where
  base : ∀ channel < r.numChannels, ∀ step < r.totalSteps, flowIdBase ≤ r.flowIdOf channel step
  distinct : ∀ channel < r.numChannels, ∀ step < r.totalSteps, ∀ channel' < r.numChannels,
    ∀ step' < r.totalSteps, r.flowIdOf channel step = r.flowIdOf channel' step' →
      channel = channel' ∧ step = step'
  decodes : ∀ channel < r.numChannels, ∀ step < r.totalSteps,
    r.channelOf (r.flowIdOf channel step) = some channel

/-- The ring of a channel has a rank before another one. -/
structure Precedes (r : NcclRing) (channel pred rank : Nat) : Prop where
  lt : pred < r.numGpus
  next : r.ringNext channel pred = rank

/-- What the collective relies on. -/
structure Lawful (r : NcclRing) : Prop where
  ranks : 2 ≤ r.numGpus ∧ r.numGpus < 2 ^ 16
  steps : r.totalSteps = 2 * (r.numGpus - 1)
  channels : 0 < r.numChannels
  next : ∀ channel, ∀ rank < r.numGpus, r.ringNext channel rank < r.numGpus
  pred : ∀ channel, ∀ rank < r.numGpus, ∃ pred, r.Precedes channel pred rank
  unique : ∀ channel pred pred' rank,
    r.Precedes channel pred rank → r.Precedes channel pred' rank → pred = pred'
  chunks : r.trivialZeroData = false → 0 < r.chunkSize
  empty : r.trivialZeroData = true → r.chunkSize = 0 ∧ r.chunkRemainder = 0
  flows : ∀ channel < r.numChannels, ∀ step < r.totalSteps, flowIdBase ≤ r.flowIdOf channel step →
    (r.flowIdOf channel step - flowIdBase) / r.totalSteps = channel

/-! ## Rings -/

variable {g nn channel node node' k k' : Nat}

theorem slot_injective (hk : k < g) (hk' : k' < g) (h : (channel + k) % g = (channel + k') % g) :
    k = k' := by
  have hmod : k % g = k' % g := Nat.ModEq.add_left_cancel' channel h
  rwa [Nat.mod_eq_of_lt hk, Nat.mod_eq_of_lt hk'] at hmod

theorem mul_add_injective {a b : Nat} (ha : a < g) (hb : b < g)
    (h : node * g + a = node' * g + b) : node = node' ∧ a = b := by
  have hdiv := congrArg (· / g) h
  have hpos : 0 < g := by omega
  simp only [Nat.mul_comm _ g, Nat.mul_add_div hpos, Nat.div_eq_of_lt ha, Nat.div_eq_of_lt hb] at hdiv
  have hnode : node = node' := by omega
  subst hnode
  exact ⟨rfl, by omega⟩

/-- The rank at a place of a ring. -/
def rankAt (g channel node k : Nat) : Nat := node * g + (channel + k) % g

/-- The rank behind a place of a ring. -/
def rankBehind (g nn channel node k : Nat) : Nat :=
  if k + 1 < g then node * g + (channel + k + 1) % g else (node + 1) % nn * g + channel % g

theorem mem_ringEdges {e : Nat × Nat} : e ∈ ringEdges nn g channel ↔
    ∃ node < nn, ∃ k < g, e = (rankAt g channel node k, rankBehind g nn channel node k) := by
  simp only [ringEdges, List.mem_flatMap, List.mem_map, List.mem_range, rankAt, rankBehind]
  constructor
  · rintro ⟨node, hnode, k, hk, rfl⟩
    exact ⟨node, hnode, k, hk, rfl⟩
  · rintro ⟨node, hnode, k, hk, rfl⟩
    exact ⟨node, hnode, k, hk, rfl⟩

theorem rankAt_injective (hk : k < g) (hk' : k' < g)
    (h : rankAt g channel node k = rankAt g channel node' k') : node = node' ∧ k = k' := by
  have hpos : 0 < g := by omega
  obtain ⟨hnode, hslot⟩ := mul_add_injective (Nat.mod_lt _ hpos) (Nat.mod_lt _ hpos) h
  exact ⟨hnode, slot_injective hk hk' hslot⟩

theorem rankBehind_injective (hnode : node < nn) (hnode' : node' < nn) (hk : k < g) (hk' : k' < g)
    (h : rankBehind g nn channel node k = rankBehind g nn channel node' k') :
    node = node' ∧ k = k' := by
  have hpos : 0 < g := by omega
  have hlt : ∀ a, a % g < g := fun a => Nat.mod_lt a hpos
  unfold rankBehind at h
  split at h <;> split at h
  · rename_i hin hin'
    obtain ⟨hsame, hslot⟩ := mul_add_injective (hlt _) (hlt _) h
    have := slot_injective hin hin' hslot
    exact ⟨hsame, by omega⟩
  · rename_i hin hlast
    obtain ⟨-, hslot⟩ := mul_add_injective (hlt _) (hlt _) h
    have hzero : k + 1 = 0 := slot_injective hin hpos hslot
    omega
  · rename_i hlast hin
    obtain ⟨-, hslot⟩ := mul_add_injective (hlt _) (hlt _) h
    have hzero : 0 = k' + 1 := slot_injective hpos hin hslot
    omega
  · obtain ⟨hsame, -⟩ := mul_add_injective (hlt _) (hlt _) h
    rw [Nat.add_comm node, Nat.add_comm node'] at hsame
    exact ⟨slot_injective hnode hnode' hsame, by omega⟩

theorem mul_add_lt {a b : Nat} (ha : a < nn) (hb : b < g) : a * g + b < nn * g := by
  have := Nat.mul_le_mul_right g (Nat.succ_le_of_lt ha)
  rw [Nat.succ_mul] at this
  omega

theorem rankBehind_lt (hnode : node < nn) (hk : k < g) : rankBehind g nn channel node k < nn * g := by
  have hpos : 0 < g := by omega
  unfold rankBehind
  split
  · exact mul_add_lt hnode (Nat.mod_lt _ hpos)
  · exact mul_add_lt (Nat.mod_lt _ (by omega)) (Nat.mod_lt _ hpos)

theorem exists_rankAt (channel : Nat) {rank : Nat} (hrank : rank < nn * g) :
    ∃ node < nn, ∃ k < g, rankAt g channel node k = rank := by
  have hpos : 0 < g := by
    rcases Nat.eq_zero_or_pos g with rfl | hpos
    · rw [Nat.mul_zero] at hrank
      exact absurd hrank (Nat.not_lt_zero _)
    · exact hpos
  obtain ⟨k, hk, hslot⟩ := exists_of_injective (f := fun k => (channel + k) % g)
    (fun _ _ => Nat.mod_lt _ hpos) (fun a ha b hb => slot_injective ha hb) (rank % g)
    (Nat.mod_lt _ hpos)
  refine ⟨rank / g, Nat.div_lt_of_lt_mul (by rwa [Nat.mul_comm]), k, hk, ?_⟩
  rw [rankAt, hslot]
  exact Nat.div_add_mod' rank g

/-- The successor that `BuildRings` writes. -/
theorem tableOf_ringEdges (hnode : node < nn) (hk : k < g) :
    tableOf (fun _ => 0) (ringEdges nn g channel) (rankAt g channel node k) =
      rankBehind g nn channel node k := by
  refine tableOf_eq (mem_ringEdges.mpr ⟨node, hnode, k, hk, rfl⟩) fun v hv => ?_
  obtain ⟨node', -, k', hk', heq⟩ := mem_ringEdges.mp hv
  rw [Prod.mk.injEq] at heq
  obtain ⟨rfl, rfl⟩ := rankAt_injective hk hk' heq.1
  exact heq.2

theorem next_lt {rank : Nat} (hrank : rank < nn * g) :
    tableOf (fun _ => 0) (ringEdges nn g channel) rank < nn * g := by
  obtain ⟨node, hnode, k, hk, rfl⟩ := exists_rankAt channel hrank
  rw [tableOf_ringEdges hnode hk]
  exact rankBehind_lt hnode hk

theorem next_injective {rank rank' : Nat} (hrank : rank < nn * g) (hrank' : rank' < nn * g)
    (h : tableOf (fun _ => 0) (ringEdges nn g channel) rank =
      tableOf (fun _ => 0) (ringEdges nn g channel) rank') : rank = rank' := by
  obtain ⟨node, hnode, k, hk, rfl⟩ := exists_rankAt channel hrank
  obtain ⟨node', hnode', k', hk', rfl⟩ := exists_rankAt channel hrank'
  rw [tableOf_ringEdges hnode hk, tableOf_ringEdges hnode' hk'] at h
  obtain ⟨rfl, rfl⟩ := rankBehind_injective hnode hnode' hk hk' h
  rfl

/-! ## Channels -/

variable {cfg steps step : Nat}

theorem resolvedChannels_pos (cfg steps : Nat) (hg : 0 < g) : 0 < resolvedChannels cfg g steps := by
  have hwanted : 0 < min (if cfg > 0 then cfg else g) g := by
    split <;> omega
  unfold resolvedChannels
  dsimp only
  generalize min (if cfg > 0 then cfg else g) g = wanted at hwanted
  split
  · omega
  · exact hwanted

theorem resolvedChannels_fit :
    resolvedChannels cfg g steps * steps ≤ 65535 ∨ resolvedChannels cfg g steps = 1 := by
  have hfit : (65536 - flowIdBase) / steps * steps ≤ 65535 := Nat.div_mul_le_self _ _
  unfold resolvedChannels
  dsimp only
  generalize min (if cfg > 0 then cfg else g) g = wanted
  split
  · rcases Nat.eq_zero_or_pos ((65536 - flowIdBase) / steps) with hzero | hpos
    · right
      omega
    · left
      rw [max_eq_left hpos]
      exact hfit
  · rename_i hsmall
    left
    exact (Nat.mul_le_mul_right _ (not_lt.mp hsmall)).trans hfit

theorem channel_of_flow {channels : Nat} (hfit : channels * steps ≤ 65535 ∨ channels = 1)
    (hchannel : channel < channels) (hstep : step < steps)
    (hbase : flowIdBase ≤ (flowIdBase + channel * steps + step) % 2 ^ 16) :
    ((flowIdBase + channel * steps + step) % 2 ^ 16 - flowIdBase) / steps = channel := by
  rw [flowIdBase] at *
  rcases hfit with hfit | rfl
  · have hsize : channel * steps + step < channels * steps := mul_add_lt hchannel hstep
    rw [Nat.mod_eq_of_lt (by omega), Nat.add_assoc, Nat.add_sub_cancel_left, Nat.mul_comm,
      Nat.mul_add_div (by omega), Nat.div_eq_of_lt hstep, Nat.add_zero]
  · have hzero : channel = 0 := by omega
    subst hzero
    rw [Nat.zero_mul, Nat.add_zero] at *
    refine Nat.div_eq_of_lt ?_
    have := Nat.mod_le (1 + step) (2 ^ 16)
    omega

/-! ## Initialize -/

/-- A ring of two ranks or more that `Initialize` accepts is lawful. -/
theorem lawful_of_initialized {r : NcclRing} {numGpus : UInt16} {dataSize : UInt64}
    {gpusPerNode numNodes numChannelsCfg : UInt32}
    (h : initialized numGpus dataSize gpusPerNode numNodes numChannelsCfg = .ok r)
    (hsingle : r.trivialSingleRank = false) : r.Lawful := by
  unfold initialized at h
  dsimp only at h
  split at h
  · cases h
    cases hsingle
  · rename_i hranks
    split at h
    · cases h
    · split at h
      · cases h
      · rename_i hlayout
        rw [not_not] at hlayout
        cases h
        have htwo : 2 ≤ numGpus.toNat := by
          rw [UInt16.le_iff_toNat_le, not_le] at hranks
          exact hranks
        have hg : 0 < gpusPerNode.toNat := by
          rcases Nat.eq_zero_or_pos gpusPerNode.toNat with hnone | hpos
          · rw [hnone, Nat.mul_zero] at hlayout
            omega
          · exact hpos
        have hnext : ∀ channel, ∀ rank < numGpus.toNat,
            tableOf (fun _ => 0) (ringEdges numNodes.toNat gpusPerNode.toNat channel) rank <
              numGpus.toNat := by
          intro channel rank hrank
          rw [← hlayout] at hrank ⊢
          exact next_lt hrank
        have hinj : ∀ channel, ∀ rank < numGpus.toNat, ∀ rank' < numGpus.toNat,
            tableOf (fun _ => 0) (ringEdges numNodes.toNat gpusPerNode.toNat channel) rank =
              tableOf (fun _ => 0) (ringEdges numNodes.toNat gpusPerNode.toNat channel) rank' →
            rank = rank' := by
          intro channel rank hrank rank' hrank'
          rw [← hlayout] at hrank hrank'
          exact next_injective hrank hrank'
        refine ⟨⟨htwo, numGpus.toNat_lt⟩, rfl, resolvedChannels_pos _ _ hg, hnext, ?_, ?_, ?_, ?_, ?_⟩
        · intro channel rank hrank
          obtain ⟨pred, hlt, heq⟩ := exists_of_injective (hnext channel) (hinj channel) rank hrank
          exact ⟨pred, hlt, heq⟩
        · intro channel pred pred' rank hpred hpred'
          exact hinj channel pred hpred.lt pred' hpred'.lt (hpred.next.trans hpred'.next.symm)
        · intro hzero
          have hdata : dataSize ≠ 0 := of_decide_eq_false hzero
          show 0 < if dataSize = 0 then 0 else _
          rw [if_neg hdata]
          split
          · exact Nat.one_pos
          · rename_i hfloor
            exact Nat.pos_of_ne_zero hfloor
        · intro hzero
          have hdata : dataSize = 0 := of_decide_eq_true hzero
          refine ⟨if_pos hdata, if_pos ?_⟩
          rw [hdata]
          exact Nat.zero_div _
        · intro channel hchannel step hstep hbase
          exact channel_of_flow resolvedChannels_fit hchannel hstep hbase

/-! ## Flow ids -/

variable {r : NcclRing} {rank pred : Nat}

theorem lossless_of_fit (hfit : r.numChannels * r.totalSteps ≤ 65535) : r.Lossless := by
  have hvalue : ∀ channel < r.numChannels, ∀ step < r.totalSteps,
      r.flowIdOf channel step = flowIdBase + (channel * r.totalSteps + step) := by
    intro channel hchannel step hstep
    have hsize : channel * r.totalSteps + step < r.numChannels * r.totalSteps := mul_add_lt hchannel hstep
    unfold flowIdOf
    rw [flowIdBase, Nat.mod_eq_of_lt (by omega)]
    omega
  refine ⟨?_, ?_, ?_⟩
  · intro channel hchannel step hstep
    rw [hvalue channel hchannel step hstep]
    exact Nat.le_add_right _ _
  · intro channel hchannel step hstep channel' hchannel' step' hstep' hsame
    rw [hvalue channel hchannel step hstep, hvalue channel' hchannel' step' hstep'] at hsame
    exact mul_add_injective hstep hstep' (Nat.add_left_cancel hsame)
  · intro channel hchannel step hstep
    have hread := channel_of_flow (.inl hfit) hchannel hstep (by
      have := hvalue channel hchannel step hstep
      rw [flowIdOf] at this
      omega)
    unfold channelOf
    rw [if_neg (by rw [hvalue channel hchannel step hstep]; omega)]
    dsimp only
    rw [flowIdOf, hread, if_neg (not_le.mpr hchannel)]

theorem not_lossless_of_steps (hchannels : 0 < r.numChannels) (hsteps : 65536 ≤ r.totalSteps) :
    ¬ r.Lossless := by
  intro hlossless
  have hwraps : r.flowIdOf 0 65535 = 0 := by
    unfold flowIdOf
    rw [Nat.zero_mul]
    rfl
  have hbase := hlossless.base 0 hchannels 65535 (by omega)
  rw [hwraps] at hbase
  exact absurd hbase (by decide)

/-- The flow ids of a ring are lossless exactly up to 32768 ranks. -/
theorem lossless_iff {numGpus : UInt16} {dataSize : UInt64} {gpusPerNode numNodes numChannelsCfg : UInt32}
    (h : initialized numGpus dataSize gpusPerNode numNodes numChannelsCfg = .ok r) :
    r.Lossless ↔ numGpus.toNat ≤ 32768 := by
  cases hsingle : r.trivialSingleRank with
  | true =>
      -- nothing is sent
      have hsteps : r.totalSteps = 0 ∧ numGpus ≤ 1 := by
        unfold initialized at h
        dsimp only at h
        split at h
        · cases h
          exact ⟨rfl, ‹_›⟩
        · split at h
          · cases h
          · split at h
            · cases h
            · cases h
              cases hsingle
      have hfew : numGpus.toNat ≤ 1 := UInt16.le_iff_toNat_le.mp hsteps.2
      have hfit : r.Lossless := lossless_of_fit (by
        rw [hsteps.1, Nat.mul_zero]
        exact Nat.zero_le _)
      exact ⟨fun _ => by omega, fun _ => hfit⟩
  | false =>
      obtain ⟨hn, hchannels⟩ : r.numGpus = numGpus.toNat ∧
          r.numChannels = resolvedChannels numChannelsCfg.toNat gpusPerNode.toNat r.totalSteps := by
        unfold initialized at h
        dsimp only at h
        split at h
        · cases h
          cases hsingle
        · split at h
          · cases h
          · split at h
            · cases h
            · cases h
              exact ⟨rfl, rfl⟩
      have hlawful := lawful_of_initialized h hsingle
      have htwo := hlawful.ranks.1
      constructor
      · intro hlossless
        by_contra hmany
        exact not_lossless_of_steps hlawful.channels (by rw [hlawful.steps]; omega) hlossless
      · intro hfew
        apply lossless_of_fit
        rw [hchannels]
        have hfit : resolvedChannels numChannelsCfg.toNat gpusPerNode.toNat r.totalSteps * r.totalSteps ≤
            65535 ∨ resolvedChannels numChannelsCfg.toNat gpusPerNode.toNat r.totalSteps = 1 :=
          resolvedChannels_fit
        rcases hfit with hfit | hone
        · exact hfit
        · rw [hone, hlawful.steps]
          omega

theorem lossless_iff_four : ∃ r, initialized 4 64 2 2 2 = .ok r ∧
    (r.Lossless ↔ (4 : UInt16).toNat ≤ 32768) :=
  ⟨_, rfl, lossless_iff (show initialized 4 64 2 2 2 = .ok _ from rfl)⟩

/-- At 32769 ranks the last step has the flow id that the receiver drops. -/
theorem not_lossless : ∃ r, initialized 32769 32769 1 32769 1 = .ok r ∧ r.flowIdOf 0 65535 = 0 ∧
    r.channelOf 0 = none ∧ ¬ r.Lossless := by
  refine ⟨_, rfl, rfl, rfl, ?_⟩
  intro hlossless
  exact absurd (hlossless.base 0 (by decide) 65535 (by decide)) (by decide)

/-! ## Chunks -/

theorem chunkSizeOf_pos (h : r.Lawful) (hzero : r.trivialZeroData = false) :
    0 < r.chunkSizeOf channel rank step :=
  Nat.lt_of_lt_of_le (h.chunks hzero) (Nat.le_add_right _ _)

theorem chunkSizeOf_zero (h : r.Lawful) (hzero : r.trivialZeroData = true) :
    r.chunkSizeOf channel rank step = 0 := by
  obtain ⟨hsize, hremainder⟩ := h.empty hzero
  rw [chunkSizeOf, hsize, hremainder]
  rfl

theorem expectedRecvBytes_eq (h : r.Lawful) (hpred : r.Precedes channel pred rank) :
    r.expectedRecvBytes rank channel step = r.chunkSizeOf channel pred step := by
  unfold expectedRecvBytes
  split
  · rename_i found hfound
    have hfits := List.find?_some hfound
    have hnext := of_decide_eq_true hfits
    have hlt := List.mem_range.mp (List.mem_of_find?_eq_some hfound)
    rw [h.unique channel found pred rank ⟨hlt, hnext⟩ hpred]
  · rename_i hnone
    have := List.find?_eq_none.mp hnone pred (List.mem_range.mpr hpred.lt)
    exact absurd (decide_eq_true hpred.next) this

end NcclRing

end ProtoBridge.Collective
