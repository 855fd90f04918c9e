import ProtoBridge.Switch.FailureAware
import ProtoBridge.Topology.FullMesh

/-!
# Full meshes in several racks

`Build2DFullMeshClos` makes each rack a full mesh in two dimensions and connects the first row and the first
column of every rack to all spine switches. Nothing fills the tables up, and the spines get no routes.
-/

namespace ProtoBridge.Topology

open Lib

/-- A spine switch, with the nodes at its ports. -/
structure Spine where
  ports : List Nat := []
  switch : Switch.NvSwitch := {}

/-- The endpoints, and the spines. Spine `s` is the node behind all endpoints and the spines before it. -/
structure MultiRack where
  endpoints : Network
  spines : Nat → Spine := fun _ => {}

/-- The links inside of the racks. -/
def rackLinks (rackRows rackCols numRacks : Nat) : List (Nat × Nat) :=
  (List.range numRacks).flatMap fun rack =>
    let rackBase := rack * (rackRows * rackCols)
    (fullMeshLinks rackRows rackCols).map fun l => (rackBase + l.1, rackBase + l.2)

/-- The first row of a rack, and the rest of its first column. -/
def borderNodes (rackRows rackCols rackBase : Nat) : List Nat :=
  (List.range rackCols).map (fun c => rackBase + c) ++
    (List.range' 1 (rackRows - 1)).map fun r => rackBase + r * rackCols

/-- The ranks of the other racks. -/
def remoteNpus (npusPerRack numRacks rack : Nat) : List Nat :=
  (List.range numRacks).flatMap fun remoteRack =>
    if remoteRack = rack then [] else (List.range npusPerRack).map fun rn => remoteRack * npusPerRack + rn

/-- A border node gets a link to a spine, and sends there what is for the other racks. -/
def connectSpine (npusPerRack numRacks rack : Nat) (net : MultiRack) (uplink : Nat × Nat) : MultiRack :=
  let (bn, s) := uplink
  let devIdx := (net.endpoints bn).getNNetDevices
  let ep := (net.endpoints bn).addNetDevice (npusPerRack * numRacks + s)
  { endpoints := Function.update net.endpoints bn
      ((remoteNpus npusPerRack numRacks rack).foldl
        (fun ep remoteNpuId => ep.setRoutingEntry (UInt16.ofNat remoteNpuId) devIdx) ep)
    spines := Function.update net.spines s { net.spines s with ports := (net.spines s).ports ++ [bn] } }

/-- The links of the border nodes of a rack. -/
def connectRack (rackRows rackCols numRacks numSpineSwitches : Nat) (net : MultiRack) (rack : Nat) :
    MultiRack :=
  let npusPerRack := rackRows * rackCols
  let uplinks := (borderNodes rackRows rackCols (rack * npusPerRack)).flatMap fun bn =>
    (List.range numSpineSwitches).map fun s => (bn, s)
  uplinks.foldl (connectSpine npusPerRack numRacks rack) net

/-- `Build2DFullMeshClos`. -/
def build2DFullMeshClos (rackRows rackCols numRacks numSpineSwitches : Nat) : Except BuildAbort MultiRack :=
  let totalNpus := rackRows * rackCols * numRacks
  if totalNpus < 2 then .error .tooFewNodes
  else
    let net : MultiRack := { endpoints := installLinks (rackLinks rackRows rackCols numRacks) }
    if numRacks > 1 ∧ numSpineSwitches > 0 then
      .ok ((List.range numRacks).foldl (connectRack rackRows rackCols numRacks numSpineSwitches) net)
    else .ok net

/-- A hop: from an endpoint as its entry says, and from a spine by a route, whatever the addresses are. -/
def ClosHop (net : MultiRack) (totalNpus dst v w : Nat) : Prop :=
  if v < totalNpus then EntryLeads net.endpoints dst v w
  else ∃ isUp srcAddr dstAddr srcRank inPort outPort,
    ((net.spines (v - totalNpus)).switch.receiveFromPort isUp srcAddr dstAddr srcRank inPort).2 =
        .port outPort ∧
      (net.spines (v - totalNpus)).ports[outPort]? = some w

/-- Every endpoint has an entry for every other one, and the hops lead there, by no node twice. -/
def ConnectsEveryPair (rackRows rackCols numRacks numSpineSwitches : Nat) : Prop :=
  ∃ net, build2DFullMeshClos rackRows rackCols numRacks numSpineSwitches = .ok net ∧
    let totalNpus := rackRows * rackCols * numRacks
    ∀ src < totalNpus, ∀ dst < totalNpus, src ≠ dst →
      (∃ deviceIndex, (net.endpoints src).routingTable.lookup (UInt16.ofNat dst) = some deviceIndex) ∧
        ∃ path : Nat → Nat, ∃ k, path 0 = src ∧ path k = dst ∧ Walk (ClosHop net totalNpus dst) path k ∧
          ∀ i ≤ k, ∀ j ≤ k, path i = path j → i = j

variable {rackRows rackCols numRacks numSpineSwitches totalNpus rack src dst v w n : Nat} {net : MultiRack}
  {links : List (Nat × Nat)}

/-! ## Inside of the racks -/

variable {l : Nat × Nat} {npusPerRack : Nat}

theorem mem_rackLinks : l ∈ rackLinks rackRows rackCols numRacks ↔
    ∃ rack < numRacks, ∃ l' ∈ fullMeshLinks rackRows rackCols,
      l = (rack * (rackRows * rackCols) + l'.1, rack * (rackRows * rackCols) + l'.2) := by
  unfold rackLinks
  simp only [List.mem_flatMap, List.mem_range, List.mem_map]
  constructor
  · rintro ⟨rack, hrack, l', hl', rfl⟩
    exact ⟨rack, hrack, l', hl', rfl⟩
  · rintro ⟨rack, hrack, l', hl', rfl⟩
    exact ⟨rack, hrack, l', hl', rfl⟩

theorem rackLinks_inside (hl : l ∈ rackLinks rackRows rackCols numRacks) :
    l.1 < rackRows * rackCols * numRacks ∧ l.2 < rackRows * rackCols * numRacks ∧ l.1 ≠ l.2 ∧
      l.1 / (rackRows * rackCols) = l.2 / (rackRows * rackCols) := by
  obtain ⟨rack, hrack, l', hl', rfl⟩ := mem_rackLinks.mp hl
  obtain ⟨hfirst, hsecond, hne⟩ := proper_fullMeshLinks rackRows rackCols l' hl'
  rw [Nat.mul_comm _ numRacks]
  refine ⟨place_lt hrack hfirst, place_lt hrack hsecond, fun heq => hne (Nat.add_left_cancel heq), ?_⟩
  rw [place_div hfirst, place_div hsecond]

theorem linked_of_mem_peers (hproper : ∀ l ∈ links, l.1 ≠ l.2) (h : w ∈ (installLinks links v).peers) :
    Linked links v w := by
  induction links using List.reverseRecOn with
  | nil => cases h
  | append_singleton links l ih =>
      have hbefore : w ∈ (installLinks links v).peers → Linked (links ++ [l]) v w := fun hold =>
        linked_snoc.mpr (.inl (ih (fun l hl => hproper l (List.mem_append_left _ hl)) hold))
      have hne := hproper l (List.mem_append_right _ (List.mem_singleton.mpr rfl))
      have hlast : installLinks (links ++ [l]) = installLink (installLinks links) l := by
        unfold installLinks
        rw [List.foldl_append]
        rfl
      have hnew : ∀ peer, w ∈ ((installLinks links v).link peer).peers →
          w ∈ (installLinks links v).peers ∨ w = peer := by
        intro peer hmem
        exact (List.mem_append.mp hmem).imp_right List.mem_singleton.mp
      rw [hlast, installLink_apply _ hne] at h
      split at h
      · rename_i hv
        rw [← hv] at h
        rcases hnew _ h with hold | rfl
        · exact hbefore hold
        · exact linked_snoc.mpr (.inr (.inl ⟨hv, rfl⟩))
      · split at h
        · rename_i hv
          rw [← hv] at h
          rcases hnew _ h with hold | rfl
          · exact hbefore hold
          · exact linked_snoc.mpr (.inr (.inr ⟨hv, rfl⟩))
        · exact hbefore h

/-! ## Between the racks -/

/-- Devices lead inside of a rack or to a spine, and spines have no routes. -/
structure Racked (npusPerRack totalNpus : Nat) (net : MultiRack) : Prop where
  inRack : ∀ v, ∀ w ∈ (net.endpoints v).peers, totalNpus ≤ w ∨ w / npusPerRack = v / npusPerRack
  bare : ∀ s, (net.spines s).switch = {}

theorem peers_foldl_setRoutingEntry (ranks : List Nat) (deviceIndex : Nat) (ep : Endpoint) :
    (ranks.foldl (fun ep rank => ep.setRoutingEntry (UInt16.ofNat rank) deviceIndex) ep).peers = ep.peers :=
  (foldl_entries (fun _ => False) id (fun _ => deviceIndex) ranks ep fun _ _ _ _ => ⟨False.elim, fun _ => rfl⟩).1

theorem Racked.connectSpine (h : Racked npusPerRack (npusPerRack * numRacks) net) (rack : Nat)
    (uplink : Nat × Nat) :
    Racked npusPerRack (npusPerRack * numRacks) (connectSpine npusPerRack numRacks rack net uplink) := by
  obtain ⟨bn, s⟩ := uplink
  refine ⟨?_, ?_⟩
  · intro v w hw
    by_cases hv : v = bn
    · subst hv
      simp only [Topology.connectSpine, Function.update_self, peers_foldl_setRoutingEntry] at hw
      rcases List.mem_append.mp hw with hold | hnew
      · exact h.inRack v w hold
      · rw [List.mem_singleton.mp hnew]
        exact .inl (Nat.le_add_right _ _)
    · simp only [Topology.connectSpine, Function.update_of_ne hv] at hw
      exact h.inRack v w hw
  · intro s'
    by_cases hs : s' = s
    · subst hs
      simp only [Topology.connectSpine, Function.update_self]
      exact h.bare s'
    · simp only [Topology.connectSpine, Function.update_of_ne hs]
      exact h.bare s'

theorem racked_foldl {α : Type*} {f : MultiRack → α → MultiRack}
    (hf : ∀ net a, Racked npusPerRack totalNpus net → Racked npusPerRack totalNpus (f net a))
    (as : List α) (h : Racked npusPerRack totalNpus net)
    : Racked npusPerRack totalNpus (as.foldl f net) := by
  induction as generalizing net with
  | nil => exact h
  | cons a as ih => exact ih (hf net a h)

theorem racked (hbuilt : build2DFullMeshClos rackRows rackCols numRacks numSpineSwitches = .ok net) :
    Racked (rackRows * rackCols) (rackRows * rackCols * numRacks) net := by
  have hinside : Racked (rackRows * rackCols) (rackRows * rackCols * numRacks)
      { endpoints := installLinks (rackLinks rackRows rackCols numRacks) } := by
    refine ⟨fun v w hw => .inr ?_, fun _ => rfl⟩
    rcases linked_of_mem_peers (fun l hl => (rackLinks_inside hl).2.2.1) hw with hl | hl
    · exact (rackLinks_inside hl).2.2.2.symm
    · exact (rackLinks_inside hl).2.2.2
  unfold build2DFullMeshClos at hbuilt
  dsimp only at hbuilt
  split at hbuilt
  · cases hbuilt
  · split at hbuilt
    · cases hbuilt
      refine racked_foldl (fun net rack h => ?_) _ hinside
      exact racked_foldl (fun net uplink h => h.connectSpine rack uplink) _ h
    · cases hbuilt
      exact hinside

/-- A switch without routes floods what comes: it has learned at most the port that the packet came in at. -/
theorem floods (isUp : Nat → Bool) (srcAddr dstAddr : Nat) (srcRank : UInt16) (inPort : Nat) :
    (({} : Switch.NvSwitch).receiveFromPort isUp srcAddr dstAddr srcRank inPort).2 = .flooded := by
  have hlearned : (({} : Switch.NvSwitch).learn srcAddr inPort).macTable dstAddr = none ∨
      (({} : Switch.NvSwitch).learn srcAddr inPort).macTable dstAddr = some inPort := by
    by_cases hsame : dstAddr = srcAddr
    · right
      rw [hsame]
      exact Function.update_self _ _ _
    · left
      exact Function.update_of_ne hsame _ _
  have hfallback : (({} : Switch.NvSwitch).learn srcAddr inPort).fallbackPort isUp dstAddr srcRank inPort =
      none := by
    show Switch.NvSwitch.usable isUp inPort _ = none
    rcases hlearned with hnone | hback
    · rw [hnone]
      rfl
    · rw [hback]
      exact if_neg fun h => h.1 rfl
  unfold Switch.NvSwitch.receiveFromPort
  dsimp only
  split
  · rename_i index hturn
    cases hturn
  · rw [hfallback]
    rfl

theorem not_closHop_of_spine (h : Racked npusPerRack totalNpus net) (hv : totalNpus ≤ v) :
    ¬ ClosHop net totalNpus dst v w := by
  unfold ClosHop
  rw [if_neg (not_lt.mpr hv), h.bare]
  rintro ⟨isUp, srcAddr, dstAddr, srcRank, inPort, outPort, hrouted, -⟩
  rw [floods] at hrouted
  cases hrouted

theorem Racked.walk {k : Nat} (h : Racked npusPerRack totalNpus net) {path : Nat → Nat}
    (hwalk : Walk (ClosHop net totalNpus dst) path k) (hend : path k < totalNpus) :
    path k / npusPerRack = path 0 / npusPerRack := by
  induction k with
  | zero => rfl
  | succ k ih =>
      have hlast := hwalk k (Nat.lt_succ_self k)
      have hhere : path k < totalNpus := by
        by_contra hspine
        exact not_closHop_of_spine h (not_lt.mp hspine) hlast
      unfold ClosHop at hlast
      rw [if_pos hhere] at hlast
      obtain ⟨deviceIndex, -, hpeer⟩ := hlast
      rcases h.inRack _ _ (List.mem_of_getElem? hpeer) with hspine | hsame
      · omega
      · rw [hsame]
        exact ih (fun i hi => hwalk i (Nat.lt_succ_of_lt hi)) hhere

/-! ## When every pair is connected -/

theorem not_connects_racks (hnpus : 0 < rackRows * rackCols) (hracks : 2 ≤ numRacks) :
    ¬ ConnectsEveryPair rackRows rackCols numRacks numSpineSwitches := by
  rintro ⟨net, hbuilt, hall⟩
  have hremote : rackRows * rackCols < rackRows * rackCols * numRacks := by
    calc rackRows * rackCols < rackRows * rackCols * 2 := by omega
      _ ≤ rackRows * rackCols * numRacks := Nat.mul_le_mul_left _ hracks
  obtain ⟨-, path, k, hstart, hend, hwalk, -⟩ := hall 0 (by omega) _ hremote (by omega)
  have hsame := (racked hbuilt).walk hwalk (by rwa [hend])
  rw [hstart, hend, Nat.div_self hnpus, Nat.zero_div] at hsame
  exact Nat.one_ne_zero hsame

theorem rackLinks_one (rackRows rackCols : Nat) :
    rackLinks rackRows rackCols 1 = fullMeshLinks rackRows rackCols := by
  unfold rackLinks
  rw [List.range_one, List.flatMap_singleton]
  simp

theorem build_one (htwo : 2 ≤ rackRows * rackCols) (numSpineSwitches : Nat) :
    build2DFullMeshClos rackRows rackCols 1 numSpineSwitches =
      .ok { endpoints := installLinks (fullMeshLinks rackRows rackCols) } := by
  unfold build2DFullMeshClos
  dsimp only
  rw [Nat.mul_one, if_neg (not_lt.mpr htwo), rackLinks_one]
  exact if_neg fun h => absurd h.1 (Nat.lt_irrefl 1)

theorem installed_fullMesh (hn : rackRows * rackCols ≤ 65535) :
    Installed (fullMeshLinks rackRows rackCols) (installLinks (fullMeshLinks rackRows rackCols)) :=
  installed (n := rackRows * rackCols) (by omega) (proper_fullMeshLinks rackRows rackCols)

theorem not_connects_diagonal (hrows : 2 ≤ rackRows) (hcols : 2 ≤ rackCols) (hn : rackRows * rackCols ≤ 65535) :
    ¬ ConnectsEveryPair rackRows rackCols 1 numSpineSwitches := by
  have hfour : 2 * 2 ≤ rackRows * rackCols := Nat.mul_le_mul hrows hcols
  rintro ⟨net, hbuilt, hall⟩
  rw [build_one (by omega)] at hbuilt
  cases hbuilt
  have hcorner : indexFromCoord rackCols 1 1 < rackRows * rackCols := indexFromCoord_lt hrows hcols
  have hpos : 0 < indexFromCoord rackCols 1 1 := Nat.succ_pos _
  obtain ⟨⟨deviceIndex, hentry⟩, -⟩ := hall 0 (by omega) _ (by rwa [Nat.mul_one]) (by omega)
  have hapart : ¬ Linked (fullMeshLinks rackRows rackCols) 0 (indexFromCoord rackCols 1 1) := by
    intro hlinked
    have horigin : indexFromCoord rackCols 0 0 = 0 := by simp [indexFromCoord]
    rw [← horigin, linked_fullMesh (by omega) (by omega) hrows hcols] at hlinked
    omega
  rw [(installed_fullMesh hn).apart 0 _ (by omega) hapart] at hentry
  cases hentry

theorem connects_line (hline : rackRows = 1 ∨ rackCols = 1) (htwo : 2 ≤ rackRows * rackCols)
    (hn : rackRows * rackCols ≤ 65535) : ConnectsEveryPair rackRows rackCols 1 numSpineSwitches := by
  refine ⟨_, build_one htwo _, fun src hsrc dst hdst hne => ?_⟩
  rw [Nat.mul_one] at hsrc hdst
  obtain ⟨row, hrow, col, hcol, rfl⟩ := exists_coord hsrc
  obtain ⟨row', hrow', col', hcol', rfl⟩ := exists_coord hdst
  have hlinked : Linked (fullMeshLinks rackRows rackCols) (indexFromCoord rackCols row col)
      (indexFromCoord rackCols row' col') := by
    have hapart : ¬ (row = row' ∧ col = col') := fun h => hne ((indexFromCoord_inj hcol hcol').mpr h)
    rw [linked_fullMesh hrow hcol hrow' hcol']
    omega
  have hleads := (installed_fullMesh hn).linked _ _ hlinked
  obtain ⟨deviceIndex, hentry, hpeer⟩ := hleads.entry
  refine ⟨⟨deviceIndex, hentry⟩, fun i => if i = 0 then indexFromCoord rackCols row col else
    indexFromCoord rackCols row' col', 1, rfl, rfl, ?_, ?_⟩
  · intro i hi
    obtain rfl : i = 0 := by omega
    show ClosHop _ _ _ (indexFromCoord rackCols row col) (indexFromCoord rackCols row' col')
    unfold ClosHop
    rw [if_pos (by rwa [Nat.mul_one])]
    exact ⟨deviceIndex, hentry, hpeer⟩
  · intro i hi j hj heq
    dsimp only at heq
    split at heq <;> split at heq
    · omega
    · exact absurd heq hne
    · exact absurd heq.symm hne
    · omega

/-- Every pair is connected exactly if there is one rack, of one row or of one column. -/
theorem connectsEveryPair_iff (hrows : 1 ≤ rackRows) (hcols : 1 ≤ rackCols) (hracks : 1 ≤ numRacks)
    (htwo : 2 ≤ rackRows * rackCols * numRacks) (hn : rackRows * rackCols * numRacks ≤ 65535) :
    ConnectsEveryPair rackRows rackCols numRacks numSpineSwitches ↔
      numRacks = 1 ∧ (rackRows = 1 ∨ rackCols = 1) := by
  constructor
  · intro hconnects
    have hone : numRacks = 1 := by
      by_contra hmany
      exact not_connects_racks (Nat.mul_pos hrows hcols) (by omega) hconnects
    subst hone
    rw [Nat.mul_one] at hn
    refine ⟨rfl, ?_⟩
    by_contra hsquare
    exact not_connects_diagonal (by omega) (by omega) hn hconnects
  · rintro ⟨rfl, hline⟩
    rw [Nat.mul_one] at htwo hn
    exact connects_line hline htwo hn

theorem connectsEveryPair_iff_racks : ConnectsEveryPair 2 3 2 4 ↔ 2 = 1 ∧ (2 = 1 ∨ 3 = 1) :=
  connectsEveryPair_iff (by decide) (by decide) (by decide) (by decide) (by decide)

/-- In one rack of 2 x 2 node 0 has no entry for node 3. With two racks of one node each and a spine, the
spine floods. -/
theorem not_connectsEveryPair : ¬ ConnectsEveryPair 2 2 1 1 ∧ ¬ ConnectsEveryPair 1 1 2 1 :=
  ⟨not_connects_diagonal (by decide) (by decide) (by decide), not_connects_racks (by decide) (by decide)⟩

end ProtoBridge.Topology
