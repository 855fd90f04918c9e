import Mathlib.Data.Nat.ModEq
import ProtoBridge.Topology.Mesh

/-!
# Rings

A node has some lanes to each of its two neighbors, and sends over the first lane of the shorter side.
-/

namespace ProtoBridge.Topology

open Lib
open Function (update update_of_ne update_self)

/-- The endpoints of `BuildRing` and their first devices to the two sides. -/
structure RingBuild where
  net : Network := Network.bare
  cwLogicalDev : Nat → Nat := fun _ => 0
  ccwLogicalDev : Nat → Nat := fun _ => 0

/-- A lane between two nodes. -/
def installLane (net : Network) (i right : Nat) : Network :=
  let net := update net i ((net i).addNetDevice right)
  update net right ((net right).addNetDevice i)

/-- The lanes from a node to its right neighbor. -/
def installEdge (numGpus numLanes : Nat) (b : RingBuild) (i : Nat) : RingBuild :=
  let right := (i + 1) % numGpus
  { net := (List.range numLanes).foldl (fun net _ => installLane net i right) b.net
    cwLogicalDev := update b.cwLogicalDev i (b.net i).getNNetDevices
    ccwLogicalDev := update b.ccwLogicalDev right (b.net right).getNNetDevices }

/-- The device for the shorter side. -/
def ringDevice (numGpus src dst cwDev ccwDev : Nat) : Nat :=
  let cwDist := if dst > src then dst - src else numGpus - src + dst
  let ccwDist := numGpus - cwDist
  if cwDist ≤ ccwDist then cwDev else ccwDev

/-- The loop over the destinations at an endpoint. -/
def ringRoutes (b : RingBuild) (numGpus src : Nat) (dsts : List Nat) : Endpoint :=
  dsts.foldl (fun ep dst =>
    if src = dst then ep
    else ep.setRoutingEntry (UInt16.ofNat dst)
      (ringDevice numGpus src dst (b.cwLogicalDev src) (b.ccwLogicalDev src)))
    (b.net src).clearRoutingTable

/-- `BuildRing`. -/
def buildRing (numGpus numLanes : Nat) : Except BuildAbort Network :=
  if numGpus < 2 then .error .tooFewNodes
  else
    let b := (List.range numGpus).foldl (installEdge numGpus numLanes) {}
    .ok fun src => if src < numGpus then ringRoutes b numGpus src (List.range numGpus) else b.net src

/-- The distance on a ring. -/
def ringDist (n src dst : Nat) : Nat := min (Nat.dist src dst) (n - Nat.dist src dst)

/-- The neighbor on the shorter side. -/
def ringHop (n src dst : Nat) : Nat := ringDevice n src dst ((src + 1) % n) ((src + n - 1) % n)

variable {n numLanes i right src dst v : Nat} {net : Network} {b : RingBuild}

/-! ## Lanes -/

theorem installLane_apply (hne : i ≠ right) (v : Nat) : installLane net i right v =
    if v = i then (net i).addNetDevice right
    else if v = right then (net right).addNetDevice i else net v := by
  unfold installLane
  by_cases hright : v = right
  · rw [hright, update_self, update_of_ne hne.symm, if_neg hne.symm, if_pos rfl]
  · rw [update_of_ne hright, if_neg hright]
    by_cases hv : v = i
    · rw [hv, update_self, if_pos rfl]
    · rw [update_of_ne hv, if_neg hv]

/-- The peers that the lanes of an edge give a node. -/
def lanePeers (i right lanes v : Nat) : List Nat :=
  if v = i then List.replicate lanes right else if v = right then List.replicate lanes i else []

theorem installLanes_peers (hne : i ≠ right) (net : Network) (lanes v : Nat) :
    ((List.range lanes).foldl (fun net _ => installLane net i right) net v).peers =
      (net v).peers ++ lanePeers i right lanes v ∧
    ((List.range lanes).foldl (fun net _ => installLane net i right) net v).routingDevicesTable =
      (net v).routingDevicesTable := by
  induction lanes generalizing v with
  | zero =>
      have hnone : lanePeers i right 0 v = [] := by
        unfold lanePeers
        split_ifs <;> rfl
      rw [hnone, List.append_nil]
      exact ⟨rfl, rfl⟩
  | succ lanes ih =>
      rw [List.range_succ, List.foldl_append, List.foldl_cons, List.foldl_nil, installLane_apply hne]
      unfold lanePeers at ih ⊢
      by_cases hv : v = i
      · obtain ⟨hpeers, hsingle⟩ := ih i
        rw [if_pos rfl] at hpeers
        subst hv
        rw [if_pos rfl, if_pos rfl, List.replicate_succ', ← List.append_assoc, ← hpeers]
        exact ⟨rfl, hsingle⟩
      · by_cases hright : v = right
        · obtain ⟨hpeers, hsingle⟩ := ih right
          rw [if_neg hne.symm, if_pos rfl] at hpeers
          subst hright
          rw [if_neg hv, if_pos rfl, if_neg hv, if_pos rfl, List.replicate_succ', ← List.append_assoc,
            ← hpeers]
          exact ⟨rfl, hsingle⟩
        · obtain ⟨hpeers, hsingle⟩ := ih v
          rw [if_neg hv, if_neg hright] at hpeers
          rw [if_neg hv, if_neg hright, if_neg hv, if_neg hright]
          exact ⟨hpeers, hsingle⟩

theorem right_ne (htwo : 2 ≤ n) (hi : i < n) : i ≠ (i + 1) % n := by
  by_cases hlast : i + 1 = n
  · rw [hlast, Nat.mod_self]
    omega
  · rw [Nat.mod_eq_of_lt (by omega)]
    omega

theorem right_inj {j : Nat} (hi : i < n) (hj : j < n) (h : (i + 1) % n = (j + 1) % n) : i = j := by
  have hsame : i ≡ j [MOD n] := Nat.ModEq.add_right_cancel' 1 h
  exact Nat.ModEq.eq_of_lt_of_lt hsame hi hj

/-- The first devices of the edges lead to their ends. -/
structure Edges (n k : Nat) (b : RingBuild) : Prop where
  cw : ∀ i < k, (b.net i).peers[b.cwLogicalDev i]? = some ((i + 1) % n)
  ccw : ∀ i < k, (b.net ((i + 1) % n)).peers[b.ccwLogicalDev ((i + 1) % n)]? = some i
  single : ∀ v, (b.net v).routingDevicesTable = ∅

theorem Edges.install {k : Nat} (h : Edges n k b) (htwo : 2 ≤ n) (hk : k < n) (hlanes : 1 ≤ numLanes) :
    Edges n (k + 1) (installEdge n numLanes b k) := by
  have hne := right_ne htwo hk
  have hnet := installLanes_peers hne b.net numLanes
  -- a device of before has its peer still
  have hold : ∀ v d peer : Nat, (b.net v).peers[d]? = some peer →
      ((installEdge n numLanes b k).net v).peers[d]? = some peer := by
    intro v d peer hpeer
    show ((List.range numLanes).foldl (fun net _ => installLane net k ((k + 1) % n)) b.net v).peers[d]? = _
    rw [(hnet v).1, List.getElem?_append_left (List.getElem?_eq_some_iff.mp hpeer).1, hpeer]
  -- and the first new one the other end
  have hnew : ∀ v peer : Nat, lanePeers k ((k + 1) % n) numLanes v = List.replicate numLanes peer →
      ((installEdge n numLanes b k).net v).peers[(b.net v).getNNetDevices]? = some peer := by
    intro v peer hlane
    show ((List.range numLanes).foldl (fun net _ => installLane net k ((k + 1) % n)) b.net v).peers[
      (b.net v).peers.length]? = _
    rw [(hnet v).1, List.getElem?_append_right (Nat.le_refl _), Nat.sub_self, hlane,
      List.getElem?_replicate, if_pos (by omega)]
  refine ⟨?_, ?_, ?_⟩
  · intro i hi
    show ((installEdge n numLanes b k).net i).peers[
      update b.cwLogicalDev k (b.net k).getNNetDevices i]? = _
    by_cases hlast : i = k
    · rw [hlast, update_self]
      exact hnew k _ (if_pos rfl)
    · rw [update_of_ne hlast]
      exact hold i _ _ (h.cw i (by omega))
  · intro i hi
    show ((installEdge n numLanes b k).net ((i + 1) % n)).peers[
      update b.ccwLogicalDev ((k + 1) % n) (b.net ((k + 1) % n)).getNNetDevices ((i + 1) % n)]? = _
    by_cases hlast : i = k
    · rw [hlast, update_self]
      refine hnew _ k ?_
      unfold lanePeers
      rw [if_neg hne.symm, if_pos rfl]
    · rw [update_of_ne fun hsame => hlast (right_inj (by omega) hk hsame)]
      exact hold _ _ _ (h.ccw i (by omega))
  · intro v
    exact (hnet v).2.trans (h.single v)

theorem edges_all (htwo : 2 ≤ n) (hlanes : 1 ≤ numLanes) (k : Nat) (hk : k ≤ n) :
    Edges n k ((List.range k).foldl (installEdge n numLanes) {}) := by
  induction k with
  | zero =>
      exact ⟨fun i hi => absurd hi (Nat.not_lt_zero i), fun i hi => absurd hi (Nat.not_lt_zero i),
        fun _ => rfl⟩
  | succ k ih =>
      rw [List.range_succ, List.foldl_append]
      exact (ih (by omega)).install htwo hk hlanes

theorem Edges.leads (h : Edges n n b) (hsrc : src < n) (dst : Nat) :
    (b.net src).peers[ringDevice n src dst (b.cwLogicalDev src) (b.ccwLogicalDev src)]? =
      some (ringHop n src dst) := by
  unfold ringHop ringDevice
  dsimp only
  by_cases hside : (if dst > src then dst - src else n - src + dst) ≤
      n - if dst > src then dst - src else n - src + dst
  · rw [if_pos hside, if_pos hside]
    exact h.cw src hsrc
  · rw [if_neg hside, if_neg hside]
    have hback : ((src + n - 1) % n + 1) % n = src := by
      rw [Nat.mod_add_mod, show src + n - 1 + 1 = src + n by omega, Nat.add_mod_right]
      exact Nat.mod_eq_of_lt hsrc
    have hccw := h.ccw ((src + n - 1) % n) (Nat.mod_lt _ (by omega))
    rwa [hback] at hccw

/-! ## Routes -/

theorem ringRoutes_lookup (b : RingBuild) (n src : Nat) {dsts : List Nat} (hranks : ∀ dst ∈ dsts, dst < 2 ^ 16) :
    (∀ dst ∈ dsts, src ≠ dst → (ringRoutes b n src dsts).routingTable.lookup (UInt16.ofNat dst) =
      some (ringDevice n src dst (b.cwLogicalDev src) (b.ccwLogicalDev src))) ∧
    (ringRoutes b n src dsts).peers = (b.net src).peers ∧
    (ringRoutes b n src dsts).routingDevicesTable = (b.net src).routingDevicesTable := by
  induction dsts using List.reverseRecOn with
  | nil => exact ⟨(fun _ hmem => nomatch hmem), rfl, rfl⟩
  | append_singleton dsts last ih =>
      obtain ⟨hlookup, hpeers, hsingle⟩ := ih fun d hd => hranks d (List.mem_append_left _ hd)
      have hlast : ringRoutes b n src (dsts ++ [last]) =
          if src = last then ringRoutes b n src dsts
          else (ringRoutes b n src dsts).setRoutingEntry (UInt16.ofNat last)
            (ringDevice n src last (b.cwLogicalDev src) (b.ccwLogicalDev src)) := by
        unfold ringRoutes
        rw [List.foldl_append]
        rfl
      rw [hlast]
      split
      · rename_i hself
        refine ⟨?_, hpeers, hsingle⟩
        intro dst hdst hne
        rcases List.mem_append.mp hdst with hold | hnew
        · exact hlookup dst hold hne
        · rw [List.mem_singleton] at hnew
          exact absurd (hself.trans hnew.symm) hne
      · refine ⟨?_, hpeers, hsingle⟩
        intro dst hdst hne
        by_cases hnew : dst = last
        · rw [hnew]
          exact AList.lookup_insert _
        · have hold : dst ∈ dsts := by
            rcases List.mem_append.mp hdst with hold | hsame
            · exact hold
            · exact absurd (List.mem_singleton.mp hsame) hnew
          have hkey : UInt16.ofNat dst ≠ UInt16.ofNat last := by
            intro hkey
            refine hnew ((rank_inj (hranks dst hdst) (hranks last ?_)).mp hkey)
            exact List.mem_append_right _ (List.mem_singleton.mpr rfl)
          exact (AList.lookup_insert_ne hkey).trans (hlookup dst hold hne)

theorem ringDist_hop (hsrc : src < n) (hdst : dst < n) (hne : src ≠ dst) :
    ringHop n src dst < n ∧ ringDist n (ringHop n src dst) dst + 1 = ringDist n src dst := by
  have hup : (src + 1) % n = if src + 1 = n then 0 else src + 1 := by
    split
    · rename_i hlast
      rw [hlast, Nat.mod_self]
    · exact Nat.mod_eq_of_lt (by omega)
  have hdown : (src + n - 1) % n = if src = 0 then n - 1 else src - 1 := by
    split
    · rename_i hfirst
      rw [hfirst, Nat.zero_add]
      exact Nat.mod_eq_of_lt (by omega)
    · rw [show src + n - 1 = src - 1 + n by omega, Nat.add_mod_right]
      exact Nat.mod_eq_of_lt (by omega)
  unfold ringHop ringDevice ringDist Nat.dist
  rw [hup, hdown]
  dsimp only
  split_ifs <;> omega

theorem ring_routes (htwo : 2 ≤ n) (hnodes : n ≤ 65535) (hlanes : 1 ≤ numLanes) :
    ∃ net, buildRing n numLanes = .ok net ∧ ShortestRoutes net n (ringDist n) := by
  have hedges := edges_all htwo hlanes n (Nat.le_refl n)
  refine ⟨_, if_neg (by omega), ?_⟩
  generalize (List.range n).foldl (installEdge n numLanes) {} = b at hedges
  refine shortestRoutes_of_closer (ringHop n) (by omega) ?_ ?_ fun src hsrc dst hdst => ringDist_hop hsrc hdst
  · intro src hsrc dst hdst hne
    have hranks : ∀ dst ∈ List.range n, dst < 2 ^ 16 := by
      intro dst hdst
      rw [List.mem_range] at hdst
      omega
    obtain ⟨hlookup, hpeers, hsingle⟩ := ringRoutes_lookup b n src hranks
    rw [if_pos hsrc]
    refine ⟨⟨_, hlookup dst (List.mem_range.mpr hdst) hne, ?_⟩, hsingle.trans (hedges.single src)⟩
    rw [hpeers]
    exact hedges.leads hsrc dst
  · intro src hsrc dst hdst
    unfold ringDist Nat.dist
    omega

end ProtoBridge.Topology
