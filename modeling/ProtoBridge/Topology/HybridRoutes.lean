import ProtoBridge.Topology.Hybrid

/-!
# Routes between linked fabrics

The last link between two fabrics decides: all their GPUs send what is for the other one to its gateway, by
the entry that they have for it. GPUs around a switch have none.
-/

namespace ProtoBridge.Topology

open Lib
open Function (update update_apply update_of_ne update_self)

variable {fabrics : List FabricConfig} {links done : List CrossFabricLink} {f g f1 f2 : FabricConfig}
  {l : CrossFabricLink} {net net0 : Network} {ep : Endpoint} {a b i j v w dst d n : Nat} {key : UInt16}

/-! ## Inside of a fabric -/

theorem setEntries_entries (ranks : List Nat) (d : Nat) (ep : Endpoint) :
    (setEntries ranks d ep).peers = ep.peers ∧ ∀ key, (setEntries ranks d ep).routingTable.lookup key =
      if key ∈ ranks.map UInt16.ofNat then some d else ep.routingTable.lookup key := by
  obtain ⟨hpeers, hentries⟩ := foldl_entries (fun _ => False) id (fun _ => d) ranks ep
    fun _ _ _ _ => ⟨False.elim, fun _ => rfl⟩
  refine ⟨hpeers, fun key => ?_⟩
  rcases hentries key with ⟨rank, hrank, -, hkey, hentry⟩ | ⟨hout, hentry⟩
  · rw [if_pos (hkey ▸ List.mem_map_of_mem hrank)]
    exact hentry
  · rw [if_neg]
    · exact hentry
    · intro hmem
      obtain ⟨rank, hrank, hkey⟩ := List.mem_map.mp hmem
      exact hout rank hrank id hkey

namespace FabricConfig

theorem mem_ranks (hf : f.baseRank + f.numGpus ≤ 2 ^ 16) (hv : v < 2 ^ 16) :
    UInt16.ofNat v ∈ f.ranks.map UInt16.ofNat ↔ f.Has v := by
  unfold ranks Has
  simp only [List.mem_map, List.mem_range]
  constructor
  · rintro ⟨rank, ⟨i, hi, rfl⟩, heq⟩
    have := (rank_inj (by omega) hv).mp heq
    omega
  · rintro ⟨hlow, hhigh⟩
    exact ⟨v, ⟨v - f.baseRank, by omega, by omega⟩, rfl⟩

theorem routes_lookup (hf : f.baseRank + f.numGpus ≤ 2 ^ 16) (checked : Bool) (device : Nat → Nat)
    (hdevice : ∀ j < f.numGpus, i ≠ j → device j < ep.peers.length)
    (hempty : ∀ key, ep.routingTable.lookup key = none) :
    (f.routes checked i device ep).peers = ep.peers ∧
      (∀ j < f.numGpus, i ≠ j →
        (f.routes checked i device ep).routingTable.lookup (UInt16.ofNat (f.baseRank + j)) = some (device j)) ∧
      ∀ v < 2 ^ 16, (∀ j < f.numGpus, i ≠ j → v ≠ f.baseRank + j) →
        (f.routes checked i device ep).routingTable.lookup (UInt16.ofNat v) = none := by
  obtain ⟨hpeers, hentries⟩ := foldl_entries (fun j => i = j) (fun j => f.baseRank + j) device
    (List.range f.numGpus) ep (f := fun ep j =>
      if i = j ∨ (checked ∧ ¬ ep.getNNetDevices > device j) then ep
      else ep.setRoutingEntry (UInt16.ofNat (f.baseRank + j)) (device j)) (by
    intro ep' hep j hj
    refine ⟨fun hself => if_pos (.inl hself), fun hother => if_neg ?_⟩
    rintro (hself | ⟨-, hmissing⟩)
    · exact hother hself
    · refine hmissing ?_
      rw [Endpoint.getNNetDevices, hep]
      exact hdevice j (List.mem_range.mp hj) hother)
  refine ⟨hpeers, fun j hj hne => ?_, fun v hv hout => ?_⟩
  · rcases hentries (UInt16.ofNat (f.baseRank + j)) with ⟨j', hj', -, hkey, hentry⟩ | ⟨hout, -⟩
    · rw [List.mem_range] at hj'
      have := (rank_inj (by omega) (by omega)).mp hkey
      obtain rfl : j' = j := by omega
      exact hentry
    · exact absurd rfl (hout j (List.mem_range.mpr hj) hne)
  · rcases hentries (UInt16.ofNat v) with ⟨j, hj, hne, hkey, -⟩ | ⟨-, hentry⟩
    · rw [List.mem_range] at hj
      exact absurd ((rank_inj (by omega) hv).mp hkey).symm (hout j hj hne)
    · exact hentry.trans (hempty _)

/-- The next GPU on the way. -/
def hop (f : FabricConfig) (i j : Nat) : Nat := if f.topologyType = .ring then ringHop f.numGpus i j else j

/-- How far it is. -/
def dist (f : FabricConfig) (i j : Nat) : Nat :=
  if f.topologyType = .ring then ringDist f.numGpus i j else if i = j then 0 else 1

theorem dist_eq_zero (hi : i < f.numGpus) (hj : j < f.numGpus) : f.dist i j = 0 ↔ i = j := by
  unfold dist ringDist Nat.dist
  split
  · omega
  · split
    · exact ⟨fun _ => ‹_›, fun _ => rfl⟩
    · exact ⟨fun h => absurd h Nat.one_ne_zero, fun h => absurd h ‹_›⟩

theorem dist_hop (hi : i < f.numGpus) (hj : j < f.numGpus) (hne : i ≠ j) :
    f.hop i j < f.numGpus ∧ f.dist (f.hop i j) j + 1 = f.dist i j := by
  unfold hop dist
  split
  · exact ringDist_hop hi hj hne
  · rw [if_pos rfl]
    exact ⟨hj, rfl⟩

theorem foldl_installLane_peers {lanes : List (Nat × Nat)} (hproper : ∀ l ∈ lanes, l.1 ≠ l.2) (v : Nat) :
    (lanes.foldl (fun net l => installLane net l.1 l.2) Network.bare v).peers =
      lanes.filterMap fun l => if v = l.1 then some l.2 else if v = l.2 then some l.1 else none := by
  induction lanes using List.reverseRecOn with
  | nil => rfl
  | append_singleton lanes l ih =>
      have hbefore := ih fun l hl => hproper l (List.mem_append_left _ hl)
      have hne := hproper l (List.mem_append_right _ (List.mem_singleton.mpr rfl))
      rw [List.foldl_append, List.foldl_cons, List.foldl_nil, installLane_apply hne, List.filterMap_append,
        ← hbefore]
      by_cases hfirst : v = l.1
      · rw [if_pos hfirst, hfirst]
        simp [Endpoint.addNetDevice]
      · by_cases hsecond : v = l.2
        · rw [if_neg hfirst, if_pos hsecond, hsecond]
          simp [Endpoint.addNetDevice, hne.symm]
        · rw [if_neg hfirst, if_neg hsecond]
          simp [hfirst, hsecond]

/-- In a full mesh a GPU has devices for the GPUs before it, and then for those behind it. -/
theorem meshLinks_peers (hv : v < f.numGpus) :
    (f.meshLinks.filterMap fun l => if v = l.1 then some l.2 else if v = l.2 then some l.1 else none) =
      List.range v ++ List.range' (v + 1) (f.numGpus - (v + 1)) := by
  unfold meshLinks
  rw [List.filterMap_flatMap]
  simp only [List.filterMap_map, Function.comp_def]
  have hbefore : ∀ i < v, ((List.range' (i + 1) (f.numGpus - (i + 1))).filterMap fun j =>
      if v = i then some j else if v = j then some i else none) = [i] := by
    intro i hi
    have hsplit : List.range' (i + 1) (f.numGpus - (i + 1)) =
        List.range' (i + 1) (v - (i + 1)) ++ v :: List.range' (v + 1) (f.numGpus - (v + 1)) := by
      rw [← List.range'_succ, show f.numGpus - (i + 1) = (v - (i + 1)) + (f.numGpus - (v + 1) + 1) by omega,
        ← List.range'_append_1, show i + 1 + (v - (i + 1)) = v by omega]
    have hnone : ∀ m n, (∀ j ∈ List.range' m n, v ≠ j) → ((List.range' m n).filterMap fun j =>
        if v = i then some j else if v = j then some i else none) = [] := by
      intro m n hout
      refine List.filterMap_eq_nil_iff.mpr fun j hj => ?_
      rw [if_neg (by omega), if_neg (hout j hj)]
    rw [hsplit, List.filterMap_append, List.filterMap_cons, hnone, hnone, if_neg (by omega), if_pos rfl]
    · rfl
    · intro j hj
      have := List.mem_range'_1.mp hj
      omega
    · intro j hj
      have := List.mem_range'_1.mp hj
      omega
  have hbehind : ∀ i, v < i → ((List.range' (i + 1) (f.numGpus - (i + 1))).filterMap fun j =>
      if v = i then some j else if v = j then some i else none) = [] := by
    intro i hi
    refine List.filterMap_eq_nil_iff.mpr fun j hj => ?_
    have := List.mem_range'_1.mp hj
    rw [if_neg (by omega), if_neg (by omega)]
  have hrows : List.range f.numGpus = List.range v ++ v :: List.range' (v + 1) (f.numGpus - (v + 1)) := by
    rw [← List.range'_succ, List.range_eq_range', List.range_eq_range']
    conv_lhs => rw [show f.numGpus = v + (f.numGpus - (v + 1) + 1) by omega, ← List.range'_append_1, Nat.zero_add]
  conv_lhs => rw [hrows, List.flatMap_append, List.flatMap_cons]
  congr 1
  · rw [List.flatMap_congr fun i hi => hbefore i (List.mem_range.mp hi)]
    exact List.flatMap_singleton' _
  · rw [List.flatMap_congr fun i hi => hbehind i (by
      have := List.mem_range'_1.mp hi
      omega)]
    simp

theorem ringDevice_eq (_ : i < f.numGpus) (_ : j < f.numGpus) (_ : i ≠ j) (cw ccw : Nat) :
    f.ringDevice i j cw ccw = Topology.ringDevice f.numGpus i j cw ccw := by
  unfold ringDevice Topology.ringDevice
  dsimp only
  split_ifs <;> first | rfl | omega

/-- A GPU of a ring or full mesh has entries for the others, along the way; none has one for itself, nor one
around a switch any. -/
structure Entries (f : FabricConfig) (i : Nat) (ep : Endpoint) : Prop where
  leads : f.topologyType ≠ .switch → ∀ j < f.numGpus, i ≠ j → ∃ d,
    ep.routingTable.lookup (UInt16.ofNat (f.baseRank + j)) = some d ∧
      ep.peers[d]? = some (f.baseRank + f.hop i j)
  none : ∀ v < 2 ^ 16, (f.topologyType = .switch ∨ v = f.baseRank + i) →
    ep.routingTable.lookup (UInt16.ofNat v) = Option.none

theorem entries_routes (hf : f.baseRank + f.numGpus ≤ 2 ^ 16) (hkind : f.topologyType ≠ .switch)
    {peers : List Nat} {device : Nat → Nat} (checked : Bool)
    (hdevice : ∀ j < f.numGpus, i ≠ j → peers[device j]? = some (f.hop i j)) :
    f.Entries i (f.routes checked i device { peers := peers.map fun j => f.baseRank + j }) := by
  have hleads : ∀ j < f.numGpus, i ≠ j → (peers.map fun j => f.baseRank + j)[device j]? =
      some (f.baseRank + f.hop i j) := by
    intro j hj hne
    rw [List.getElem?_map, hdevice j hj hne]
    rfl
  have hreal : ∀ j < f.numGpus, i ≠ j → device j < (peers.map fun j => f.baseRank + j).length :=
    fun j hj hne => (List.getElem?_eq_some_iff.mp (hleads j hj hne)).1
  have hempty : ∀ key, ({ peers := peers.map fun j => f.baseRank + j } : Endpoint).routingTable.lookup key =
      Option.none := AList.lookup_empty
  obtain ⟨hpeers, hset, hnone⟩ := routes_lookup hf checked device hreal hempty
  refine ⟨fun _ j hj hne => ⟨_, hset j hj hne, ?_⟩, fun v hv hcase => hnone v hv ?_⟩
  · rw [hpeers]
    exact hleads j hj hne
  · rintro j hj hne rfl
    rcases hcase with hswitch | hsame
    · exact hkind hswitch
    · omega

theorem entries_endpoint (hf : f.baseRank + f.numGpus ≤ 2 ^ 16)
    (hring : f.topologyType = .ring → 2 ≤ f.numGpus) (hi : i < f.numGpus) : f.Entries i (f.endpoint i) := by
  unfold endpoint
  split
  · rename_i hkind
    have hedges := edges_all (hring hkind) (Nat.le_refl 1) f.numGpus (Nat.le_refl _)
    refine entries_routes hf (by rw [hkind]; exact nofun) true fun j hj hne => ?_
    rw [ringDevice_eq hi hj hne, hedges.leads hi j, hop, if_pos hkind]
  · rename_i hkind
    have hproper : ∀ l ∈ f.meshLinks, l.1 ≠ l.2 := by
      intro l hl
      simp only [meshLinks, List.mem_flatMap, List.mem_map] at hl
      obtain ⟨i, -, j, hj, rfl⟩ := hl
      have := List.mem_range'_1.mp hj
      show i ≠ j
      omega
    refine entries_routes hf (by rw [hkind]; exact nofun) false fun j hj hne => ?_
    have hhop : f.hop i j = j := if_neg (by rw [hkind]; exact nofun)
    rw [foldl_installLane_peers hproper, meshLinks_peers hi, hhop]
    split
    · rename_i hbefore
      rw [List.getElem?_append_left (by rwa [List.length_range])]
      exact List.getElem?_range hbefore
    · rw [List.getElem?_append_right (by rw [List.length_range]; omega), List.length_range,
        List.getElem?_range' (by omega)]
      congr 1
      omega
  · rename_i hkind
    exact ⟨fun h => absurd hkind h, fun v _ _ => AList.lookup_empty _⟩

end FabricConfig

/-! ## Fabrics and links -/

theorem at_most_one (h : Admissible fabrics links) (hf : fabrics[a]? = some f) (hg : fabrics[b]? = some g)
    (hv : f.Has v) (hv' : g.Has v) : a = b := by
  obtain ⟨ha, rfl⟩ := List.getElem?_eq_some_iff.mp hf
  obtain ⟨hb, rfl⟩ := List.getElem?_eq_some_iff.mp hg
  rcases Nat.lt_trichotomy a b with hlt | heq | hlt
  · exact absurd hv' (List.pairwise_iff_getElem.mp h.apart a b ha hb hlt v hv)
  · exact heq
  · exact absurd hv (List.pairwise_iff_getElem.mp h.apart b a hb ha hlt v hv')

theorem rank_lt (h : Admissible fabrics links) (hf : fabrics[a]? = some f) (hv : f.Has v) : v < 2 ^ 16 :=
  hv.2.trans_le (h.ranks f (List.mem_of_getElem? hf))

theorem build_at (hapart : fabrics.Pairwise fun f g => ∀ v, f.Has v → ¬ g.Has v) (hf : f ∈ fabrics)
    (hv : f.Has v) : fabrics.foldl buildFabric Network.bare v = f.endpoint (v - f.baseRank) := by
  induction fabrics using List.reverseRecOn with
  | nil => exact nomatch hf
  | append_singleton fabrics g ih =>
      obtain ⟨hbefore, -, hlast⟩ := List.pairwise_append.mp hapart
      rw [List.foldl_append, List.foldl_cons, List.foldl_nil, buildFabric]
      rcases List.mem_append.mp hf with hold | hnew
      · rw [if_neg (hlast f hold g (List.mem_singleton.mpr rfl) v hv)]
        exact ih hbefore hold
      · rw [← List.mem_singleton.mp hnew, if_pos hv]

namespace CrossFabricLink

/-- The link, seen from its other end. -/
def reversed (l : CrossFabricLink) : CrossFabricLink :=
  ⟨l.fabric2Id, l.fabric1Id, l.gateway2Rank, l.gateway1Rank, l.gw2DeviceIndex, l.gw1DeviceIndex⟩

/-- The link before it has devices. -/
def planned (l : CrossFabricLink) : CrossFabricLink := { l with gw1DeviceIndex := 0, gw2DeviceIndex := 0 }

/-- The link, seen from one of its ends, is one of these. -/
def Side (links : List CrossFabricLink) (l : CrossFabricLink) : Prop := l ∈ links ∨ l.reversed ∈ links

theorem Joins.reversed (hl : Joins fabrics l f g) : Joins fabrics l.reversed g f :=
  ⟨hl.second, hl.first, hl.gateway2, hl.gateway1⟩

theorem Joins.apart (hl : Joins fabrics l f g) (h : Admissible fabrics links)
    (hne : l.fabric1Id ≠ l.fabric2Id) (hv : f.Has v) : ¬ g.Has v := fun hv' =>
  hne (at_most_one h hl.first hl.second hv hv')

/-- Each of the links joins two fabrics. -/
def Joined (fabrics : List FabricConfig) (links : List CrossFabricLink) : Prop :=
  ∀ l ∈ links, l.fabric1Id ≠ l.fabric2Id ∧ ∃ f g, Joins fabrics l f g

theorem Joined.side (hjoined : Joined fabrics links) (hl : Side links l) :
    l.fabric1Id ≠ l.fabric2Id ∧ ∃ f g, Joins fabrics l f g := by
  rcases hl with hl | hl
  · exact hjoined l hl
  · obtain ⟨hne, g, f, hjoins⟩ := hjoined _ hl
    exact ⟨hne.symm, f, g, hjoins.reversed⟩

/-- The devices of the link lead to the gateways. -/
def Leads (net : Network) (l : CrossFabricLink) : Prop :=
  (net l.gateway1Rank).peers[l.gw1DeviceIndex]? = some l.gateway2Rank ∧
    (net l.gateway2Rank).peers[l.gw2DeviceIndex]? = some l.gateway1Rank

end CrossFabricLink

open CrossFabricLink

/-- The links are installed: endpoints have got devices, but no entries. -/
structure Laid (links : List CrossFabricLink) (net0 : Network) (s : Network × List CrossFabricLink) : Prop where
  tables : ∀ v, (s.1 v).routingTable = (net0 v).routingTable
  peers : ∀ v, (net0 v).peers <+: (s.1 v).peers
  planned : s.2.map planned = links.map planned
  leads : ∀ l ∈ s.2, Leads s.1 l

theorem getElem?_of_grown {α : Type} {xs ys : List α} {x : α} (h : xs <+: ys) (hx : xs[i]? = some x) :
    ys[i]? = some x := by
  obtain ⟨zs, rfl⟩ := h
  exact (List.getElem?_append_left (List.getElem?_eq_some_iff.mp hx).1).trans hx

theorem laid (hjoins : ∀ l ∈ links, l.gateway1Rank ≠ l.gateway2Rank ∧ ∃ f g, Joins fabrics l f g) :
    Laid links net0 (links.foldl (buildCrossFabricLink fabrics) (net0, [])) := by
  induction links using List.reverseRecOn with
  | nil => exact ⟨fun _ => rfl, fun _ => List.prefix_rfl, rfl, fun l hl => nomatch hl⟩
  | append_singleton links l ih =>
      have h := ih fun l hl => hjoins l (List.mem_append_left _ hl)
      obtain ⟨hne, f, g, hl⟩ := hjoins l (List.mem_append_right _ (List.mem_singleton.mpr rfl))
      rw [List.foldl_append, List.foldl_cons, List.foldl_nil]
      generalize links.foldl (buildCrossFabricLink fabrics) (net0, []) = s at h
      unfold buildCrossFabricLink
      rw [hl.first, hl.second]
      dsimp only
      rw [if_pos ⟨hl.gateway1, hl.gateway2⟩]
      have hat : ∀ v, update (update s.1 l.gateway1Rank
          ((s.1 l.gateway1Rank).addNetDevice l.gateway2Rank)) l.gateway2Rank
          ((s.1 l.gateway2Rank).addNetDevice l.gateway1Rank) v =
            if v = l.gateway2Rank then (s.1 v).addNetDevice l.gateway1Rank
            else if v = l.gateway1Rank then (s.1 v).addNetDevice l.gateway2Rank else s.1 v := by
        intro v
        simp only [update_apply]
        split_ifs with h2 h1
        · rw [h2]
        · rw [h1]
        · rfl
      rw [update_of_ne hne.symm]
      generalize update _ l.gateway2Rank _ = net at hat
      have hgrown : ∀ v, (net v).routingTable = (s.1 v).routingTable ∧ (s.1 v).peers <+: (net v).peers := by
        intro v
        rw [hat]
        split_ifs
        · exact ⟨rfl, List.prefix_append _ _⟩
        · exact ⟨rfl, List.prefix_append _ _⟩
        · exact ⟨rfl, List.prefix_rfl⟩
      refine ⟨fun v => (hgrown v).1.trans (h.tables v), fun v => (h.peers v).trans (hgrown v).2, ?_, ?_⟩
      · rw [List.map_append, List.map_append, h.planned]
        rfl
      · intro l' hl'
        rcases List.mem_append.mp hl' with hold | hnew
        · obtain ⟨hfirst, hsecond⟩ := h.leads l' hold
          exact ⟨getElem?_of_grown (hgrown _).2 hfirst, getElem?_of_grown (hgrown _).2 hsecond⟩
        · obtain rfl := List.mem_singleton.mp hnew
          constructor
          · show (net l.gateway1Rank).peers[(s.1 l.gateway1Rank).peers.length]? = some l.gateway2Rank
            rw [hat, if_neg hne, if_pos rfl]
            exact List.getElem?_concat_length
          · show (net l.gateway2Rank).peers[(s.1 l.gateway2Rank).peers.length]? = some l.gateway1Rank
            rw [hat, if_pos rfl]
            exact List.getElem?_concat_length

/-- The device of the gateway of a link, elsewhere the one for what is for the gateway. -/
def CrossFabricLink.deviceAt (l : CrossFabricLink) (net : Network) (v : Nat) : Nat :=
  if v = l.gateway1Rank then l.gw1DeviceIndex
  else (net v).getRoutingDeviceIndex (UInt16.ofNat l.gateway1Rank)

theorem routeOthers_at {gatewayRank : Nat} (hv : f.Has v) (hne : v ≠ gatewayRank) :
    routeOthers f g gatewayRank net v =
      setEntries g.ranks ((net v).getRoutingDeviceIndex (UInt16.ofNat gatewayRank)) (net v) :=
  if_pos ⟨hv, hne⟩

theorem routeOthers_else {gatewayRank : Nat} (hv : f.Has v → v = gatewayRank) :
    routeOthers f g gatewayRank net v = net v :=
  if_neg fun h => h.2 (hv h.1)

theorem populateLink_apply (hl : Joins fabrics l f g) (hapart : ∀ v, f.Has v → ¬ g.Has v) (v : Nat) :
    populateLink fabrics net l v =
      if f.Has v then setEntries g.ranks (l.deviceAt net v) (net v)
      else if g.Has v then setEntries f.ranks (l.reversed.deviceAt net v) (net v)
      else net v := by
  have hne : l.gateway1Rank ≠ l.gateway2Rank := by
    intro heq
    exact hapart _ hl.gateway1 (heq ▸ hl.gateway2)
  unfold populateLink
  rw [hl.first, hl.second]
  dsimp only
  rw [update_of_ne hne.symm]
  by_cases hf : f.Has v
  · have hv : v ≠ l.gateway2Rank := by
      rintro rfl
      exact hapart _ hf hl.gateway2
    rw [routeOthers_else fun hg => absurd hg (hapart v hf), if_pos hf]
    unfold deviceAt
    by_cases hgateway : v = l.gateway1Rank
    · rw [routeOthers_else fun _ => hgateway, if_pos hgateway, update_of_ne hv, hgateway,
        update_self]
    · rw [routeOthers_at hf hgateway, if_neg hgateway, update_of_ne hv,
        update_of_ne hgateway]
  · have hv : v ≠ l.gateway1Rank := by
      rintro rfl
      exact hf hl.gateway1
    rw [if_neg hf]
    by_cases hg : g.Has v
    · rw [if_pos hg]
      unfold deviceAt
      by_cases hgateway : v = l.gateway2Rank
      · rw [routeOthers_else fun _ => hgateway, routeOthers_else fun h => absurd h hf,
          if_pos (show v = l.reversed.gateway1Rank from hgateway), hgateway, update_self]
        rfl
      · rw [routeOthers_at hg hgateway, routeOthers_else fun h => absurd h hf,
          if_neg (show v ≠ l.reversed.gateway1Rank from hgateway), update_of_ne hgateway,
          update_of_ne hv]
        rfl
    · have hv' : v ≠ l.gateway2Rank := by
        rintro rfl
        exact hg hl.gateway2
      rw [routeOthers_else fun h => absurd h hg, routeOthers_else fun h => absurd h hf, if_neg hg,
        update_of_ne hv', update_of_ne hv]

theorem populateLink_sets (h : Admissible fabrics links) (hne : l.fabric1Id ≠ l.fabric2Id)
    (hl : Joins fabrics l f g) (hv : f.Has v) (hw : g.Has w) :
    (populateLink fabrics net l v).routingTable.lookup (UInt16.ofNat w) = some (l.deviceAt net v) := by
  have hmem := (FabricConfig.mem_ranks (h.ranks g (List.mem_of_getElem? hl.second))
    (rank_lt h hl.second hw)).mpr hw
  rw [populateLink_apply hl fun _ => hl.apart h hne, if_pos hv, (setEntries_entries _ _ _).2, if_pos hmem]

theorem populateLink_reversed (h : Admissible fabrics links) (hne : l.fabric1Id ≠ l.fabric2Id)
    (hl : Joins fabrics l f g) : populateLink fabrics net l.reversed = populateLink fabrics net l := by
  have hapart : ∀ v, f.Has v → ¬ g.Has v := fun _ => hl.apart h hne
  funext v
  rw [populateLink_apply hl hapart, populateLink_apply hl.reversed fun v hv hv' => hapart v hv' hv]
  by_cases hf : f.Has v
  · rw [if_neg (hapart v hf), if_pos hf, if_pos hf]
    rfl
  · rw [if_neg hf, if_neg hf]

theorem populateLink_keeps (h : Admissible fabrics links) (hne : l.fabric1Id ≠ l.fabric2Id)
    (hl : Joins fabrics l f g) :
    (populateLink fabrics net l v).peers = (net v).peers ∧
      ∀ w < 2 ^ 16, ¬ (f.Has v ∧ g.Has w) → ¬ (g.Has v ∧ f.Has w) →
        (populateLink fabrics net l v).routingTable.lookup (UInt16.ofNat w) =
          (net v).routingTable.lookup (UInt16.ofNat w) := by
  have hf := h.ranks f (List.mem_of_getElem? hl.first)
  have hg := h.ranks g (List.mem_of_getElem? hl.second)
  rw [populateLink_apply hl fun _ => hl.apart h hne]
  split_ifs with hv hv'
  · refine ⟨(setEntries_entries _ _ _).1, fun w hw hout _ => ?_⟩
    rw [(setEntries_entries _ _ _).2, if_neg fun hmem => hout ⟨hv, (FabricConfig.mem_ranks hg hw).mp hmem⟩]
  · refine ⟨(setEntries_entries _ _ _).1, fun w hw _ hout => ?_⟩
    rw [(setEntries_entries _ _ _).2, if_neg fun hmem => hout ⟨hv', (FabricConfig.mem_ranks hf hw).mp hmem⟩]
  · exact ⟨rfl, fun _ _ _ _ => rfl⟩

/-- What `PopulateCrossFabricRouting` has done after some links: entries within a fabric are as before, and
those from fabric to fabric are all for the same one of the links between them. -/
structure Populated (fabrics : List FabricConfig) (net1 : Network) (links : List CrossFabricLink)
    (net : Network) : Prop where
  peers : ∀ v, (net v).peers = (net1 v).peers
  own : ∀ {c : Nat} {f : FabricConfig}, fabrics[c]? = some f → ∀ v, f.Has v → ∀ w, f.Has w →
    (net v).routingTable.lookup (UInt16.ofNat w) = (net1 v).routingTable.lookup (UInt16.ofNat w)
  remote : ∀ l, Side links l → ∃ l', Side links l' ∧ l'.fabric1Id = l.fabric1Id ∧ l'.fabric2Id = l.fabric2Id ∧
    ∀ f g, Joins fabrics l' f g → ∀ v, f.Has v → ∀ w, g.Has w →
      (net v).routingTable.lookup (UInt16.ofNat w) = some (l'.deviceAt net1 v)

theorem populated (h : Admissible fabrics links) (hjoined : Joined fabrics done) (net1 : Network) :
    Populated fabrics net1 done (done.foldl (populateLink fabrics) net1) := by
  induction done using List.reverseRecOn with
  | nil =>
      refine ⟨fun _ => rfl, fun _ _ _ _ _ => rfl, ?_⟩
      rintro l (hl | hl)
      · exact nomatch hl
      · exact nomatch hl
  | append_singleton done l ih =>
      have hbefore := ih fun l hl => hjoined l (List.mem_append_left _ hl)
      have hlast : l ∈ done ++ [l] := List.mem_append_right _ (List.mem_singleton.mpr rfl)
      obtain ⟨hne, f, g, hl⟩ := hjoined l hlast
      rw [List.foldl_append, List.foldl_cons, List.foldl_nil]
      generalize done.foldl (populateLink fabrics) net1 = net at hbefore
      have hkeeps v : (populateLink fabrics net l v).peers = (net v).peers ∧ _ := populateLink_keeps h hne hl
      refine ⟨fun v => (hkeeps v).1.trans (hbefore.peers v), ?_, ?_⟩
      · intro c f' hf' v hv w hw
        refine ((hkeeps v).2 w (rank_lt h hf' hw) ?_ ?_).trans (hbefore.own hf' v hv w hw)
        · rintro ⟨hv', hw'⟩
          exact hne ((at_most_one h hl.first hf' hv' hv).trans (at_most_one h hf' hl.second hw hw'))
        · rintro ⟨hv', hw'⟩
          exact hne ((at_most_one h hl.first hf' hw' hw).trans (at_most_one h hf' hl.second hv hv'))
      -- the last link overwrites what those before it between its fabrics have set
      have hset : ∀ l', l' = l ∨ l' = l.reversed → ∀ f g, Joins fabrics l' f g → ∀ v, f.Has v → ∀ w, g.Has w →
          (populateLink fabrics net l v).routingTable.lookup (UInt16.ofNat w) = some (l'.deviceAt net1 v) := by
        intro l' hside f' g' hl' v hv w hw
        have hsame : populateLink fabrics net l = populateLink fabrics net l' ∧
            l'.fabric1Id ≠ l'.fabric2Id := by
          rcases hside with rfl | rfl
          · exact ⟨rfl, hne⟩
          · exact ⟨(populateLink_reversed h hne hl).symm, hne.symm⟩
        rw [hsame.1, populateLink_sets h hsame.2 hl' hv hw]
        unfold deviceAt Endpoint.getRoutingDeviceIndex
        rw [hbefore.own hl'.first v hv _ hl'.gateway1]
      intro l' hl'
      by_cases hforward : l'.fabric1Id = l.fabric1Id ∧ l'.fabric2Id = l.fabric2Id
      · exact ⟨l, .inl hlast, hforward.1.symm, hforward.2.symm, hset l (.inl rfl)⟩
      by_cases hback : l'.fabric1Id = l.fabric2Id ∧ l'.fabric2Id = l.fabric1Id
      · exact ⟨l.reversed, .inr hlast, hback.1.symm, hback.2.symm, hset _ (.inr rfl)⟩
      have hold : Side done l' := by
        rcases hl' with hmem | hmem
        · refine .inl ((List.mem_append.mp hmem).resolve_right fun hnew => hforward ?_)
          rw [List.mem_singleton.mp hnew]
          exact ⟨rfl, rfl⟩
        · refine .inr ((List.mem_append.mp hmem).resolve_right fun hnew => hback ?_)
          rw [← List.mem_singleton.mp hnew]
          exact ⟨rfl, rfl⟩
      obtain ⟨l'', hside, hfirst, hsecond, hentries⟩ := hbefore.remote l' hold
      refine ⟨l'', hside.imp (List.mem_append_left _) (List.mem_append_left _), hfirst, hsecond, ?_⟩
      intro f' g' hl'' v hv w hw
      refine ((hkeeps v).2 w (rank_lt h hl''.second hw) ?_ ?_).trans (hentries f' g' hl'' v hv w hw)
      · rintro ⟨hv', hw'⟩
        exact hforward ⟨hfirst.symm.trans (at_most_one h hl''.first hl.first hv hv'),
          hsecond.symm.trans (at_most_one h hl''.second hl.second hw hw')⟩
      · rintro ⟨hv', hw'⟩
        exact hback ⟨hfirst.symm.trans (at_most_one h hl''.first hl.second hv hv'),
          hsecond.symm.trans (at_most_one h hl''.second hl.first hw hw')⟩

/-! ## From fabric to fabric -/

/-- How far it is from rank to rank in a fabric. -/
def FabricConfig.away (f : FabricConfig) (v w : Nat) : Nat := f.dist (v - f.baseRank) (w - f.baseRank)

theorem away_eq_zero (hv : f.Has v) (hw : f.Has w) : f.away v w = 0 ↔ v = w := by
  obtain ⟨hv, hv'⟩ := hv
  obtain ⟨hw, hw'⟩ := hw
  rw [FabricConfig.away, FabricConfig.dist_eq_zero (by omega) (by omega)]
  omega

/-- The endpoints of the fabrics by themselves. -/
def fabricNetwork (fabrics : List FabricConfig) : Network := fabrics.foldl buildFabric Network.bare

/-- The endpoints of a topology: what they have within a fabric is as it was, and between two fabrics one of
the links is for all that goes from the first to the second. -/
structure Routed (fabrics : List FabricConfig) (links : List CrossFabricLink) (net : Network) : Prop where
  peers : ∀ v, (fabricNetwork fabrics v).peers <+: (net v).peers
  own : ∀ {c : Nat} {f : FabricConfig}, fabrics[c]? = some f → ∀ v, f.Has v → ∀ w, f.Has w →
    (net v).routingTable.lookup (UInt16.ofNat w) =
      (fabricNetwork fabrics v).routingTable.lookup (UInt16.ofNat w)
  remote : ∀ l, Side links l → ∀ f g, Joins fabrics l f g → ∃ l', Joins fabrics l' f g ∧
    (net l'.gateway1Rank).peers[l'.gw1DeviceIndex]? = some l'.gateway2Rank ∧
    ∀ v, f.Has v → ∀ w, g.Has w →
      (net v).routingTable.lookup (UInt16.ofNat w) = some (l'.deviceAt (fabricNetwork fabrics) v)

theorem CrossFabricLink.Joins.of_planned {l' : CrossFabricLink} (hl : Joins fabrics l f g)
    (heq : l.planned = l'.planned) :
    Joins fabrics l' f g := by
  cases l
  cases l'
  simp only [planned, mk.injEq] at heq
  obtain ⟨rfl, rfl, rfl, rfl, -, -⟩ := heq
  exact ⟨hl.first, hl.second, hl.gateway1, hl.gateway2⟩

theorem routed (h : Admissible fabrics links) (hjoined : Joined fabrics links) :
    Routed fabrics links (hybridNetwork fabrics links) := by
  have hlaid : Laid links (fabricNetwork fabrics) (buildHybrid fabrics links) := by
    refine laid fun l hl => ?_
    obtain ⟨hne, f, g, hjoins⟩ := hjoined l hl
    refine ⟨fun heq => hne (at_most_one h hjoins.first hjoins.second hjoins.gateway1 ?_), f, g, hjoins⟩
    exact heq ▸ hjoins.gateway2
  unfold hybridNetwork
  generalize buildHybrid fabrics links = s at hlaid
  have hdone : Joined fabrics s.2 := by
    intro l hl
    obtain ⟨l0, hl0, heq⟩ := List.mem_map.mp (hlaid.planned ▸ List.mem_map_of_mem hl)
    obtain ⟨hne, f, g, hjoins⟩ := hjoined l0 hl0
    have hjoins' := hjoins.of_planned heq
    refine ⟨fun hsame => hne (at_most_one h hjoins.first hjoins.second hjoins.gateway1 ?_), f, g, hjoins'⟩
    have hfg : some f = some g := by rw [← hjoins'.first, ← hjoins'.second, hsame]
    exact Option.some.inj hfg ▸ hjoins.gateway1
  have hpopulated := populated h hdone s.1
  refine ⟨fun v => (hlaid.peers v).trans (hpopulated.peers v ▸ List.prefix_rfl), ?_, ?_⟩
  · intro c f hf v hv w hw
    rw [hpopulated.own hf v hv w hw, hlaid.tables]
  · intro l hl f g hjoins
    obtain ⟨l1, hl1, heq⟩ : ∃ l1, Side s.2 l1 ∧ l.planned = l1.planned := by
      rcases hl with hl | hl
      · obtain ⟨l1, hl1, heq⟩ := List.mem_map.mp (hlaid.planned.symm ▸ List.mem_map_of_mem hl)
        exact ⟨l1, .inl hl1, heq.symm⟩
      · obtain ⟨l1, hl1, heq⟩ := List.mem_map.mp (hlaid.planned.symm ▸ List.mem_map_of_mem hl)
        refine ⟨l1.reversed, .inr hl1, ?_⟩
        cases l
        cases l1
        simp only [planned, reversed, mk.injEq] at heq ⊢
        exact ⟨heq.2.1.symm, heq.1.symm, heq.2.2.2.1.symm, heq.2.2.1.symm, trivial, trivial⟩
    have hjoins1 := hjoins.of_planned heq
    obtain ⟨l', hl', hfirst, hsecond, hentries⟩ := hpopulated.remote l1 hl1
    have hids : fabrics[l'.fabric1Id]? = some f ∧ fabrics[l'.fabric2Id]? = some g := by
      rw [hfirst, hsecond]
      exact ⟨hjoins1.first, hjoins1.second⟩
    obtain ⟨-, f', g', hjoins'⟩ := hdone.side hl'
    obtain rfl : f = f' := Option.some.inj (hids.1.symm.trans hjoins'.first)
    obtain rfl : g = g' := Option.some.inj (hids.2.symm.trans hjoins'.second)
    refine ⟨l', hjoins', ?_, fun v hv w hw => ?_⟩
    · rw [hpopulated.peers]
      rcases hl' with hmem | hmem
      · exact (hlaid.leads l' hmem).1
      · exact (hlaid.leads _ hmem).2
    · rw [hentries f g hjoins' v hv w hw]
      unfold deviceAt Endpoint.getRoutingDeviceIndex
      rw [hlaid.tables]

theorem entries_at (h : Admissible fabrics links) (hf : fabrics[a]? = some f) (hv : f.Has v) :
    f.Entries (v - f.baseRank) (fabricNetwork fabrics v) := by
  have hmem := List.mem_of_getElem? hf
  rw [fabricNetwork, build_at h.apart hmem hv]
  obtain ⟨hlow, hhigh⟩ := hv
  exact FabricConfig.entries_endpoint (h.ranks f hmem) (h.rings f hmem) (by omega)

theorem Routed.closer (hr : Routed fabrics links net) (h : Admissible fabrics links) (hf : fabrics[a]? = some f)
    (hconn : f.Connected) (hv : f.Has v) (hw : f.Has w) (hne : v ≠ w) : ∃ d x,
      (fabricNetwork fabrics v).routingTable.lookup (UInt16.ofNat w) = some d ∧ (net v).peers[d]? = some x ∧
        f.Has x ∧ f.away x w + 1 = f.away v w := by
  have hentries := entries_at h hf hv
  obtain ⟨hv, hv'⟩ := hv
  obtain ⟨hw, hw'⟩ := hw
  have hkind : f.topologyType ≠ .switch := by
    intro hswitch
    have := hconn hswitch
    omega
  obtain ⟨d, hlookup, hpeer⟩ := hentries.leads hkind (w - f.baseRank) (by omega) (by omega)
  obtain ⟨hlt, hdist⟩ := FabricConfig.dist_hop (f := f) (i := v - f.baseRank) (j := w - f.baseRank)
    (by omega) (by omega) (by omega)
  rw [Nat.add_sub_cancel' hw] at hlookup
  refine ⟨d, _, hlookup, getElem?_of_grown (hr.peers v) hpeer, ⟨Nat.le_add_right _ _, by omega⟩, ?_⟩
  rw [FabricConfig.away, Nat.add_sub_cancel_left]
  exact hdist

theorem EntryLeads.unique {x : Nat} (hw : EntryLeads net dst v w) (hx : EntryLeads net dst v x) : w = x := by
  obtain ⟨d, hlookup, hpeer⟩ := hw
  obtain ⟨d', hlookup', hpeer'⟩ := hx
  obtain rfl : d = d' := Option.some.inj (hlookup.symm.trans hlookup')
  exact Option.some.inj (hpeer.symm.trans hpeer')

/-- What is for a rank of a linked fabric comes closer with each move, in the one fabric to its gateway and
in the other one to the rank. -/
theorem Routed.descends (hr : Routed fabrics links net) (h : Admissible fabrics links)
    (hl : Joins fabrics l f g) (hne : l.fabric1Id ≠ l.fabric2Id) (hf : f.Connected) (hg : g.Connected)
    (hlink : (net l.gateway1Rank).peers[l.gw1DeviceIndex]? = some l.gateway2Rank)
    (hentries : ∀ v, f.Has v → ∀ w, g.Has w →
      (net v).routingTable.lookup (UInt16.ofNat w) = some (l.deviceAt (fabricNetwork fabrics) v))
    (hdst : g.Has dst) :
    Descends (EntryLeads net dst)
      (fun v => if f.Has v then f.away v l.gateway1Rank + (g.away l.gateway2Rank dst + 1) else g.away v dst)
      (fun v => f.Has v ∨ g.Has v ∧ g.away v dst ≤ g.away l.gateway2Rank dst) := by
  have hapart : ∀ v, g.Has v → ¬ f.Has v := fun v hv hv' => hl.apart h hne hv' hv
  have hmoves : ∀ v, (f.Has v ∨ g.Has v ∧ g.away v dst ≤ g.away l.gateway2Rank dst) → v ≠ dst →
      ∃ w, EntryLeads net dst v w ∧ (f.Has w ∨ g.Has w ∧ g.away w dst ≤ g.away l.gateway2Rank dst) ∧
        (if f.Has w then f.away w l.gateway1Rank + (g.away l.gateway2Rank dst + 1) else g.away w dst) + 1 =
          if f.Has v then f.away v l.gateway1Rank + (g.away l.gateway2Rank dst + 1) else g.away v dst := by
    rintro v (hv | ⟨hv, hle⟩) hother
    · have hentry := hentries v hv dst hdst
      unfold deviceAt at hentry
      rw [if_pos hv]
      by_cases hgateway : v = l.gateway1Rank
      · -- the move from gateway to gateway
        rw [if_pos hgateway] at hentry
        refine ⟨l.gateway2Rank, ⟨_, hentry, hgateway ▸ hlink⟩, .inr ⟨hl.gateway2, Nat.le_refl _⟩, ?_⟩
        rw [if_neg (hapart _ hl.gateway2), (away_eq_zero hv hl.gateway1).mpr hgateway, Nat.zero_add]
      · obtain ⟨d, w, hlookup, hpeer, hw, haway⟩ := hr.closer h hl.first hf hv hl.gateway1 hgateway
        rw [if_neg hgateway, Endpoint.getRoutingDeviceIndex, hlookup, Option.getD_some] at hentry
        refine ⟨w, ⟨d, hentry, hpeer⟩, .inl hw, ?_⟩
        rw [if_pos hw]
        omega
    · obtain ⟨d, w, hlookup, hpeer, hw, haway⟩ := hr.closer h hl.second hg hv hdst hother
      refine ⟨w, ⟨d, (hr.own hl.second v hv dst hdst).trans hlookup, hpeer⟩, .inr ⟨hw, by omega⟩, ?_⟩
      rw [if_neg (hapart v hv), if_neg (hapart w hw)]
      exact haway
  constructor
  · intro v hv w hmove
    have hother : v ≠ dst := by
      rintro rfl
      obtain ⟨d, hlookup, -⟩ := hmove
      rw [hr.own hl.second v hdst v hdst, (entries_at h hl.second hdst).none v ?_ (.inr ?_)] at hlookup
      · cases hlookup
      · exact rank_lt h hl.second hdst
      · have := hdst.1
        omega
    obtain ⟨w', hmove', hinside⟩ := hmoves v hv hother
    rw [hmove.unique hmove']
    exact hinside
  · intro v hv hdist
    obtain ⟨w, hmove, -⟩ := hmoves v hv (by
      rintro rfl
      exact hdist ((if_neg (hapart v hdst)).trans ((away_eq_zero hdst hdst).mpr rfl)))
    exact ⟨w, hmove⟩

theorem Routed.reaches (hr : Routed fabrics links net) (h : Admissible fabrics links)
    (hside : Side links l) (hl : Joins fabrics l f g) (hne : l.fabric1Id ≠ l.fabric2Id) (hf : f.Connected)
    (hg : g.Connected) : Reaches fabrics net f g := by
  intro src hsrc dst hdst
  have hapart : ∀ v, g.Has v → ¬ f.Has v := fun v hv hv' => hl.apart h hne hv' hv
  obtain ⟨l', hl', hlink, hentries⟩ := hr.remote l hside f g hl
  have hne' : l'.fabric1Id ≠ l'.fabric2Id := by
    intro heq
    have hfg : some f = some g := by rw [← hl'.first, ← hl'.second, heq]
    exact hapart src (Option.some.inj hfg ▸ hsrc) hsrc
  have hdescends := hr.descends h hl' hne' hf hg hlink hentries hdst
  obtain ⟨path, rfl, hwalk⟩ := hdescends.exists_walk (.inl hsrc)
  have halong := hdescends.along hwalk (.inl hsrc)
  rw [if_pos hsrc] at hwalk halong
  -- the walk is in the first fabric as long as it is farther than the second gateway
  have hwhere : ∀ i ≤ f.away (path 0) l'.gateway1Rank + (g.away l'.gateway2Rank dst + 1),
      (i ≤ f.away (path 0) l'.gateway1Rank → f.Has (path i)) ∧
        (f.away (path 0) l'.gateway1Rank < i → g.Has (path i)) := by
    intro i hi
    obtain ⟨hinside, hdist⟩ := halong i hi
    rcases hinside with hfirst | ⟨hsecond, hle⟩
    · rw [if_pos hfirst] at hdist
      exact ⟨fun _ => hfirst, fun hlt => by omega⟩
    · rw [if_neg (hapart _ hsecond)] at hdist
      exact ⟨fun hlt => by omega, fun _ => hsecond⟩
  constructor
  · obtain ⟨d, hlookup, hpeer⟩ := hwalk 0 (by omega)
    exact ⟨d, hlookup, (List.getElem?_eq_some_iff.mp hpeer).1⟩
  · refine ⟨path, _, rfl, ?_, hwalk, f.away (path 0) l'.gateway1Rank, by omega, fun i hi => ?_⟩
    · obtain ⟨-, hdist⟩ := halong _ (Nat.le_refl _)
      have hsecond := (hwhere _ (Nat.le_refl _)).2 (by omega)
      rw [if_neg (hapart _ hsecond)] at hdist
      exact (away_eq_zero hsecond hdst).mp (by omega)
    · obtain ⟨hfirst, hsecond⟩ := hwhere i (by omega)
      obtain ⟨hfirst', hsecond'⟩ := hwhere (i + 1) (by omega)
      constructor
      · intro hcross
        rcases Nat.lt_trichotomy i (f.away (path 0) l'.gateway1Rank) with hlt | heq | hlt
        · exact absurd ⟨f, List.mem_of_getElem? hl.first, hfirst (by omega), hfirst' (by omega)⟩ hcross
        · exact heq
        · exact absurd ⟨g, List.mem_of_getElem? hl.second, hsecond hlt, hsecond' (by omega)⟩ hcross
      · rintro rfl ⟨f', hmem, hv, hw⟩
        obtain ⟨c, hc⟩ := List.getElem?_of_mem hmem
        exact hne ((at_most_one h hl.first hc (hfirst (Nat.le_refl _)) hv).trans
          (at_most_one h hc hl.second hw (hsecond' (Nat.lt_succ_self _))))

theorem ne_of_reaches (h : Admissible fabrics links) (hl : Joins fabrics l f g)
    (hreaches : Reaches fabrics net f g) : l.fabric1Id ≠ l.fabric2Id := by
  intro heq
  obtain rfl : f = g := Option.some.inj (by rw [← hl.first, ← hl.second, heq])
  obtain ⟨-, path, k, hstart, hend, -, m, hm, honce⟩ := hreaches _ hl.gateway1 _ hl.gateway1
  have hstays : ∀ i < k, i ≠ m → (f.Has (path i) ↔ f.Has (path (i + 1))) := by
    intro i hi hne
    obtain ⟨f', hmem, hv, hw⟩ := not_not.mp fun hcross => hne ((honce i hi).mp hcross)
    obtain ⟨c, hc⟩ := List.getElem?_of_mem hmem
    constructor
    · intro hv'
      have hsame := at_most_one h hl.first hc hv' hv
      obtain rfl : f = f' := Option.some.inj (by rw [← hl.first, ← hc, hsame])
      exact hw
    · intro hw'
      have hsame := at_most_one h hl.first hc hw' hw
      obtain rfl : f = f' := Option.some.inj (by rw [← hl.first, ← hc, hsame])
      exact hv
  have hbefore : ∀ i ≤ m, f.Has (path i) := by
    intro i
    induction i with
    | zero => exact fun _ => hstart ▸ hl.gateway1
    | succ i ih => exact fun hi => (hstays i (by omega) (by omega)).mp (ih (by omega))
  have hafter : ∀ j, m < k - j → f.Has (path (k - j)) := by
    intro j
    induction j with
    | zero => exact fun _ => hend ▸ hl.gateway1
    | succ j ih =>
        intro hj
        refine (hstays _ (by omega) (by omega)).mpr ?_
        rw [show k - (j + 1) + 1 = k - j by omega]
        exact ih (by omega)
  have hnext := hafter (k - (m + 1)) (by omega)
  rw [show k - (k - (m + 1)) = m + 1 by omega] at hnext
  exact (honce m hm).mpr rfl ⟨f, List.mem_of_getElem? hl.first, hbefore m (Nat.le_refl m), hnext⟩

theorem Routed.connected (hr : Routed fabrics links net) (h : Admissible fabrics links)
    (hside : Side links l) (hl : Joins fabrics l f g) (hreaches : Reaches fabrics net f g) : g.Connected := by
  intro hswitch
  by_contra hmany
  obtain ⟨l', hl', hlink, hentries⟩ := hr.remote l hside f g hl
  obtain ⟨x, hx, hne⟩ : ∃ x, g.Has x ∧ l'.gateway2Rank ≠ x := by
    by_cases hbase : l'.gateway2Rank = g.baseRank
    · exact ⟨g.baseRank + 1, ⟨Nat.le_add_right _ _, by omega⟩, by omega⟩
    · exact ⟨g.baseRank, ⟨Nat.le_refl _, by omega⟩, hbase⟩
  obtain ⟨-, path, k, hstart, hend, hwalk, m, hm, -⟩ := hreaches _ hl'.gateway1 x hx
  have hentry := hentries _ hl'.gateway1 x hx
  rw [deviceAt, if_pos rfl] at hentry
  have hfirst : path 1 = l'.gateway2Rank := (hwalk 0 (by omega)).unique (hstart ▸ ⟨_, hentry, hlink⟩)
  have hlast : k ≠ 1 := by
    rintro rfl
    exact hne (hfirst.symm.trans hend)
  obtain ⟨d, hlookup, -⟩ := hwalk 1 (by omega)
  rw [hfirst, hr.own hl'.second _ hl'.gateway2 x hx,
    (entries_at h hl'.second hl'.gateway2).none x (rank_lt h hl'.second hx)
      (.inl hswitch)] at hlookup
  cases hlookup

/-- Linked fabrics reach each other if and only if links are between different fabrics, none of which has
several GPUs around a switch. -/
theorem linkedFabricsReach_iff (h : Admissible fabrics links) :
    LinkedFabricsReach fabrics links ↔ ∀ l ∈ links, l.fabric1Id ≠ l.fabric2Id ∧
      (∀ f, fabrics[l.fabric1Id]? = some f → f.Connected) ∧
      ∀ f, fabrics[l.fabric2Id]? = some f → f.Connected := by
  constructor
  · intro hreach
    have hjoined : Joined fabrics links := by
      intro l hl
      obtain ⟨f, g, hfg⟩ := h.gateways l hl
      exact ⟨ne_of_reaches h hfg (hreach l hl f g hfg).1, f, g, hfg⟩
    have hr := routed h hjoined
    intro l hl
    obtain ⟨hne, f, g, hfg⟩ := hjoined l hl
    obtain ⟨hthere, hback⟩ := hreach l hl f g hfg
    refine ⟨hne, fun f' hf' => ?_, fun g' hg' => ?_⟩
    · obtain rfl := Option.some.inj (hfg.first.symm.trans hf')
      exact hr.connected h (show Side links l.reversed from .inr hl) hfg.reversed hback
    · obtain rfl := Option.some.inj (hfg.second.symm.trans hg')
      exact hr.connected h (.inl hl) hfg hthere
  · intro hgood
    have hr := routed h fun l hl => ⟨(hgood l hl).1, h.gateways l hl⟩
    intro l hl f g hfg
    obtain ⟨hne, hf, hg⟩ := hgood l hl
    exact ⟨hr.reaches h (.inl hl) hfg hne (hf f hfg.first) (hg g hfg.second),
      hr.reaches h (show Side links l.reversed from .inr hl) hfg.reversed hne.symm (hg g hfg.second)
        (hf f hfg.first)⟩

/-- A ring and a full mesh with a link. -/
theorem linkedFabricsReach_iff_mixed :
    LinkedFabricsReach [⟨.ring, 3, 0⟩, ⟨.fullmesh, 2, 3⟩]
      [{ fabric1Id := 0, fabric2Id := 1, gateway1Rank := 2, gateway2Rank := 3 }] := by
  apply (linkedFabricsReach_iff ?_).mpr
  · intro l hl
    obtain rfl := List.mem_singleton.mp hl
    refine ⟨by decide, ?_, ?_⟩
    · rintro f hf
      obtain rfl := Option.some.inj hf
      exact nofun
    · rintro f hf
      obtain rfl := Option.some.inj hf
      exact nofun
  · refine ⟨by decide, ?_, by decide, ?_⟩
    · apply List.Pairwise.cons
      · intro g hg v hv hv'
        obtain rfl := List.mem_singleton.mp hg
        exact absurd hv'.1 (Nat.not_le.mpr hv.2)
      · exact List.pairwise_singleton _ _
    · intro l hl
      obtain rfl := List.mem_singleton.mp hl
      exact ⟨_, _, rfl, rfl, by decide, by decide⟩

/-- Two fabrics with switches do not reach each other: the gateway has no entry for the other GPU. -/
theorem not_linkedFabricsReach :
    ¬ LinkedFabricsReach [⟨.switch, 2, 0⟩, ⟨.switch, 2, 2⟩]
      [{ fabric1Id := 0, fabric2Id := 1, gateway1Rank := 0, gateway2Rank := 2 }] := by
  intro h
  obtain ⟨hthere, -⟩ := h _ (List.mem_singleton.mpr rfl) _ _ ⟨rfl, rfl, by decide, by decide⟩
  -- endpoint 1 gets an entry without a device
  obtain ⟨⟨d, hlookup, hreal⟩, -⟩ := hthere 1 (by decide) 3 (by decide)
  have hentry : (hybridNetwork [⟨.switch, 2, 0⟩, ⟨.switch, 2, 2⟩]
      [{ fabric1Id := 0, fabric2Id := 1, gateway1Rank := 0, gateway2Rank := 2 }] 1).routingTable.lookup
      (UInt16.ofNat 3) = some noDevice := by decide +kernel
  have hfew : (hybridNetwork [⟨.switch, 2, 0⟩, ⟨.switch, 2, 2⟩]
      [{ fabric1Id := 0, fabric2Id := 1, gateway1Rank := 0, gateway2Rank := 2 }] 1).getNNetDevices = 1 := by
    decide +kernel
  rw [hentry] at hlookup
  obtain rfl := Option.some.inj hlookup
  rw [hfew] at hreal
  exact absurd hreal (by decide)

end ProtoBridge.Topology
