import Mathlib.Algebra.Group.Nat.Defs
import Mathlib.Data.List.AList
import ProtoBridge.Lib.Descent

/-!
# Links and routing tables

A builder of a topology installs links, which give both ends a device and an entry for each other, and
then fills the tables up: a rank without an entry gets the device of a neighbor on the way.
-/

namespace ProtoBridge.Topology

open Lib

/-- `UINT32_MAX`, the index of no device. -/
def noDevice : Nat := 2 ^ 32 - 1

/-- A `FabricEndpoint`: the rank at the far end of each device, and where to send what is for a rank. -/
structure Endpoint where
  peers : List Nat := []
  routingTable : AList (fun _ : UInt16 => Nat) := ∅
  routingDevicesTable : AList (fun _ : UInt16 => List Nat) := ∅

/-- The state of the rotation over devices. -/
structure Rotation where
  sprayingEnabled : Bool
  currentDeviceIndex : Nat

namespace Endpoint

/-- `GetNNetDevices`. -/
def getNNetDevices (ep : Endpoint) : Nat := ep.peers.length

/-- `AddNetDevice`. -/
def addNetDevice (ep : Endpoint) (peer : Nat) : Endpoint := { ep with peers := ep.peers ++ [peer] }

/-- `SetRoutingEntry`. -/
def setRoutingEntry (ep : Endpoint) (destRank : UInt16) (deviceIndex : Nat) : Endpoint :=
  { ep with routingTable := ep.routingTable.insert destRank deviceIndex }

/-- `ClearRoutingTable`. -/
def clearRoutingTable (ep : Endpoint) : Endpoint := { ep with routingTable := ∅ }

/-- `GetRoutingDeviceIndex`. -/
def getRoutingDeviceIndex (ep : Endpoint) (destRank : UInt16) : Nat :=
  (ep.routingTable.lookup destRank).getD noDevice

/-- `GetNextDeviceIndex`. -/
def getNextDeviceIndex (ep : Endpoint) (r : Rotation) : Nat :=
  if ep.peers = [] then 0 else r.currentDeviceIndex

/-- `ResolveDeviceIndex`. -/
def resolveDeviceIndex (ep : Endpoint) (r : Rotation) (destRank : UInt16) : Nat :=
  let devs := (ep.routingDevicesTable.lookup destRank).getD []
  if r.sprayingEnabled ∧ devs.length > 1 then devs.getD (r.currentDeviceIndex % devs.length) 0
  else
    match ep.routingTable.lookup destRank with
    | some deviceIndex => deviceIndex
    | none => ep.getNextDeviceIndex r

/-- The device that `TryForwardReceivedPacket` forwards on, at the endpoint of a rank. -/
def tryForwardReceivedPacket (ep : Endpoint) (r : Rotation) (rank destRank : UInt16) : Option Nat :=
  if destRank = rank ∨ ep.routingTable.entries = [] then none
  else some (ep.resolveDeviceIndex r destRank)

end Endpoint

/-- The endpoints, by rank. -/
abbrev Network := Nat → Endpoint

/-- The network before any link is installed. -/
def Network.bare : Network := fun _ => {}

/-- A node forwards what is for `dst` to another one, whatever its rotation is at. -/
def Forwards (net : Network) (dst : Nat) (v w : Nat) : Prop :=
  ∃ r deviceIndex, (net v).tryForwardReceivedPacket r (UInt16.ofNat v) (UInt16.ofNat dst) = some deviceIndex ∧
    (net v).peers[deviceIndex]? = some w

/-- An endpoint has an entry for a rank, whose device leads to a node. -/
def EntryLeads (net : Network) (dst v w : Nat) : Prop :=
  ∃ deviceIndex, (net v).routingTable.lookup (UInt16.ofNat dst) = some deviceIndex ∧
    (net v).peers[deviceIndex]? = some w

/-- The endpoint after a link to a peer is installed. -/
def Endpoint.link (ep : Endpoint) (peer : Nat) : Endpoint :=
  (ep.addNetDevice peer).setRoutingEntry (UInt16.ofNat peer) ep.getNNetDevices

/-- `installLink`. -/
def installLink (net : Network) (link : Nat × Nat) : Network :=
  let net := Function.update net link.1 ((net link.1).link link.2)
  Function.update net link.2 ((net link.2).link link.1)

/-- The links of a builder, one after the other. -/
def installLinks (links : List (Nat × Nat)) : Network := links.foldl installLink Network.bare

/-- A round of the loop over the destinations at an endpoint: a neighbor has its entry already. -/
def fillRoute (next : Nat → Nat) (src : Nat) (ep : Endpoint) (dst : Nat) : Endpoint :=
  if src = dst then ep
  else if ep.getRoutingDeviceIndex (UInt16.ofNat dst) ≠ noDevice then ep
  else ep.setRoutingEntry (UInt16.ofNat dst) (ep.getRoutingDeviceIndex (UInt16.ofNat (next dst)))

/-- The loop. -/
def fillRoutes (next : Nat → Nat) (src : Nat) (dsts : List Nat) (ep : Endpoint) : Endpoint :=
  dsts.foldl (fillRoute next src) ep

/-- A topology of `n` nodes: links, and the node on the way from a source to a destination. -/
def build (n : Nat) (links : List (Nat × Nat)) (next : Nat → Nat → Nat) : Network := fun src =>
  if src < n then fillRoutes (next src) src (List.range n) (installLinks links src)
  else installLinks links src

/-- Two nodes have a link. -/
def Linked (links : List (Nat × Nat)) (v w : Nat) : Prop := (v, w) ∈ links ∨ (w, v) ∈ links

instance (links : List (Nat × Nat)) (v w : Nat) : Decidable (Linked links v w) :=
  inferInstanceAs (Decidable (_ ∨ _))

/-- All nodes have entries with devices for one another, and a packet goes from each node to each other one
in exactly `dist` hops, over devices and no node twice. -/
structure ShortestRoutes (net : Network) (n : Nat) (dist : Nat → Nat → Nat) : Prop where
  entries : ∀ src < n, ∀ dst < n, src ≠ dst → ∃ deviceIndex,
    (net src).routingTable.lookup (UInt16.ofNat dst) = some deviceIndex ∧
      deviceIndex < (net src).getNNetDevices
  arrives : ∀ dst < n, ∀ src < n, ∃ path : Nat → Nat, path 0 = src ∧ path (dist src dst) = dst ∧
    Walk (Forwards net dst) path (dist src dst)
  only : ∀ dst < n, ∀ path : Nat → Nat, path 0 < n → ∀ k, Walk (Forwards net dst) path k →
    k ≤ dist (path 0) dst ∧ (path k = dst ↔ k = dist (path 0) dst) ∧
      (k < dist (path 0) dst → ∃ w, Forwards net dst (path k) w) ∧
      ∀ i ≤ k, ∀ j ≤ k, path i = path j → i = j

variable {n k v w src dst : Nat} {net : Network} {links : List (Nat × Nat)} {ep : Endpoint}

theorem rank_inj (hv : v < 2 ^ 16) (hw : w < 2 ^ 16) : UInt16.ofNat v = UInt16.ofNat w ↔ v = w := by
  constructor
  · intro heq
    have hsame := congrArg UInt16.toNat heq
    rwa [UInt16.toNat_ofNat_of_lt' hv, UInt16.toNat_ofNat_of_lt' hw] at hsame
  · exact congrArg _

/-! ## Routes -/

/-- Where an entry leads. -/
structure LeadsTo (ep : Endpoint) (dst w : Nat) : Prop where
  entry : ∃ deviceIndex, ep.routingTable.lookup (UInt16.ofNat dst) = some deviceIndex ∧
    ep.peers[deviceIndex]? = some w
  single : ep.routingDevicesTable = ∅

theorem LeadsTo.forwards_iff {u : Nat} (h : LeadsTo (net v) dst w) (hv : v < 2 ^ 16) (hdst : dst < 2 ^ 16)
    (hne : v ≠ dst) : Forwards net dst v u ↔ u = w := by
  obtain ⟨deviceIndex, hlookup, hpeer⟩ := h.entry
  have htable : (net v).routingTable.entries ≠ [] := by
    intro hempty
    have hentry := AList.mem_lookup_iff.mp hlookup
    rw [hempty] at hentry
    cases hentry
  have hresolve : ∀ r, (net v).resolveDeviceIndex r (UInt16.ofNat dst) = deviceIndex := by
    intro r
    unfold Endpoint.resolveDeviceIndex
    rw [h.single, hlookup]
    exact if_neg fun hspray => absurd hspray.2 (Nat.not_lt_zero 1)
  have htry : ∀ r, (net v).tryForwardReceivedPacket r (UInt16.ofNat v) (UInt16.ofNat dst) =
      some deviceIndex := by
    intro r
    unfold Endpoint.tryForwardReceivedPacket
    rw [hresolve, if_neg]
    rintro (hhere | hempty)
    · exact hne ((rank_inj hdst hv).mp hhere).symm
    · exact htable hempty
  constructor
  · rintro ⟨r, device, htaken, hleads⟩
    rw [htry] at htaken
    cases htaken
    exact Option.some.inj (hleads.symm.trans hpeer)
  · rintro rfl
    exact ⟨⟨false, 0⟩, deviceIndex, htry _, hpeer⟩

theorem not_forwards_self (v w : Nat) : ¬ Forwards net v v w := by
  rintro ⟨r, deviceIndex, htry, -⟩
  unfold Endpoint.tryForwardReceivedPacket at htry
  rw [if_pos (.inl rfl)] at htry
  cases htry

variable {dist : Nat → Nat → Nat} {next : Nat → Nat} {dsts : List Nat}

theorem shortestRoutes_of_closer (hop : Nat → Nat → Nat) (hn : n ≤ 2 ^ 16)
    (hleads : ∀ src < n, ∀ dst < n, src ≠ dst → LeadsTo (net src) dst (hop src dst))
    (hzero : ∀ src < n, ∀ dst < n, dist src dst = 0 ↔ src = dst)
    (hcloser : ∀ src < n, ∀ dst < n, src ≠ dst →
      hop src dst < n ∧ dist (hop src dst) dst + 1 = dist src dst) : ShortestRoutes net n dist := by
  have hdescends : ∀ dst < n, Descends (Forwards net dst) (fun v => dist v dst) (· < n) := by
    intro dst hdst
    refine ⟨?_, ?_⟩
    · intro v hv w hmove
      have hne : v ≠ dst := by
        rintro rfl
        exact not_forwards_self v w hmove
      obtain rfl := ((hleads v hv dst hdst hne).forwards_iff (by omega) (by omega) hne).mp hmove
      exact hcloser v hv dst hdst hne
    · intro v hv haway
      have hne : v ≠ dst := fun heq => haway ((hzero v hv dst hdst).mpr heq)
      exact ⟨_, ((hleads v hv dst hdst hne).forwards_iff (by omega) (by omega) hne).mpr rfl⟩
  refine ⟨?_, ?_, ?_⟩
  · intro src hsrc dst hdst hne
    obtain ⟨deviceIndex, hlookup, hpeer⟩ := (hleads src hsrc dst hdst hne).entry
    exact ⟨deviceIndex, hlookup, (List.getElem?_eq_some_iff.mp hpeer).1⟩
  · intro dst hdst src hsrc
    obtain ⟨path, rfl, hwalk⟩ := (hdescends dst hdst).exists_walk hsrc
    obtain ⟨hinside, hdist⟩ := (hdescends dst hdst).along hwalk hsrc _ (Nat.le_refl _)
    exact ⟨path, rfl, (hzero _ hinside dst hdst).mp (by omega), hwalk⟩
  · intro dst hdst path hstart k hwalk
    obtain ⟨hinside, hdist⟩ := (hdescends dst hdst).along hwalk hstart k (Nat.le_refl k)
    refine ⟨(hdescends dst hdst).length_le hwalk hstart, ?_, (hdescends dst hdst).exists_next hwalk hstart,
      (hdescends dst hdst).injective hwalk hstart⟩
    rw [← hzero _ hinside dst hdst]
    omega

/-! ## Installing -/

theorem lookup_link (ep : Endpoint) (peer : Nat) (key : UInt16) : (ep.link peer).routingTable.lookup key =
    if key = UInt16.ofNat peer then some ep.peers.length else ep.routingTable.lookup key := by
  split
  · rename_i heq
    rw [heq]
    exact AList.lookup_insert _
  · rename_i hne
    exact AList.lookup_insert_ne hne

theorem installLink_apply (net : Network) (hne : v ≠ w) (node : Nat) : installLink net (v, w) node =
    if node = v then (net v).link w else if node = w then (net w).link v else net node := by
  unfold installLink
  dsimp only
  by_cases hw : node = w
  · rw [hw, Function.update_self, Function.update_of_ne hne.symm, if_neg hne.symm, if_pos rfl]
  · rw [Function.update_of_ne hw, if_neg hw]
    by_cases hv : node = v
    · rw [hv, Function.update_self, if_pos rfl]
    · rw [Function.update_of_ne hv, if_neg hv]

/-- What the links of a list have done to the endpoints. -/
structure Installed (links : List (Nat × Nat)) (net : Network) : Prop where
  linked : ∀ v w, Linked links v w → LeadsTo (net v) w w
  apart : ∀ v w, w < 2 ^ 16 → ¬ Linked links v w → (net v).routingTable.lookup (UInt16.ofNat w) = none
  single : ∀ v, (net v).routingDevicesTable = ∅
  devices : ∀ v, (net v).peers.length ≤ links.length
  bound : ∀ v key d, (net v).routingTable.lookup key = some d → d < (net v).peers.length

theorem installed_nil : Installed [] Network.bare := by
  refine ⟨?_, fun _ _ _ _ => AList.lookup_empty _, fun _ => rfl, fun _ => Nat.le_refl _, ?_⟩
  · rintro v w (hmem | hmem) <;> cases hmem
  · intro v key d hlookup
    rw [show (Network.bare v).routingTable = ∅ from rfl, AList.lookup_empty] at hlookup
    cases hlookup

theorem linked_snoc {u t : Nat} : Linked (links ++ [(v, w)]) u t ↔
    Linked links u t ∨ (u = v ∧ t = w) ∨ (u = w ∧ t = v) := by
  unfold Linked
  simp only [List.mem_append, List.mem_singleton, Prod.mk.injEq]
  tauto

theorem leadsTo_link (peer : Nat) (hsingle : ep.routingDevicesTable = ∅) :
    LeadsTo (ep.link peer) peer peer ∧
      ∀ u, UInt16.ofNat u ≠ UInt16.ofNat peer → LeadsTo ep u u → LeadsTo (ep.link peer) u u := by
  refine ⟨⟨⟨ep.peers.length, ?_, ?_⟩, hsingle⟩, ?_⟩
  · rw [lookup_link, if_pos rfl]
  · exact List.getElem?_concat_length
  · intro u hu h
    obtain ⟨d, hlookup, hpeer⟩ := h.entry
    refine ⟨⟨d, ?_, ?_⟩, hsingle⟩
    · rw [lookup_link, if_neg hu, hlookup]
    · show (ep.peers ++ [peer])[d]? = some u
      rw [List.getElem?_append_left (List.getElem?_eq_some_iff.mp hpeer).1, hpeer]

theorem Installed.snoc (h : Installed links net) (hne : v ≠ w) (hv : v < 2 ^ 16) (hw : w < 2 ^ 16)
    (hends : ∀ l ∈ links, l.1 < 2 ^ 16 ∧ l.2 < 2 ^ 16) :
    Installed (links ++ [(v, w)]) (installLink net (v, w)) := by
  have hcases : ∀ node, (∃ peer, (node = v ∧ peer = w ∨ node = w ∧ peer = v) ∧
      installLink net (v, w) node = (net node).link peer) ∨
      node ≠ v ∧ node ≠ w ∧ installLink net (v, w) node = net node := by
    intro node
    rw [installLink_apply net hne]
    split
    · rename_i heq
      exact .inl ⟨w, .inl ⟨heq, rfl⟩, by rw [heq]⟩
    · split
      · rename_i heq
        exact .inl ⟨v, .inr ⟨heq, rfl⟩, by rw [heq]⟩
      · exact .inr ⟨‹_›, ‹_›, rfl⟩
  refine ⟨?_, ?_, ?_, ?_, ?_⟩
  -- linked
  · intro node u hlinked
    rcases hcases node with ⟨peer, hends', heq⟩ | ⟨hnv, hnw, heq⟩
    · obtain ⟨hnew, hold⟩ := leadsTo_link peer (h.single node)
      rw [heq]
      by_cases hu : u = peer
      · rw [hu]
        exact hnew
      · have hbefore : Linked links node u := by
          rcases linked_snoc.mp hlinked with hbefore | ⟨rfl, rfl⟩ | ⟨rfl, rfl⟩
          · exact hbefore
          · rcases hends' with ⟨-, rfl⟩ | ⟨rfl, -⟩
            · exact absurd rfl hu
            · exact absurd rfl hne
          · rcases hends' with ⟨rfl, -⟩ | ⟨-, rfl⟩
            · exact absurd rfl hne
            · exact absurd rfl hu
        have hu16 : u < 2 ^ 16 := by
          rcases hbefore with hmem | hmem
          · exact (hends _ hmem).2
          · exact (hends _ hmem).1
        have hpeer16 : peer < 2 ^ 16 := by
          rcases hends' with ⟨-, rfl⟩ | ⟨-, rfl⟩ <;> assumption
        exact hold u (fun hkey => hu ((rank_inj hu16 hpeer16).mp hkey)) (h.linked node u hbefore)
    · rw [heq]
      rcases linked_snoc.mp hlinked with hbefore | ⟨hnode, -⟩ | ⟨hnode, -⟩
      · exact h.linked node u hbefore
      · exact absurd hnode hnv
      · exact absurd hnode hnw
  -- apart
  · intro node u hu hapart
    have hbefore : ¬ Linked links node u := fun hlinked => hapart (linked_snoc.mpr (.inl hlinked))
    rcases hcases node with ⟨peer, hends', heq⟩ | ⟨-, -, heq⟩
    · rw [heq, lookup_link, if_neg]
      · exact h.apart node u hu hbefore
      · intro hkey
        apply hapart
        rw [linked_snoc]
        rcases hends' with ⟨rfl, rfl⟩ | ⟨rfl, rfl⟩
        · exact .inr (.inl ⟨rfl, (rank_inj hu hw).mp hkey⟩)
        · exact .inr (.inr ⟨rfl, (rank_inj hu hv).mp hkey⟩)
    · rw [heq]
      exact h.apart node u hu hbefore
  · intro node
    rcases hcases node with ⟨peer, -, heq⟩ | ⟨-, -, heq⟩
    · rw [heq]
      exact h.single node
    · rw [heq]
      exact h.single node
  -- devices
  · intro node
    have hbefore := h.devices node
    rw [List.length_append, List.length_singleton]
    rcases hcases node with ⟨peer, -, heq⟩ | ⟨-, -, heq⟩
    · rw [heq]
      show ((net node).peers ++ [peer]).length ≤ _
      rw [List.length_append, List.length_singleton]
      omega
    · rw [heq]
      omega
  -- bound
  · intro node key d hlookup
    rcases hcases node with ⟨peer, -, heq⟩ | ⟨-, -, heq⟩
    · rw [heq] at hlookup ⊢
      show d < ((net node).peers ++ [peer]).length
      rw [List.length_append, List.length_singleton]
      rw [lookup_link] at hlookup
      split at hlookup
      · cases hlookup
        exact Nat.lt_succ_self _
      · exact Nat.lt_succ_of_lt (h.bound node key d hlookup)
    · rw [heq] at hlookup ⊢
      exact h.bound node key d hlookup

/-- The ends of links are different nodes. -/
def Proper (n : Nat) (links : List (Nat × Nat)) : Prop :=
  ∀ l ∈ links, l.1 < n ∧ l.2 < n ∧ l.1 ≠ l.2

theorem installed (hn : n ≤ 2 ^ 16) (hproper : Proper n links) : Installed links (installLinks links) := by
  induction links using List.reverseRecOn with
  | nil => exact installed_nil
  | append_singleton links l ih =>
      obtain ⟨hv, hw, hne⟩ := hproper l (List.mem_append_right _ (List.mem_singleton.mpr rfl))
      have hbefore : Proper n links := fun l hl => hproper l (List.mem_append_left _ hl)
      have hlast : installLinks (links ++ [l]) = installLink (installLinks links) l := by
        unfold installLinks
        rw [List.foldl_append]
        rfl
      rw [hlast]
      refine (ih hbefore).snoc hne (by omega) (by omega) ?_
      intro l hl
      obtain ⟨hv, hw, -⟩ := hbefore l hl
      exact ⟨by omega, by omega⟩

/-! ## Filling up -/

/-- What the rounds have done: a rank that has had an entry keeps it, another one has got the entry of
the node on the way. -/
structure Filled (next : Nat → Nat) (src : Nat) (dsts : List Nat) (start ep : Endpoint) : Prop where
  kept : ∀ key d, start.routingTable.lookup key = some d → ep.routingTable.lookup key = some d
  fresh : ∀ dst < 2 ^ 16, dst ∉ dsts ∨ dst = src →
    ep.routingTable.lookup (UInt16.ofNat dst) = start.routingTable.lookup (UInt16.ofNat dst)
  got : ∀ dst ∈ dsts, dst ≠ src → start.routingTable.lookup (UInt16.ofNat dst) = none →
    ep.routingTable.lookup (UInt16.ofNat dst) = start.routingTable.lookup (UInt16.ofNat (next dst))
  devices : ep.peers = start.peers
  single : ep.routingDevicesTable = start.routingDevicesTable

theorem fillRoutes_concat (next : Nat → Nat) (src : Nat) (dsts : List Nat) (dst : Nat) (ep : Endpoint) :
    fillRoutes next src (dsts ++ [dst]) ep = fillRoute next src (fillRoutes next src dsts ep) dst := by
  unfold fillRoutes
  rw [List.foldl_append]
  rfl

theorem Filled.skip {start : Endpoint} (h : Filled next src dsts start ep)
    (hskip : start.routingTable.lookup (UInt16.ofNat dst) = none → dst = src ∨ dst ∈ dsts) :
    Filled next src (dsts ++ [dst]) start ep := by
  refine ⟨h.kept, fun d hd hout => ?_, fun d hd hsrc hnone => ?_, h.devices, h.single⟩
  · exact h.fresh d hd (hout.imp_left fun hout hd => hout (List.mem_append_left _ hd))
  · rcases List.mem_append.mp hd with hold | hnew
    · exact h.got d hold hsrc hnone
    · obtain rfl := List.mem_singleton.mp hnew
      exact h.got d ((hskip hnone).resolve_left hsrc) hsrc hnone

theorem fillRoutes_filled {start : Endpoint} (hranks : ∀ dst ∈ dsts, dst < 2 ^ 16)
    (hdevices : ∀ key d, start.routingTable.lookup key = some d → d ≠ noDevice)
    (hnext : ∀ dst ∈ dsts, src ≠ dst → start.routingTable.lookup (UInt16.ofNat dst) = none →
      ∃ d, start.routingTable.lookup (UInt16.ofNat (next dst)) = some d) :
    Filled next src dsts start (fillRoutes next src dsts start) := by
  induction dsts using List.reverseRecOn with
  | nil => exact ⟨fun _ _ h => h, fun _ _ _ => rfl, (fun _ hmem => nomatch hmem), rfl, rfl⟩
  | append_singleton dsts dst ih =>
      have h := ih (fun d hd => hranks d (List.mem_append_left _ hd))
        fun d hd => hnext d (List.mem_append_left _ hd)
      have hin : dst ∈ dsts ++ [dst] := List.mem_append_right _ (List.mem_singleton.mpr rfl)
      have hdst := hranks dst hin
      rw [fillRoutes_concat]
      generalize fillRoutes next src dsts start = ep at h
      unfold fillRoute
      split
      · rename_i hself
        exact h.skip fun _ => .inl hself.symm
      · rename_i hself
        by_cases hfound : start.routingTable.lookup (UInt16.ofNat dst) = none ∧ dst ∉ dsts
        -- the rank has no entry yet, and the node on the way has one
        · obtain ⟨hnone, hout⟩ := hfound
          obtain ⟨device, hdevice⟩ := hnext dst hin hself hnone
          have hempty := (h.fresh dst hdst (.inl hout)).trans hnone
          have hentry : ep.getRoutingDeviceIndex (UInt16.ofNat (next dst)) = device := by
            unfold Endpoint.getRoutingDeviceIndex
            rw [h.kept _ _ hdevice]
            rfl
          have hmissing : ¬ ep.getRoutingDeviceIndex (UInt16.ofNat dst) ≠ noDevice := by
            unfold Endpoint.getRoutingDeviceIndex
            rw [hempty]
            exact fun hne => hne rfl
          rw [if_neg hmissing, hentry]
          have hother : ∀ key, key ≠ UInt16.ofNat dst →
              (ep.setRoutingEntry (UInt16.ofNat dst) device).routingTable.lookup key =
                ep.routingTable.lookup key := fun key hkey => AList.lookup_insert_ne hkey
          have hthis : (ep.setRoutingEntry (UInt16.ofNat dst) device).routingTable.lookup
              (UInt16.ofNat dst) = some device := AList.lookup_insert _
          refine ⟨?_, ?_, ?_, h.devices, h.single⟩
          · intro key d hlookup
            rw [hother key]
            · exact h.kept key d hlookup
            · rintro rfl
              rw [hnone] at hlookup
              cases hlookup
          · intro d hd hout'
            have hne : d ≠ dst := by
              rintro rfl
              rcases hout' with hout' | hsrc
              · exact hout' hin
              · exact hself hsrc.symm
            rw [hother _ fun hkey => hne ((rank_inj hd hdst).mp hkey)]
            refine h.fresh d hd ?_
            rcases hout' with hout' | hsrc
            · exact .inl fun hd => hout' (List.mem_append_left _ hd)
            · exact .inr hsrc
          · intro d hd hsrc hnone'
            by_cases hd' : d = dst
            · rw [hd', hthis, hdevice]
            · have hold := (List.mem_append.mp hd).resolve_right fun hnew => hd' (List.mem_singleton.mp hnew)
              rw [hother _ fun hkey => hd' ((rank_inj (hranks d hd) hdst).mp hkey)]
              exact h.got d hold hsrc hnone'
        -- the rank has an entry
        · have hhas : ∃ device, ep.routingTable.lookup (UInt16.ofNat dst) = some device ∧
              device ≠ noDevice := by
            cases hstart : start.routingTable.lookup (UInt16.ofNat dst) with
            | some device => exact ⟨device, h.kept _ _ hstart, hdevices _ _ hstart⟩
            | none =>
                have hold : dst ∈ dsts := by
                  by_contra hout
                  exact hfound ⟨hstart, hout⟩
                obtain ⟨device, hdevice⟩ := hnext dst hin hself hstart
                refine ⟨device, ?_, hdevices _ _ hdevice⟩
                rw [h.got dst hold (Ne.symm hself) hstart, hdevice]
          obtain ⟨device, hdevice, hreal⟩ := hhas
          have hpresent : ep.getRoutingDeviceIndex (UInt16.ofNat dst) ≠ noDevice := by
            unfold Endpoint.getRoutingDeviceIndex
            rw [hdevice]
            exact hreal
          rw [if_pos hpresent]
          exact h.skip fun hnone => .inr (by
            by_contra hout
            exact hfound ⟨hnone, hout⟩)

theorem Installed.entries_on_way (h : Installed links net) (hfew : links.length < noDevice)
    (hnext : ∀ dst < n, src ≠ dst → ¬ Linked links src dst → Linked links src (next dst)) :
    (∀ key d, (net src).routingTable.lookup key = some d → d ≠ noDevice) ∧
      ∀ dst ∈ List.range n, src ≠ dst → (net src).routingTable.lookup (UInt16.ofNat dst) = none →
        ∃ d, (net src).routingTable.lookup (UInt16.ofNat (next dst)) = some d := by
  constructor
  · intro key d hlookup
    have hlt := h.bound src key d hlookup
    have hle := h.devices src
    omega
  · intro d hd hself hnone
    rw [List.mem_range] at hd
    have hapart : ¬ Linked links src d := by
      intro hlinked
      obtain ⟨device, hlookup, -⟩ := (h.linked src d hlinked).entry
      rw [hnone] at hlookup
      cases hlookup
    obtain ⟨device, hlookup, -⟩ := (h.linked _ _ (hnext d hd hself hapart)).entry
    exact ⟨device, hlookup⟩

/-- In a network of proper links, with neighbors on the ways, the entries lead to the neighbor itself or
to the node on the way. -/
theorem build_leads {next : Nat → Nat → Nat} (hn : n ≤ 2 ^ 16) (hproper : Proper n links)
    (hfew : links.length < noDevice)
    (hnext : ∀ src < n, ∀ dst < n, src ≠ dst → ¬ Linked links src dst →
      next src dst < n ∧ Linked links src (next src dst))
    (hsrc : src < n) (hdst : dst < n) (hne : src ≠ dst) :
    (Linked links src dst → LeadsTo (build n links next src) dst dst) ∧
      (¬ Linked links src dst → LeadsTo (build n links next src) dst (next src dst)) := by
  have h := installed hn hproper
  have hfilled : Filled (next src) src (List.range n) (installLinks links src)
      (fillRoutes (next src) src (List.range n) (installLinks links src)) := by
    obtain ⟨hdevices, hway⟩ := h.entries_on_way hfew fun dst hdst hne hapart =>
      (hnext src hsrc dst hdst hne hapart).2
    refine fillRoutes_filled ?_ hdevices hway
    intro d hd
    rw [List.mem_range] at hd
    omega
  unfold build
  rw [if_pos hsrc]
  constructor
  · intro hlinked
    obtain ⟨device, hlookup, hpeer⟩ := (h.linked src dst hlinked).entry
    refine ⟨⟨device, hfilled.kept _ _ hlookup, ?_⟩, hfilled.single.trans (h.single src)⟩
    rw [hfilled.devices]
    exact hpeer
  · intro hapart
    obtain ⟨hlt, hlinked⟩ := hnext src hsrc dst hdst hne hapart
    obtain ⟨device, hlookup, hpeer⟩ := (h.linked _ _ hlinked).entry
    refine ⟨⟨device, ?_, ?_⟩, hfilled.single.trans (h.single src)⟩
    · rw [hfilled.got dst (List.mem_range.mpr hdst) hne.symm (h.apart src dst (by omega) hapart)]
      exact hlookup
    · rw [hfilled.devices]
      exact hpeer

theorem fillRoutes_peers (next : Nat → Nat) (src : Nat) (dsts : List Nat) (ep : Endpoint) :
    (fillRoutes next src dsts ep).peers = ep.peers := by
  unfold fillRoutes
  refine List.foldlRecOn (motive := fun ep' : Endpoint => ep'.peers = ep.peers) dsts (fillRoute next src) rfl
    fun ep' h dst _ => ?_
  unfold fillRoute
  split_ifs
  · exact h
  · exact h
  · exact h

theorem fillRoutes_stuck (hranks : ∀ d ∈ dsts, d < 2 ^ 16) (hdst : dst < 2 ^ 16)
    (hself : next dst = dst) (hnone : ep.getRoutingDeviceIndex (UInt16.ofNat dst) = noDevice) :
    (fillRoutes next src dsts ep).getRoutingDeviceIndex (UInt16.ofNat dst) = noDevice := by
  unfold fillRoutes
  refine List.foldlRecOn (motive := fun ep' : Endpoint =>
    ep'.getRoutingDeviceIndex (UInt16.ofNat dst) = noDevice) dsts (fillRoute next src) hnone
    fun ep' h d hd => ?_
  unfold fillRoute
  split_ifs
  · exact h
  · exact h
  · unfold Endpoint.getRoutingDeviceIndex Endpoint.setRoutingEntry
    by_cases hsame : d = dst
    · rw [hsame, hself, AList.lookup_insert]
      exact h
    · rw [AList.lookup_insert_ne fun hkey => hsame ((rank_inj hdst (hranks d hd)).mp hkey).symm]
      exact h

theorem not_shortestRoutes_of_stuck {next : Nat → Nat → Nat} (hn : n ≤ 2 ^ 16)
    (hproper : Proper n links) (hfew : links.length < noDevice) (hsrc : src < n) (hdst : dst < n)
    (hne : src ≠ dst) (hapart : ¬ Linked links src dst) (hself : next src dst = dst) :
    ¬ ShortestRoutes (build n links next) n dist := by
  intro h
  have hinstalled := installed hn hproper
  obtain ⟨device, hlookup, hreal⟩ := h.entries src hsrc dst hdst hne
  have hstuck : (build n links next src).getRoutingDeviceIndex (UInt16.ofNat dst) = noDevice := by
    unfold build
    rw [if_pos hsrc]
    refine fillRoutes_stuck ?_ (by omega) hself ?_
    · intro d hd
      rw [List.mem_range] at hd
      omega
    · unfold Endpoint.getRoutingDeviceIndex
      rw [hinstalled.apart src dst (by omega) hapart]
      rfl
  have hpeers : (build n links next src).peers = (installLinks links src).peers := by
    unfold build
    rw [if_pos hsrc, fillRoutes_peers]
  unfold Endpoint.getRoutingDeviceIndex at hstuck
  unfold Endpoint.getNNetDevices at hreal
  rw [hlookup, Option.getD_some] at hstuck
  rw [hpeers] at hreal
  have := hinstalled.devices src
  omega

/-- A loop whose rounds set entries, or keep the endpoint: an entry is that of a round, or as before. -/
theorem foldl_entries {f : Endpoint → Nat → Endpoint} (keep : Nat → Prop) (rank device : Nat → Nat)
    (js : List Nat) (ep : Endpoint) (hf : ∀ ep', ep'.peers = ep.peers → ∀ j ∈ js, (keep j → f ep' j = ep') ∧
      (¬ keep j → f ep' j = ep'.setRoutingEntry (UInt16.ofNat (rank j)) (device j))) :
    (js.foldl f ep).peers = ep.peers ∧ ∀ key,
      (∃ j ∈ js, ¬ keep j ∧ UInt16.ofNat (rank j) = key ∧
        (js.foldl f ep).routingTable.lookup key = some (device j)) ∨
      (∀ j ∈ js, ¬ keep j → UInt16.ofNat (rank j) ≠ key) ∧
        (js.foldl f ep).routingTable.lookup key = ep.routingTable.lookup key := by
  induction js generalizing ep with
  | nil => exact ⟨rfl, fun _ => .inr ⟨fun _ hj => absurd hj List.not_mem_nil, rfl⟩⟩
  | cons j js ih =>
      obtain ⟨hkeep, hset⟩ := hf ep rfl j List.mem_cons_self
      have hsame : (f ep j).peers = ep.peers := by
        by_cases hk : keep j
        · rw [hkeep hk]
        · rw [hset hk]
          rfl
      obtain ⟨hpeers, hentries⟩ := ih (f ep j) fun ep' hep j hj =>
        hf ep' (hep.trans hsame) j (List.mem_cons_of_mem _ hj)
      refine ⟨hpeers.trans hsame, fun key => ?_⟩
      rcases hentries key with ⟨i, hi, hentry⟩ | ⟨hout, hentry⟩
      · exact .inl ⟨i, List.mem_cons_of_mem _ hi, hentry⟩
      by_cases hk : keep j
      · rw [hkeep hk] at hentry
        exact .inr ⟨List.forall_mem_cons.mpr ⟨fun hn => absurd hk hn, hout⟩, by rwa [List.foldl_cons, hkeep hk]⟩
      rw [hset hk] at hentry
      by_cases hkey : UInt16.ofNat (rank j) = key
      · refine .inl ⟨j, List.mem_cons_self, hk, hkey, ?_⟩
        rw [List.foldl_cons, hset hk, hentry, ← hkey]
        exact AList.lookup_insert _
      · refine .inr ⟨List.forall_mem_cons.mpr ⟨fun _ => hkey, hout⟩, ?_⟩
        rw [List.foldl_cons, hset hk, hentry]
        exact AList.lookup_insert_ne (Ne.symm hkey)

theorem length_flatMap_le {α β : Type} {f : α → List β} {l : List α} (h : ∀ a ∈ l, (f a).length ≤ k)
    : (l.flatMap f).length ≤ l.length * k := by
  induction l with
  | nil => exact Nat.zero_le _
  | cons a l ih =>
      have hfirst := h a List.mem_cons_self
      have hrest := ih fun b hb => h b (List.mem_cons_of_mem _ hb)
      rw [List.flatMap_cons, List.length_append, List.length_cons, Nat.succ_mul]
      omega

/-- With a distance that is one between neighbors and one less from the node on the way, the routes are
shortest. -/
theorem shortestRoutes_build {next : Nat → Nat → Nat} (hn : n ≤ 2 ^ 16) (hproper : Proper n links)
    (hfew : links.length < noDevice) (hzero : ∀ src < n, ∀ dst < n, dist src dst = 0 ↔ src = dst)
    (hlinked : ∀ src < n, ∀ dst < n, Linked links src dst → dist src dst = 1)
    (hnext : ∀ src < n, ∀ dst < n, src ≠ dst → ¬ Linked links src dst → next src dst < n ∧
      Linked links src (next src dst) ∧ dist (next src dst) dst + 1 = dist src dst) :
    ShortestRoutes (build n links next) n dist := by
  refine shortestRoutes_of_closer (fun src dst => if Linked links src dst then dst else next src dst)
    hn ?_ hzero ?_
  · intro src hsrc dst hdst hne
    have hway : ∀ src < n, ∀ dst < n, src ≠ dst → ¬ Linked links src dst →
        next src dst < n ∧ Linked links src (next src dst) := by
      intro src hsrc dst hdst hne hapart
      obtain ⟨hlt, hlink, -⟩ := hnext src hsrc dst hdst hne hapart
      exact ⟨hlt, hlink⟩
    obtain ⟨hdirect, hindirect⟩ := build_leads hn hproper hfew hway hsrc hdst hne
    split
    · exact hdirect ‹_›
    · exact hindirect ‹_›
  · intro src hsrc dst hdst hne
    split
    · rename_i hdirect
      rw [(hzero dst hdst dst hdst).mpr rfl, hlinked src hsrc dst hdst hdirect]
      exact ⟨hdst, rfl⟩
    · rename_i hapart
      obtain ⟨hlt, -, hcloser⟩ := hnext src hsrc dst hdst hne hapart
      exact ⟨hlt, hcloser⟩

end ProtoBridge.Topology
