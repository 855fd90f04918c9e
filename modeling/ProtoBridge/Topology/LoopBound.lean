import Mathlib.Algebra.BigOperators.Group.List.Basic
import Mathlib.Data.Finset.Lattice.Fold
import ProtoBridge.Topology.Gateway

/-!
# How often a packet is forwarded

Only a switch counts the time to live down. So a packet is forwarded a bounded number of times just where
the tables of endpoints and gateways do not lead in a circle over links between them, and `MaxHops` does
not stop it where they do.
-/

namespace ProtoBridge.Topology

open Lib

variable {net : HybridNetwork} {σ σ' : Journey} {p : Transit} {dst : UInt16} {v w deviceIndex : Nat}

/-! ## What a step does -/

theorem Endpoint.nextCurrent_lt {ep : Endpoint} {r : Rotation} (hr : r.currentDeviceIndex < ep.peers.length)
    (destRank : UInt16) : ep.nextCurrent r destRank < ep.peers.length := by
  have hlt := Nat.mod_lt (r.currentDeviceIndex + 1) (Nat.zero_lt_of_lt hr)
  unfold nextCurrent
  dsimp only
  split
  · exact hlt
  · split
    · exact hr
    · split
      · exact hr
      · exact hlt

namespace Journey

theorem InRange.resolve {ep : FabricEndpoint} (h : σ.InRange net) (hpeers : (net.node v).peers = ep.tables.peers)
    (destRank : UInt16) : (σ.resolve v ep destRank).InRange net := by
  intro u hu
  show Function.update σ.currentDeviceIndex v _ u < _
  by_cases heq : u = v
  · subst heq
    rw [Function.update_self, hpeers]
    apply Endpoint.nextCurrent_lt
    rw [← hpeers]
    exact h u hu
  · rw [Function.update_of_ne heq]
    exact h u hu

/-- What has become of a packet that has come to its node. -/
inductive Received (net : HybridNetwork) (p : Transit) (σ σ' : Journey) : Prop
  | kept (flying : σ'.flying = σ.flying) (scheduled : σ'.scheduled = σ.scheduled)
      (forwards : σ'.forwards = σ.forwards)
  | sent (deviceIndex : Nat) (h : Fabric.Header)
      (forwarder : ∀ ports, net.node p.node ≠ .switch ports)
      (ttl : h.ttl = p.header.ttl) (destRank : h.destRank = p.header.destRank)
      (routed : (net.node p.node).peers ≠ [] → (net.node p.node).Routes p.header.destRank deviceIndex)
      (flying : σ'.flying = σ.flying ++ net.transmit p.node deviceIndex h)
      (scheduled : σ'.scheduled = σ.scheduled) (forwards : σ'.forwards = σ.forwards + 1)
  | scheduled (w : Scheduled)
      (forwarder : ∀ ports, net.node p.node ≠ .switch ports) (node : w.node = p.node)
      (ttl : w.header.ttl = p.header.ttl) (destRank : w.header.destRank = p.header.destRank)
      (routed : (net.node p.node).Routes p.header.destRank w.route.deviceIndex)
      (flying : σ'.flying = σ.flying) (scheduled : σ'.scheduled = σ.scheduled ++ [w])
      (forwards : σ'.forwards = σ.forwards + 1)
  | switched (ports outs : List Nat) (h : Fabric.Header) (switch : net.node p.node = .switch ports)
      (alive : 1 < p.header.ttl) (ttl : h.ttl = p.header.ttl - 1) (destRank : h.destRank = p.header.destRank)
      (few : outs.length ≤ ports.length ∨ ∃ outPort, outs = [outPort])
      (flying : σ'.flying = σ.flying ++ outs.flatMap fun port => net.transmit p.node port h)
      (scheduled : σ'.scheduled = σ.scheduled) (forwards : σ'.forwards = σ.forwards)

theorem carryOut_received {ep : FabricEndpoint} (hrange : σ.InRange net)
    (hforwarder : ∀ ports, net.node p.node ≠ .switch ports) (hpeers : (net.node p.node).peers = ep.tables.peers)
    (hroutes : ∀ deviceIndex, ep.Routes p.header.destRank deviceIndex →
      (net.node p.node).Routes p.header.destRank deviceIndex) :
    Received net p σ (σ.carryOut net p.node ep
      (ep.tryForwardReceivedPacket (σ.currentDeviceIndex p.node) p.header)) := by
  unfold FabricEndpoint.tryForwardReceivedPacket Endpoint.tryForwardReceivedPacket
  by_cases hhere : p.header.destRank = ep.rank ∨ ep.tables.routingTable.entries = []
  · rw [if_pos hhere]
    exact .kept rfl rfl rfl
  · rw [if_neg hhere]
    obtain ⟨haway, htable⟩ := not_or.mp hhere
    refine .sent _ { p.header with destMac := ep.resolveDestMac p.header.destRank } hforwarder rfl rfl ?_ rfl rfl rfl
    intro hsome
    have hcurrent := hrange p.node hsome
    rw [hpeers] at hcurrent
    exact hroutes _ ⟨haway, htable, _, hcurrent, rfl⟩

theorem receive_received (hrange : σ.InRange net) (linkUp : Nat → Bool) :
    Received net p σ (σ.receive net linkUp p) := by
  unfold receive
  cases hnode : net.node p.node with
  | endpoint ep =>
      apply carryOut_received hrange
      · rw [hnode]
        exact nofun
      · rw [hnode]
        rfl
      · rw [hnode]
        exact fun _ h => h
  | gateway gw =>
      dsimp only
      unfold GatewayEndpoint.tryForwardReceivedPacket
      by_cases hhere : p.header.destRank = gw.rank
      · rw [if_pos hhere]
        exact .kept rfl rfl rfl
      · rw [if_neg hhere]
        cases hroute : gw.lookupRoute p.header.destRank with
        | none =>
            apply carryOut_received hrange
            · rw [hnode]
              exact nofun
            · rw [hnode]
              rfl
            · rw [hnode]
              intro deviceIndex h
              show gw.Routes _ _
              unfold GatewayEndpoint.Routes
              rw [hroute]
              exact h
        | some route =>
            dsimp only
            refine .scheduled ⟨p.node, route, _⟩ ?_ rfl ?_ ?_ ?_ rfl rfl rfl
            · rw [hnode]
              exact nofun
            · rfl
            · rfl
            · rw [hnode]
              show gw.Routes _ _
              unfold GatewayEndpoint.Routes
              rw [hroute]
              exact ⟨hhere, rfl⟩
  | switch ports =>
      dsimp only
      unfold receiveFromPort
      split
      · exact .kept rfl rfl rfl
      · rename_i halive
        refine .switched ports _ { p.header with ttl := p.header.ttl - 1 } hnode ?_ rfl rfl ?_ rfl rfl rfl
        · exact UInt8.not_le.mp halive
        · generalize (Switch.NvSwitch.receiveFromPort _ _ _ _ _ _).2 = forwarding
          cases forwarding with
          | port outPort => exact .inr ⟨outPort, rfl⟩
          | dropped => exact .inl (Nat.zero_le _)
          | flooded =>
              refine .inl ((List.length_filter_le _ _).trans ?_)
              rw [List.length_range]

theorem InRange.carryOut {ep : FabricEndpoint} (h : σ.InRange net)
    (hpeers : (net.node v).peers = ep.tables.peers) (forwarding : Forwarding) :
    (σ.carryOut net v ep forwarding).InRange net := by
  cases forwarding with
  | receive => exact h
  | send deviceIndex header => exact h.resolve hpeers header.destRank
  | schedule route header => exact h

theorem InRange.step (h : σ.InRange net) (act : JourneyAct) : (σ.step net act).InRange net := by
  cases act with
  | arrive p linkUp =>
      show (receive net { σ with flying := σ.flying.erase p } linkUp p).InRange net
      unfold receive
      cases hnode : net.node p.node with
      | endpoint ep => exact InRange.carryOut (by exact h) (by rw [hnode]; rfl) _
      | gateway gw => exact InRange.carryOut (by exact h) (by rw [hnode]; rfl) _
      | switch ports =>
          dsimp only
          unfold receiveFromPort
          split
          · exact h
          · exact h
  | lose p => exact h
  | forwardToFabric w => exact h
  | expire w => exact h
  | sendOther v destRank =>
      show (sendOther net σ v destRank).InRange net
      unfold sendOther
      cases hnode : net.node v with
      | endpoint ep => exact h.resolve (by rw [hnode]; rfl) destRank
      | gateway gw => exact h.resolve (by rw [hnode]; rfl) destRank
      | switch ports => exact h

end Journey

theorem journey_inRange : (journey net p).Invariant (Journey.InRange net) := by
  apply Machine.Inductive.invariant
  constructor
  · exact fun _ h => h.1
  · rintro σ act _ h - ⟨⟩
    exact h.step act

/-! ## Tables without a circle -/

/-- How often the copies of a packet can be forwarded from a switch on, with a number of ports at most and
heights up to a greatest one, by the time to live that is left after it. -/
def switchWeight (ports top : Nat) : Nat → Nat
  | 0 => 0
  | ttl + 1 => ports * (switchWeight ports top ttl + top + 1)

/-- The height of each node, which each forwarding over a link makes smaller. -/
structure Heights (net : HybridNetwork) (dst : UInt16) where
  ports : Nat
  top : Nat
  height : Nat → Nat
  fewPorts : ∀ v < net.size, (net.node v).peers.length ≤ ports
  below : ∀ v, height v ≤ top
  falls : ∀ v w, net.Routes dst v w → height w < height v

namespace Heights

variable (b : Heights net dst)

/-- How often a copy that comes to a node with a time to live can be forwarded. -/
def weight (ttl : UInt8) (v : Nat) : Nat :=
  match net.node v with
  | .switch _ => switchWeight b.ports b.top (ttl.toNat - 1)
  | _ => switchWeight b.ports b.top (ttl.toNat - 1) + b.height v + 1

/-- The same for all copies on links. -/
def onLinks (flying : List Transit) : Nat := (flying.map fun q => b.weight q.header.ttl q.node).sum

/-- The same for all delayed copies. -/
def delayed (scheduled : List Scheduled) : Nat :=
  (scheduled.map fun w => b.onLinks (net.transmit w.node w.route.deviceIndex w.header)).sum

theorem weight_le (ttl : UInt8) (v : Nat) :
    b.weight ttl v ≤ switchWeight b.ports b.top (ttl.toNat - 1) + b.top + 1 := by
  have hbelow := b.below v
  unfold weight
  split
  · omega
  · omega

theorem onLinks_append (l l' : List Transit) : b.onLinks (l ++ l') = b.onLinks l + b.onLinks l' := by
  unfold onLinks
  rw [List.map_append, List.sum_append]

theorem onLinks_erase {l : List Transit} (hp : p ∈ l) :
    b.onLinks l = b.weight p.header.ttl p.node + b.onLinks (l.erase p) :=
  (List.sum_map_erase _ hp).symm

theorem delayed_erase {l : List Scheduled} {w : Scheduled} (hw : w ∈ l) : b.delayed l =
    b.onLinks (net.transmit w.node w.route.deviceIndex w.header) + b.delayed (l.erase w) :=
  (List.sum_map_erase _ hw).symm

theorem onLinks_transmit (v deviceIndex : Nat) {h h' : Fabric.Header} (httl : h.ttl = h'.ttl) :
    b.onLinks (net.transmit v deviceIndex h) = b.onLinks (net.transmit v deviceIndex h') := by
  unfold HybridNetwork.transmit
  split
  · show b.weight h.ttl _ + 0 = b.weight h'.ttl _ + 0
    rw [httl]
  · rfl

theorem onLinks_transmit_le (v deviceIndex : Nat) (h : Fabric.Header) :
    b.onLinks (net.transmit v deviceIndex h) ≤ switchWeight b.ports b.top (h.ttl.toNat - 1) + b.top + 1 := by
  unfold HybridNetwork.transmit
  split
  · exact b.weight_le h.ttl _
  · exact Nat.zero_le _

theorem onLinks_sent {h : Fabric.Header} (hforwarder : ∀ ports, net.node v ≠ .switch ports)
    (hrouted : (net.node v).peers ≠ [] → (net.node v).Routes dst deviceIndex) :
    b.onLinks (net.transmit v deviceIndex h) + 1 ≤ b.weight h.ttl v := by
  have hat : b.weight h.ttl v = switchWeight b.ports b.top (h.ttl.toNat - 1) + b.height v + 1 := by
    unfold weight
    split
    · rename_i ports hswitch
      exact absurd hswitch (hforwarder ports)
    · rfl
  rw [hat]
  unfold HybridNetwork.transmit
  split
  · rename_i w hpeer
    have hsome : (net.node v).peers ≠ [] := by
      intro hempty
      rw [hempty] at hpeer
      cases hpeer
    have hlower := b.falls v w ⟨deviceIndex, hrouted hsome, hpeer⟩
    show b.weight h.ttl w + 0 + 1 ≤ _
    unfold weight
    split
    · omega
    · omega
  · show 0 + 1 ≤ _
    omega

theorem onLinks_switched {ports outs : List Nat} {h : Fabric.Header} {ttl : UInt8} (hv : v < net.size)
    (hswitch : net.node v = .switch ports) (halive : 1 < ttl) (httl : h.ttl = ttl - 1)
    (hfew : outs.length ≤ ports.length ∨ ∃ outPort, outs = [outPort]) :
    b.onLinks (outs.flatMap fun port => net.transmit v port h) ≤ b.weight ttl v := by
  have hports : ports.length ≤ b.ports := by
    have := b.fewPorts v hv
    rwa [hswitch] at this
  have hall : ∀ outs : List Nat, b.onLinks (outs.flatMap fun port => net.transmit v port h) ≤
      outs.length * (switchWeight b.ports b.top (h.ttl.toNat - 1) + b.top + 1) := by
    intro outs
    induction outs with
    | nil => exact Nat.zero_le _
    | cons port outs ih =>
        have hone := b.onLinks_transmit_le v port h
        rw [List.flatMap_cons, onLinks_append, List.length_cons, Nat.succ_mul]
        omega
  have hleft : ttl.toNat - 1 = h.ttl.toNat - 1 + 1 := by
    have hone : (1 : UInt8).toNat < ttl.toNat := halive
    rw [httl, UInt8.toNat_sub_of_le _ _ (UInt8.le_of_lt halive)]
    change 1 < ttl.toNat at hone
    change _ = ttl.toNat - 1 - 1 + 1
    omega
  have hat : b.weight ttl v = b.ports * (switchWeight b.ports b.top (h.ttl.toNat - 1) + b.top + 1) := by
    unfold weight
    rw [hswitch, hleft]
    rfl
  rw [hat]
  rcases hfew with hle | ⟨outPort, rfl⟩
  · exact (hall outs).trans (Nat.mul_le_mul_right _ (hle.trans hports))
  -- a port that there is counts, and from another one nothing is sent
  · by_cases hsome : ports = []
    · have hnone : net.transmit v outPort h = [] := by
        unfold HybridNetwork.transmit
        rw [hswitch, hsome]
        rfl
      rw [List.flatMap_cons, hnone]
      exact Nat.zero_le _
    · have hpos := List.length_pos_of_ne_nil hsome
      exact (hall [outPort]).trans (Nat.mul_le_mul_right _ (by rw [List.length_singleton]; omega))

/-- The copies of a packet, and that they can be forwarded so often only. -/
structure Bounded (bound : Nat) (σ : Journey) : Prop where
  flying : ∀ q ∈ σ.flying, q.node < net.size ∧ q.header.destRank = dst
  scheduled : ∀ w ∈ σ.scheduled, w.header.destRank = dst
  budget : σ.forwards + b.onLinks σ.flying + b.delayed σ.scheduled ≤ bound

variable {b} {bound : Nat}

theorem transmit_inside {h : Fabric.Header} (hdest : h.destRank = dst) :
    ∀ q ∈ net.transmit v deviceIndex h, q.node < net.size ∧ q.header.destRank = dst := by
  unfold HybridNetwork.transmit
  split
  · rename_i w hpeer
    intro q hq
    rw [List.mem_singleton.mp hq]
    exact ⟨net.inside v w (List.mem_of_getElem? hpeer), hdest⟩
  · exact fun q hq => absurd hq List.not_mem_nil

/-- What a node does with a copy costs what the copy weighs. -/
theorem Bounded.received (h : b.Bounded bound σ) (hp : p ∈ σ.flying)
    (hreceived : Journey.Received net p { σ with flying := σ.flying.erase p } σ') : b.Bounded bound σ' := by
  have hrest : ∀ q ∈ σ.flying.erase p, q.node < net.size ∧ q.header.destRank = dst :=
    fun q hq => h.flying q (List.mem_of_mem_erase hq)
  obtain ⟨hinside, hdest⟩ := h.flying p hp
  have hbudget := h.budget
  rw [b.onLinks_erase hp] at hbudget
  cases hreceived with
  | kept hflying hscheduled hforwards =>
      refine ⟨?_, ?_, ?_⟩
      · rw [hflying]
        exact hrest
      · rw [hscheduled]
        exact h.scheduled
      · rw [hflying, hscheduled, hforwards]
        dsimp only
        omega
  | sent deviceIndex header hforwarder httl hrank hrouted hflying hscheduled hforwards =>
      rw [hdest] at hrouted hrank
      have hcost := b.onLinks_sent (h := header) hforwarder hrouted
      rw [httl] at hcost
      refine ⟨?_, ?_, ?_⟩
      · rw [hflying]
        intro q hq
        rcases List.mem_append.mp hq with hq | hq
        · exact hrest q hq
        · exact transmit_inside hrank q hq
      · rw [hscheduled]
        exact h.scheduled
      · rw [hflying, hscheduled, hforwards, onLinks_append]
        dsimp only
        omega
  | scheduled w hforwarder hnode httl hrank hrouted hflying hscheduled hforwards =>
      rw [hdest] at hrouted hrank
      have hcost := b.onLinks_sent (h := w.header) hforwarder fun _ => hrouted
      rw [httl] at hcost
      have hnew : b.delayed (σ.scheduled ++ [w]) = b.delayed σ.scheduled +
          b.onLinks (net.transmit p.node w.route.deviceIndex w.header) := by
        unfold delayed
        rw [List.map_append, List.sum_append, ← hnode]
        rfl
      refine ⟨?_, ?_, ?_⟩
      · rw [hflying]
        exact hrest
      · rw [hscheduled]
        intro w' hw'
        rcases List.mem_append.mp hw' with hw' | hw'
        · exact h.scheduled w' hw'
        · obtain rfl := List.mem_singleton.mp hw'
          exact hrank
      · rw [hflying, hscheduled, hforwards, hnew]
        dsimp only
        omega
  | switched ports outs header hswitch halive httl hrank hfew hflying hscheduled hforwards =>
      have hcost := b.onLinks_switched hinside hswitch halive httl hfew
      refine ⟨?_, ?_, ?_⟩
      · rw [hflying]
        intro q hq
        rcases List.mem_append.mp hq with hq | hq
        · exact hrest q hq
        · obtain ⟨port, -, hq⟩ := List.mem_flatMap.mp hq
          exact transmit_inside (hrank.trans hdest) q hq
      · rw [hscheduled]
        exact h.scheduled
      · rw [hflying, hscheduled, hforwards, onLinks_append]
        dsimp only
        omega

theorem Bounded.step (h : b.Bounded bound σ) (hrange : σ.InRange net) {act : JourneyAct}
    (henabled : σ.Enabled act) : b.Bounded bound (σ.step net act) := by
  have hbudget := h.budget
  cases act with
  | arrive p linkUp =>
      have hrange' : Journey.InRange net { σ with flying := σ.flying.erase p } := hrange
      exact h.received henabled (Journey.receive_received hrange' linkUp)
  | lose p =>
      rw [b.onLinks_erase henabled] at hbudget
      refine ⟨fun q hq => h.flying q (List.mem_of_mem_erase hq), h.scheduled, ?_⟩
      show σ.forwards + b.onLinks (σ.flying.erase p) + b.delayed σ.scheduled ≤ bound
      omega
  | forwardToFabric w =>
      have hsame : b.onLinks (net.transmit w.node w.route.deviceIndex (forwardToFabric w.route w.header)) =
          b.onLinks (net.transmit w.node w.route.deviceIndex w.header) := b.onLinks_transmit _ _ rfl
      rw [b.delayed_erase henabled] at hbudget
      refine ⟨?_, fun w' hw' => h.scheduled w' (List.mem_of_mem_erase hw'), ?_⟩
      · intro q hq
        rcases List.mem_append.mp hq with hq | hq
        · exact h.flying q hq
        · exact transmit_inside (h := forwardToFabric w.route w.header) (h.scheduled w henabled) q hq
      · show σ.forwards + b.onLinks (σ.flying ++ _) + b.delayed (σ.scheduled.erase w) ≤ bound
        rw [onLinks_append, hsame]
        omega
  | expire w =>
      rw [b.delayed_erase henabled] at hbudget
      refine ⟨h.flying, fun w' hw' => h.scheduled w' (List.mem_of_mem_erase hw'), ?_⟩
      show σ.forwards + b.onLinks σ.flying + b.delayed (σ.scheduled.erase w) ≤ bound
      omega
  | sendOther v destRank =>
      show b.Bounded bound (σ.sendOther net v destRank)
      unfold Journey.sendOther
      split
      · exact ⟨h.flying, h.scheduled, hbudget⟩
      · exact ⟨h.flying, h.scheduled, hbudget⟩
      · exact h

theorem bounded (hinside : p.node < net.size) (hdest : p.header.destRank = dst) :
    (journey net p).Invariant (b.Bounded (b.weight p.header.ttl p.node)) := by
  refine journey_inRange.strengthen ?_ ?_
  · rintro σ ⟨-, hflying, hscheduled, hforwards⟩
    refine ⟨?_, ?_, ?_⟩
    · rw [hflying]
      intro q hq
      rw [List.mem_singleton.mp hq]
      exact ⟨hinside, hdest⟩
    · rw [hscheduled]
      exact fun w hw => absurd hw List.not_mem_nil
    · rw [hflying, hscheduled, hforwards]
      show 0 + (b.weight p.header.ttl p.node + 0) + 0 ≤ _
      omega
  · rintro σ act _ hrange h henabled ⟨⟩
    exact h.step hrange henabled

end Heights

theorem exists_heights (hcircle : ∀ v, ¬ Relation.TransGen (net.Routes dst) v v) :
    Nonempty (Heights net dst) := by
  obtain ⟨height, hbelow, hfalls⟩ := exists_height (n := net.size) (fun v w hroute => by
    obtain ⟨deviceIndex, -, hpeer⟩ := hroute
    exact net.inside v w (List.mem_of_getElem? hpeer)) hcircle
  refine ⟨(Finset.range net.size).sup fun v => (net.node v).peers.length, net.size, height, ?_, hbelow, hfalls⟩
  intro v hv
  exact Finset.le_sup (f := fun v => (net.node v).peers.length) (Finset.mem_range.mpr hv)

/-! ## Round the circle -/

/-- A node forwards by the tables of an endpoint, its own or those under a gateway. -/
def Node.Forwards (node : Node) (ep : FabricEndpoint) : Prop :=
  node = .endpoint ep ∨ ∃ gw : GatewayEndpoint, node = .gateway gw ∧ gw.toFabricEndpoint = ep

/-- One copy of the packet is on its way to a node, after a number of forwards. -/
structure Journey.Carries (dst : UInt16) (v n : Nat) (σ : Journey) : Prop where
  flying : ∃ q : Transit, σ.flying = [q] ∧ q.node = v ∧ q.header.destRank = dst
  scheduled : σ.scheduled = []
  forwards : σ.forwards = n

variable {n : Nat} {ep : FabricEndpoint}

/-- Which device an endpoint resolves does not depend on its rotation, or the rotation goes on by one. -/
theorem resolveDeviceIndex_or_turns {ep : Endpoint} (hpeers : ep.peers ≠ []) (sprayingEnabled : Bool)
    (destRank : UInt16) :
    (∀ c c', ep.resolveDeviceIndex ⟨sprayingEnabled, c⟩ destRank =
      ep.resolveDeviceIndex ⟨sprayingEnabled, c'⟩ destRank) ∨
    ∀ c, ep.nextCurrent ⟨sprayingEnabled, c⟩ destRank = (c + 1) % ep.peers.length := by
  unfold Endpoint.resolveDeviceIndex Endpoint.nextCurrent
  dsimp only
  by_cases hspray : sprayingEnabled = true ∧ ((ep.routingDevicesTable.lookup destRank).getD []).length > 1
  · right
    intro c
    rw [if_pos hspray]
  · simp only [if_neg hspray]
    cases ep.routingTable.lookup destRank with
    | some deviceIndex => exact .inl fun _ _ => rfl
    | none => exact .inr fun _ => if_neg hpeers

theorem exists_turned (hreach : (journey net p).Reachable σ) (hforwards : (net.node v).Forwards ep)
    (hpeers : (net.node v).peers = ep.tables.peers) {current : Nat} (hcurrent : current < ep.tables.peers.length)
    (dst : UInt16) :
    ∃ σ', (journey net p).Reachable σ' ∧ σ'.flying = σ.flying ∧ σ'.scheduled = σ.scheduled ∧
      σ'.forwards = σ.forwards ∧ ep.tables.resolveDeviceIndex (ep.rotation (σ'.currentDeviceIndex v)) dst =
        ep.tables.resolveDeviceIndex (ep.rotation current) dst := by
  have hsome : ep.tables.peers ≠ [] := List.ne_nil_of_length_pos (Nat.zero_lt_of_lt hcurrent)
  have hstart := journey_inRange σ hreach v (by rwa [hpeers])
  rw [hpeers] at hstart
  rcases resolveDeviceIndex_or_turns hsome ep.sprayingEnabled dst with hsame | hturns
  · exact ⟨σ, hreach, rfl, rfl, rfl, hsame _ _⟩
  · have hturned : ∀ k, ∃ σ', (journey net p).Reachable σ' ∧ σ'.flying = σ.flying ∧ σ'.scheduled = σ.scheduled ∧
        σ'.forwards = σ.forwards ∧
        σ'.currentDeviceIndex v = (σ.currentDeviceIndex v + k) % ep.tables.peers.length := by
      intro k
      induction k with
      | zero => exact ⟨σ, hreach, rfl, rfl, rfl, (Nat.mod_eq_of_lt hstart).symm⟩
      | succ k ih =>
          obtain ⟨σ', hreach', hflying, hscheduled, hcount, hat⟩ := ih
          have hstep : (journey net p).Reachable (σ'.step net (.sendOther v dst)) :=
            .step hreach' (show (journey net p).enabled σ' (.sendOther v dst) from trivial) rfl
          have hother : σ'.step net (.sendOther v dst) = σ'.resolve v ep dst := by
            show σ'.sendOther net v dst = _
            unfold Journey.sendOther
            rcases hforwards with hnode | ⟨gw, hnode, rfl⟩
            · rw [hnode]
            · rw [hnode]
          refine ⟨σ'.resolve v ep dst, hother ▸ hstep, hflying, hscheduled, hcount, ?_⟩
          show Function.update σ'.currentDeviceIndex v _ v = _
          rw [Function.update_self]
          show ep.tables.nextCurrent ⟨ep.sprayingEnabled, σ'.currentDeviceIndex v⟩ dst = _
          rw [hturns, hat, Nat.mod_add_mod, Nat.add_assoc]
    obtain ⟨σ', hreach', hflying, hscheduled, hcount, hat⟩ :=
      hturned (ep.tables.peers.length - σ.currentDeviceIndex v + current)
    refine ⟨σ', hreach', hflying, hscheduled, hcount, ?_⟩
    have hround : σ.currentDeviceIndex v + (ep.tables.peers.length - σ.currentDeviceIndex v + current) =
        current + ep.tables.peers.length := by omega
    rw [hat, hround, Nat.add_mod_right, Nat.mod_eq_of_lt hcurrent]

theorem exists_sent (hreach : (journey net p).Reachable σ) (h : σ.Carries dst v n)
    (hforwards : (net.node v).Forwards ep) (hpeers : (net.node v).peers = ep.tables.peers)
    (hdecides : ∀ (σ : Journey) (q : Transit), q.node = v → q.header.destRank = dst →
      σ.receive net (fun _ => true) q =
        σ.carryOut net v ep (ep.tryForwardReceivedPacket (σ.currentDeviceIndex v) q.header))
    (hroute : ep.Routes dst deviceIndex) (hpeer : (net.node v).peers[deviceIndex]? = some w) :
    ∃ σ', (journey net p).Reachable σ' ∧ σ'.Carries dst w (n + 1) := by
  obtain ⟨haway, htable, current, hcurrent, hresolve⟩ := hroute
  obtain ⟨q, hq, hnode, rfl⟩ := h.flying
  obtain ⟨σ', hreach', hflying, hscheduled, hcount, hsame⟩ :=
    exists_turned hreach hforwards hpeers hcurrent q.header.destRank
  rw [hresolve] at hsame
  rw [h.scheduled] at hscheduled
  rw [hq] at hflying
  have harrive : σ'.step net (.arrive q fun _ => true) = { σ' with flying := [] }.carryOut net v ep
      (.send deviceIndex { q.header with destMac := ep.resolveDestMac q.header.destRank }) := by
    show { σ' with flying := σ'.flying.erase q }.receive net (fun _ => true) q = _
    rw [hflying, List.erase_cons_head, hdecides _ q hnode rfl]
    unfold FabricEndpoint.tryForwardReceivedPacket Endpoint.tryForwardReceivedPacket
    rw [if_neg (not_or.mpr ⟨haway, htable⟩)]
    dsimp only
    rw [hsame]
  refine ⟨_, .step (a := .arrive q fun _ => true) hreach' ?_ (congrArg Except.ok harrive), ?_⟩
  · show q ∈ σ'.flying
    rw [hflying]
    exact List.mem_singleton.mpr rfl
  · refine ⟨⟨⟨w, net.farPort v deviceIndex, { q.header with destMac := ep.resolveDestMac q.header.destRank }⟩,
      ?_, rfl, rfl⟩, hscheduled, congrArg (· + 1) (hcount.trans h.forwards)⟩
    show [] ++ net.transmit v deviceIndex _ = _
    unfold HybridNetwork.transmit
    rw [hpeer]
    rfl

theorem exists_scheduled {gw : GatewayEndpoint} {route : RouteEntry} (hreach : (journey net p).Reachable σ)
    (h : σ.Carries dst v n) (hnode : net.node v = .gateway gw) (haway : dst ≠ gw.rank)
    (hroute : gw.lookupRoute dst = some route) (hpeer : (net.node v).peers[route.deviceIndex]? = some w) :
    ∃ σ', (journey net p).Reachable σ' ∧ σ'.Carries dst w (n + 1) := by
  obtain ⟨q, hq, hqnode, rfl⟩ := h.flying
  have hdecided : ∃ header : Fabric.Header, header.destRank = q.header.destRank ∧
      gw.tryForwardReceivedPacket (σ.currentDeviceIndex v) q.header = .schedule route header := by
    unfold GatewayEndpoint.tryForwardReceivedPacket
    rw [if_neg haway, hroute]
    refine ⟨_, ?_, rfl⟩
    rfl
  obtain ⟨header, hdest, hdecided⟩ := hdecided
  have harrive : σ.step net (.arrive q fun _ => true) =
      { σ with flying := [], scheduled := [⟨v, route, header⟩], forwards := σ.forwards + 1 } := by
    show { σ with flying := σ.flying.erase q }.receive net (fun _ => true) q = _
    unfold Journey.receive
    rw [hqnode, hnode, hq, List.erase_cons_head]
    dsimp only
    rw [hdecided]
    show { σ with flying := [], scheduled := σ.scheduled ++ [_], forwards := σ.forwards + 1 } = _
    rw [h.scheduled]
    rfl
  have harrived : (journey net p).Reachable (σ.step net (.arrive q fun _ => true)) := by
    refine .step hreach ?_ rfl
    show q ∈ σ.flying
    rw [hq]
    exact List.mem_singleton.mpr rfl
  rw [harrive] at harrived
  refine ⟨_, .step (a := .forwardToFabric ⟨v, route, header⟩) harrived (List.mem_singleton.mpr rfl) rfl, ?_⟩
  refine ⟨⟨⟨w, net.farPort v route.deviceIndex, forwardToFabric route header⟩, ?_, rfl, hdest⟩, ?_,
    congrArg (· + 1) h.forwards⟩
  · show [] ++ net.transmit v route.deviceIndex _ = _
    unfold HybridNetwork.transmit
    rw [hpeer]
    rfl
  · exact List.erase_cons_head (⟨v, route, header⟩ : Scheduled) []

theorem exists_hop (hreach : (journey net p).Reachable σ) (h : σ.Carries dst v n)
    (hroutes : net.Routes dst v w) : ∃ σ', (journey net p).Reachable σ' ∧ σ'.Carries dst w (n + 1) := by
  obtain ⟨deviceIndex, hroute, hpeer⟩ := hroutes
  cases hnode : net.node v with
  | endpoint ep =>
      rw [hnode] at hroute
      refine exists_sent hreach h (.inl hnode) (by rw [hnode]; rfl) ?_ hroute hpeer
      intro σ q hq _
      unfold Journey.receive
      rw [hq, hnode]
  | gateway gw =>
      rw [hnode] at hroute
      replace hroute : gw.Routes dst deviceIndex := hroute
      unfold GatewayEndpoint.Routes at hroute
      cases hlookup : gw.lookupRoute dst with
      | some route =>
          rw [hlookup] at hroute
          obtain ⟨haway, rfl⟩ := hroute
          exact exists_scheduled hreach h hnode haway hlookup hpeer
      | none =>
          rw [hlookup] at hroute
          refine exists_sent hreach h (.inr ⟨gw, hnode, rfl⟩) (by rw [hnode]; rfl) ?_ hroute hpeer
          intro σ q hq hdest
          unfold Journey.receive
          rw [hq, hnode]
          dsimp only
          unfold GatewayEndpoint.tryForwardReceivedPacket
          rw [hdest, if_neg hroute.1, hlookup]
  | switch ports =>
      rw [hnode] at hroute
      cases hroute

theorem exists_way (hreach : (journey net p).Reachable σ) (h : σ.Carries dst v n)
    (hway : Relation.TransGen (net.Routes dst) v w) :
    ∃ σ' m, (journey net p).Reachable σ' ∧ σ'.Carries dst w m ∧ n < m := by
  induction hway with
  | single hroutes =>
      obtain ⟨σ', hreach', hcarries⟩ := exists_hop hreach h hroutes
      exact ⟨σ', n + 1, hreach', hcarries, Nat.lt_succ_self n⟩
  | tail _ hroutes ih =>
      obtain ⟨σ', m, hreach', hcarries, hless⟩ := ih
      obtain ⟨σ'', hreach'', hcarries'⟩ := exists_hop hreach' hcarries hroutes
      exact ⟨σ'', m + 1, hreach'', hcarries', Nat.lt_succ_of_lt hless⟩

theorem not_bounded_of_circle (hcircle : Relation.TransGen (net.Routes p.header.destRank) p.node p.node)
    (bound : Nat) : ¬ (journey net p).Invariant fun σ => σ.forwards ≤ bound := by
  intro hbound
  have hround : ∀ k, ∃ σ m, (journey net p).Reachable σ ∧ σ.Carries p.header.destRank p.node m ∧ k ≤ m := by
    intro k
    induction k with
    | zero =>
        refine ⟨{ currentDeviceIndex := fun _ => 0, switches := fun _ => {}, flying := [p] }, 0, .init ?_, ?_,
          Nat.le_refl 0⟩
        · exact ⟨fun v hsome => List.length_pos_of_ne_nil hsome, rfl, rfl, rfl⟩
        · exact ⟨⟨p, rfl, rfl, rfl⟩, rfl, rfl⟩
    | succ k ih =>
        obtain ⟨σ, m, hreach, hcarries, hle⟩ := ih
        obtain ⟨σ', m', hreach', hcarries', hless⟩ := exists_way hreach hcarries hcircle
        exact ⟨σ', m', hreach', hcarries', by omega⟩
  obtain ⟨σ, m, hreach, hcarries, hle⟩ := hround (bound + 1)
  have hforwards : σ.forwards ≤ bound := hbound σ hreach
  rw [hcarries.forwards] at hforwards
  omega

theorem routes_inside (hway : Relation.TransGen (net.Routes dst) v w) : w < net.size := by
  cases hway with
  | single hroutes | tail _ hroutes =>
      obtain ⟨deviceIndex, -, hpeer⟩ := hroutes
      exact net.inside _ w (List.mem_of_getElem? hpeer)

/-- Endpoints and gateways forward the packets for a rank a bounded number of times exactly if their tables
do not lead what is for it in a circle over links between them. -/
theorem loopBounded_iff (net : HybridNetwork) (dst : UInt16) :
    LoopBounded net dst ↔ ∀ v, ¬ Relation.TransGen (net.Routes dst) v v := by
  constructor
  · intro h v hcircle
    obtain ⟨bound, hbound⟩ := h ⟨v, 0, { destRank := dst }⟩ (routes_inside hcircle) rfl
    exact not_bounded_of_circle (p := ⟨v, 0, { destRank := dst }⟩) hcircle bound hbound
  · intro hcircle p hinside hdest
    obtain ⟨b⟩ := exists_heights hcircle
    refine ⟨b.weight p.header.ttl p.node, fun σ hreach => ?_⟩
    have hbudget := (Heights.bounded (b := b) hinside hdest σ hreach).budget
    omega

/-- An endpoint and a gateway with a link, which send each other what is for rank 2. -/
def endpointAndGateway : HybridNetwork where
  size := 2
  node
    | 0 => .endpoint { rank := 0, tables := { peers := [1], routingTable := AList.singleton 2 0 } }
    | 1 => .gateway { rank := 1, tables := { peers := [0] }, hybridRoutingTable := some (AList.singleton 2 {}) }
    | _ => .switch []
  farPort _ _ := 0
  inside v w hw := by
    match v with
    | 0 => rw [List.mem_singleton.mp hw]; decide
    | 1 => rw [List.mem_singleton.mp hw]; decide
    | _ + 2 => cases hw

/-- They forward a packet with a time to live of 64 more often than any bound. -/
theorem not_loopBounded : ¬ ∀ (net : HybridNetwork) (dst : UInt16), LoopBounded net dst := by
  intro h
  obtain ⟨bound, hbound⟩ := h endpointAndGateway 2 ⟨0, 0, { sourceRank := 1, destRank := 2, ttl := 64 }⟩
    (by decide) rfl
  refine not_bounded_of_circle ?_ bound hbound
  refine .head (b := 1) ⟨0, ⟨by decide, ?_, 0, by decide, rfl⟩, rfl⟩ (.single ⟨0, ⟨?_, rfl⟩, rfl⟩)
  · exact List.cons_ne_nil _ _
  · show (2 : UInt16) ≠ 1
    decide

end ProtoBridge.Topology
