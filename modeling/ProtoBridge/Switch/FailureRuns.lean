import ProtoBridge.Switch.FailureRoutes

/-!
# Packets on the failure-aware routes

Packets go from switch to switch, in any order, while the switches take their ports in turn and learn where
sources are. What a switch learns, it learns over links that are up, so it never has a route for a destination
that it is not joined to. The queues of the switches have room.
-/

namespace ProtoBridge.Switch

open Lib Cluster

/-- A packet of a source endpoint for a destination endpoint, and the first switch it comes to. -/
structure FabricPacket where
  id : Nat
  source : Nat
  dest : Nat
  first : Nat
  ttl : Nat
  deriving DecidableEq

/-- A packet on its way to a switch, and the switches it has been through. -/
structure Flight where
  packet : FabricPacket
  ttl : Nat
  sw : Nat
  inPort : Nat
  visited : List Nat
  deriving DecidableEq

/-- What happens to a packet. -/
inductive FabricEvent
  | sent (p : FabricPacket)
  | arrived (p : FabricPacket) (visited : List Nat) (appIndex : Nat)
  | expired (p : FabricPacket)
  | dropped (p : FabricPacket) (sw : Nat)
  | flooded (p : FabricPacket)
  | strayed (p : FabricPacket)
  deriving DecidableEq

/-- The switches with their packets. -/
structure SwitchFabric where
  switches : Nat → NvSwitch
  flights : List Flight := []
  sends : Nat := 0
  log : List FabricEvent := []

namespace SwitchFabric

/-- An endpoint sends a packet at one of its ports. -/
def send (σ : SwitchFabric) (source dest ttl sw port : Nat) : SwitchFabric :=
  let packet : FabricPacket := { id := σ.sends, source, dest, first := sw, ttl }
  { σ with
    flights := σ.flights ++ [{ packet, ttl, sw, inPort := port, visited := [] }]
    sends := σ.sends + 1
    log := σ.log ++ [.sent packet] }

/-- A packet leaves a switch at a port. -/
def forward (c : Cluster) (σ : SwitchFabric) (f : Flight) (port : Nat) : SwitchFabric :=
  match c.peer f.sw port with
  | .switch next nextPort =>
      { σ with flights := σ.flights ++
          [{ f with ttl := f.ttl - 1, sw := next, inPort := nextPort, visited := f.visited ++ [f.sw] }] }
  | .endpoint appIndex => { σ with log := σ.log ++ [.arrived f.packet (f.visited ++ [f.sw]) appIndex] }
  | .other => { σ with log := σ.log ++ [.strayed f.packet] }

/-- `ReceiveFromPort`, of a packet that has survived its link. -/
def receive (c : Cluster) (σ : SwitchFabric) (f : Flight) : SwitchFabric :=
  if f.ttl ≤ 1 then { σ with log := σ.log ++ [.expired f.packet] }
  else
    let routed := (σ.switches f.sw).receiveFromPort (c.switchPortIsUp f.sw) (c.mac f.packet.source)
      (c.mac f.packet.dest) (c.rank f.packet.source) f.inPort
    let σ := { σ with switches := Function.update σ.switches f.sw routed.1 }
    match routed.2 with
    | .port port => forward c σ f port
    | .dropped => { σ with log := σ.log ++ [.dropped f.packet f.sw] }
    | .flooded => { σ with log := σ.log ++ [.flooded f.packet] }

/-- A send, or a switch that receives one of the packets. -/
inductive Act
  | send (source dest ttl sw port : Nat)
  | receive (i : Nat)

/-- An endpoint sends at a port that is up, to another endpoint. -/
def enabled (c : Cluster) (σ : SwitchFabric) : Act → Prop
  | .send source dest _ sw port => source < c.numEndpoints ∧ dest < c.numEndpoints ∧ source ≠ dest ∧
      (sw, port) ∈ c.attachments source ∧ c.switchPortIsUp sw port = true
  | .receive i => i < σ.flights.length

/-- One of these. -/
def exec (c : Cluster) (σ : SwitchFabric) : Act → Except Empty SwitchFabric
  | .send source dest ttl sw port => .ok (σ.send source dest ttl sw port)
  | .receive i =>
      match σ.flights[i]? with
      | some f => .ok (receive c { σ with flights := σ.flights.eraseIdx i } f)
      | none => .ok σ

end SwitchFabric

/-- Every run behind a recomputation of the routes. -/
def switchMachine (c : Cluster) (switches : Nat → NvSwitch) : Machine SwitchFabric SwitchFabric.Act Empty where
  init σ := σ = { switches := (recomputeFailureAwareRoutes c switches).switches }
  enabled := SwitchFabric.enabled c
  exec := SwitchFabric.exec c

/-- A way over links that are up that goes through as few switches as there can be, and none twice. -/
structure ShortestWay (c : Cluster) (p : FabricPacket) (visited : List Nat) : Prop where
  start : visited.head? = some p.first ∧ c.AttachedUp p.source p.first
  links : visited.IsChain c.UpLink
  finish : ∃ last, visited.getLast? = some last ∧ c.AttachedUp p.dest last
  nodup : visited.Nodup
  fewest : ∃ k, c.Nearest p.dest p.first k ∧ visited.length = k + 1

/-- Where a packet is that was sent with an amount of hops: on its way, at its destination after a shortest
way, or dropped because the destination is not joined or there were too few hops for the way. -/
structure PacketFate (c : Cluster) (σ : SwitchFabric) (p : FabricPacket) : Prop where
  somewhere : (∃ f ∈ σ.flights, f.packet = p) ∨ (∃ visited appIndex, .arrived p visited appIndex ∈ σ.log) ∨
    .expired p ∈ σ.log ∨ ∃ sw, .dropped p sw ∈ σ.log
  arrives : ∀ visited appIndex, .arrived p visited appIndex ∈ σ.log →
    appIndex = p.dest ∧ ShortestWay c p visited
  drops : ∀ sw, .dropped p sw ∈ σ.log → sw = p.first ∧ ¬ c.Joined p.dest p.first
  expires : .expired p ∈ σ.log → p.ttl ≤ 1 ∨ ∃ k, c.Nearest p.dest p.first k ∧ p.ttl ≤ k + 1
  routed : .flooded p ∉ σ.log ∧ .strayed p ∉ σ.log

variable {c : Cluster} {σ : SwitchFabric} {f : Flight} {p : FabricPacket} {a k : Nat}

/-! ## The route selection -/

variable {dest inPort port source : Nat} {s : NvSwitch}

theorem sprayTurn_spec (isUp : Nat → Bool) {ports : List Nat} (rrIndex : Nat) (hports : ports ≠ [])
    (hall : ∀ port ∈ ports, port ≠ inPort ∧ isUp port = true) :
    ∃ index, NvSwitch.sprayTurn isUp ports rrIndex inPort = some index ∧ ports.getD index 0 ∈ ports := by
  have hlen : 0 < ports.length := List.length_pos_of_ne_nil hports
  have hget : ∀ index < ports.length, ports.getD index 0 ∈ ports := by
    intro index hindex
    rw [List.getD_eq_getElem?_getD, List.getElem?_eq_getElem hindex, Option.getD_some]
    exact List.getElem_mem hindex
  unfold NvSwitch.sprayTurn
  cases hfind : ((List.range ports.length).map fun attempt => (rrIndex + attempt) % ports.length).find?
      fun index => decide (ports.getD index 0 ≠ inPort) && isUp (ports.getD index 0) with
  | none =>
      have hfirst := List.find?_eq_none.mp hfind ((rrIndex + 0) % ports.length)
        (List.mem_map_of_mem (List.mem_range.mpr hlen))
      obtain ⟨hne, hup⟩ := hall _ (hget _ (Nat.mod_lt _ hlen))
      rw [hup, Bool.and_true] at hfirst
      exact absurd (decide_eq_true hne) hfirst
  | some index =>
      obtain ⟨attempt, -, rfl⟩ := List.mem_map.mp (List.mem_of_find?_eq_some hfind)
      exact ⟨_, rfl, hget _ (Nat.mod_lt _ hlen)⟩

/-- What a switch knows: the ports of the destinations it is joined to, and routes to these only. -/
def Sound (c : Cluster) (a : Nat) (s : NvSwitch) : Prop := Tables c c.numEndpoints a s

theorem Sound.learn (h : Sound c a s) (hc : c.Wf) (hsource : source < c.numEndpoints)
    (hjoined : c.Joined source a) (port : Nat) : Sound c a (s.learn (c.mac source) port) := by
  unfold NvSwitch.learn
  split
  · refine ⟨h.joined, h.apart, ?_, ?_, h.flags⟩
    · intro d hd q hq
      by_cases hsame : d = source
      · rw [hsame]
        exact hjoined
      · have hother : Function.update s.macTable (c.mac source) (some port) (c.mac d) = s.macTable (c.mac d) :=
          Function.update_of_ne (fun heq => hsame (hc.macs d hd source hsource heq)) _ _
        exact h.static d hd q (hother.symm.trans hq)
    · intro addr hother
      obtain ⟨hspray, hmac⟩ := h.others addr hother
      refine ⟨hspray, ?_⟩
      rw [← hmac]
      exact Function.update_of_ne (hother source hsource).symm _ _
  · exact h

theorem Sound.turn (h : Sound c a s) (roundRobin : Nat → Nat) :
    Sound c a { s with sprayRoundRobin := roundRobin } :=
  ⟨h.joined, h.apart, h.static, h.others, h.flags⟩

/-- A switch sends a packet on a nearest way, or drops it if there is none. -/
theorem receiveFromPort_spec (h : Sound c a s) (hc : c.Wf) (ha : a < c.numSwitches)
    (hsource : source < c.numEndpoints) (hdest : dest < c.numEndpoints)
    (hjoined : c.Joined source a) (hin : ∀ k, c.Nearest dest a k → ¬ NearPort c dest a k inPort)
    (srcRank : UInt16) :
    ∃ s' forwarding, s.receiveFromPort (c.switchPortIsUp a) (c.mac source) (c.mac dest) srcRank inPort =
        (s', forwarding) ∧ Sound c a s' ∧
      ((∃ k port, forwarding = .port port ∧ c.Nearest dest a k ∧ NearPort c dest a k port) ∨
        forwarding = .dropped ∧ ¬ c.Joined dest a) := by
  have hlearned := h.learn hc hsource hjoined inPort
  unfold NvSwitch.receiveFromPort
  dsimp only
  generalize s.learn (c.mac source) inPort = t at hlearned
  rw [if_pos hlearned.flags.2.1]
  by_cases hdestJoined : c.Joined dest a
  · obtain ⟨k, hnear⟩ := hdestJoined.exists_nearest
    obtain ⟨port, hport⟩ := exists_nearPort hc hdest hnear
    have hmem : ∀ q, q ∈ outputPorts c dest (distances c dest) a ↔ NearPort c dest a k q :=
      fun q => mem_outputPorts hc hdest ha hnear
    rw [hlearned.joined dest hdest ha hdestJoined, Option.getD_some]
    obtain ⟨index, hturn, hchosen⟩ := sprayTurn_spec (c.switchPortIsUp a)
      (t.sprayRoundRobin (c.mac dest)) (List.ne_nil_of_mem ((hmem port).mpr hport)) (by
        intro q hq
        have hq' := (hmem q).mp hq
        refine ⟨?_, hq'.1⟩
        rintro rfl
        exact hin k hnear hq')
    rw [hturn]
    exact ⟨_, _, rfl, hlearned.turn _, .inl ⟨k, _, rfl, hnear, (hmem _).mp hchosen⟩⟩
  · rw [hlearned.apart dest hdest fun hboth => hdestJoined hboth.2, Option.getD_none]
    have hnone : t.macTable (c.mac dest) = none := by
      cases hroute : t.macTable (c.mac dest) with
      | none => rfl
      | some port => exact absurd (hlearned.static dest hdest port hroute) hdestJoined
    have hfallback : t.fallbackPort (c.switchPortIsUp a) (c.mac dest) srcRank inPort = none := by
      unfold NvSwitch.fallbackPort
      rw [hlearned.flags.1, hnone]
      rfl
    rw [show NvSwitch.sprayTurn (c.switchPortIsUp a) [] (t.sprayRoundRobin (c.mac dest)) inPort = none from
      rfl]
    dsimp only
    rw [hfallback, if_pos hlearned.flags.2.2]
    exact ⟨_, _, rfl, hlearned, .inr ⟨rfl, hdestJoined⟩⟩

/-! ## Flights -/

/-- A flight for a destination: it has come over links that are up, one step nearer with each of them. -/
structure Flying (c : Cluster) (f : Flight) : Prop where
  ends : f.packet.source < c.numEndpoints ∧ f.packet.dest < c.numEndpoints ∧
    f.packet.source ≠ f.packet.dest
  first : (f.visited ++ [f.sw]).head? = some f.packet.first
  start : c.AttachedUp f.packet.source f.packet.first
  links : (f.visited ++ [f.sw]).IsChain c.UpLink
  known : c.Joined f.packet.source f.sw
  inside : f.sw < c.numSwitches
  budget : f.ttl + f.visited.length = f.packet.ttl
  came : c.peer f.sw f.inPort = .endpoint f.packet.source ∨
    ∃ b q j, c.peer f.sw f.inPort = .switch b q ∧ c.Nearest f.packet.dest b (j + 1) ∧
      c.Nearest f.packet.dest f.sw j
  near : ∀ k, c.Nearest f.packet.dest f.packet.first k → ∀ i a, (f.visited ++ [f.sw])[i]? = some a →
    i ≤ k ∧ c.Nearest f.packet.dest a (k - i)
  joined : f.visited ≠ [] → c.Joined f.packet.dest f.packet.first

theorem Flying.not_back (h : Flying c f) (hk : c.Nearest f.packet.dest f.sw k) :
    ¬ NearPort c f.packet.dest f.sw k f.inPort := by
  rintro ⟨-, ⟨-, hpeer⟩ | ⟨b, q, j, hpeer, rfl, hnext⟩⟩
  · rcases h.came with hsource | ⟨b, q, j, hswitch, -, -⟩
    · rw [hsource] at hpeer
      exact h.ends.2.2 (PortPeer.endpoint.inj hpeer)
    · rw [hswitch] at hpeer
      cases hpeer
  · rcases h.came with hsource | ⟨b', q', i, hswitch, hfar, hhere⟩
    · rw [hsource] at hpeer
      cases hpeer
    · rw [hswitch] at hpeer
      cases hpeer
      have hsame := hhere.unique hk
      have hother := hfar.unique hnext
      omega

theorem Flying.here (h : Flying c f) (hk : c.Nearest f.packet.dest f.packet.first k) :
    f.visited.length ≤ k ∧ c.Nearest f.packet.dest f.sw (k - f.visited.length) :=
  h.near k hk f.visited.length f.sw List.getElem?_concat_length

theorem Flying.alone (h : Flying c f) (hapart : ¬ c.Joined f.packet.dest f.sw) :
    f.sw = f.packet.first ∧ ¬ c.Joined f.packet.dest f.packet.first := by
  have hnil : f.visited = [] := by
    by_contra hne
    obtain ⟨k, hk⟩ := (h.joined hne).exists_nearest
    exact hapart ⟨_, (h.here hk).2.leads⟩
  have hfirst := h.first
  rw [hnil] at hfirst
  have hsame : f.sw = f.packet.first := Option.some.inj hfirst
  rw [hsame] at hapart
  exact ⟨hsame, hapart⟩

theorem Flying.nodup (h : Flying c f) (hk : c.Nearest f.packet.dest f.packet.first k) :
    (f.visited ++ [f.sw]).Nodup := by
  rw [List.nodup_iff_getElem?_ne_getElem?]
  intro i j hij hj heq
  have hsome := List.getElem?_eq_getElem hj
  obtain ⟨hile, hi⟩ := h.near k hk i _ (heq.trans hsome)
  obtain ⟨hjle, hj'⟩ := h.near k hk j _ hsome
  have := hi.unique hj'
  omega

/-- The flight behind a switch that has sent the packet to another one. -/
theorem Flying.onward (h : Flying c f) (hc : c.Wf) (httl : 1 < f.ttl) {b q j : Nat}
    (hk : c.Nearest f.packet.dest f.sw (j + 1)) (hup : c.switchPortIsUp f.sw port = true)
    (hpeer : c.peer f.sw port = .switch b q) (hnext : c.Nearest f.packet.dest b j) :
    Flying c { f with ttl := f.ttl - 1, sw := b, inPort := q, visited := f.visited ++ [f.sw] } := by
  have hport := switchPortIsUp_iff.mp hup
  obtain ⟨hb, hq, hback, -⟩ := hc.link f.sw h.inside port hport.1 b q hpeer
  have hlink : c.UpLink f.sw b := ⟨h.inside, port, q, hup, hpeer⟩
  refine ⟨h.ends, ?_, h.start, ?_, ?_, hb, ?_, ?_, ?_, ?_⟩
  · show (f.visited ++ [f.sw] ++ [b]).head? = _
    rw [List.head?_append, h.first]
    rfl
  · show (f.visited ++ [f.sw] ++ [b]).IsChain c.UpLink
    refine h.links.append (List.isChain_singleton b) ?_
    intro x hx y hy
    rw [List.getLast?_concat, Option.mem_some_iff] at hx
    rw [List.head?_cons, Option.mem_some_iff] at hy
    rw [← hx, ← hy]
    exact hlink
  · obtain ⟨i, hi⟩ := h.known
    exact ⟨i + 1, .link (hlink.symm hc) hi⟩
  · show f.ttl - 1 + (f.visited ++ [f.sw]).length = f.packet.ttl
    rw [List.length_append, List.length_singleton, ← h.budget]
    omega
  · exact .inr ⟨f.sw, port, j, hback, hk, hnext⟩
  -- near
  · intro k hfirst i a hat
    obtain ⟨hle, hhere⟩ := h.here hfirst
    have hsame := hhere.unique hk
    replace hat : (f.visited ++ [f.sw] ++ [b])[i]? = some a := hat
    by_cases hi : i < (f.visited ++ [f.sw]).length
    · rw [List.getElem?_append_left hi] at hat
      exact h.near k hfirst i a hat
    · rw [List.getElem?_append_right (Nat.not_lt.mp hi)] at hat
      rw [List.length_append, List.length_singleton] at hi hat
      have hlast : i = f.visited.length + 1 := by
        have := (List.getElem?_eq_some_iff.mp hat).1
        rw [List.length_singleton] at this
        omega
      rw [hlast, Nat.sub_self, List.getElem?_cons_zero, Option.some_inj] at hat
      rw [← hat, hlast, show k - (f.visited.length + 1) = j by omega]
      exact ⟨by omega, hnext⟩
  · intro _
    by_cases hnil : f.visited = []
    · have hfirst := h.first
      rw [hnil] at hfirst
      rw [← show f.sw = f.packet.first from Option.some.inj hfirst]
      exact ⟨_, hk.leads⟩
    · exact h.joined hnil

theorem flying_start (hc : c.Wf) {sw ttl id : Nat} (hsource : source < c.numEndpoints)
    (hdest : dest < c.numEndpoints) (hne : source ≠ dest) (hat : (sw, port) ∈ c.attachments source)
    (hup : c.switchPortIsUp sw port = true) :
    Flying c { packet := { id, source, dest, first := sw, ttl }, ttl, sw, inPort := port, visited := [] } := by
  obtain ⟨hsw, -, hpeer⟩ := (hc.attached source hsource sw port).mp hat
  refine ⟨⟨hsource, hdest, hne⟩, rfl, ⟨port, hat, hup⟩, List.isChain_singleton sw,
    ⟨0, .here ⟨port, hat, hup⟩⟩, hsw, rfl, .inl hpeer, ?_, fun h => absurd rfl h⟩
  intro k hk i a hi
  have hlast : i = 0 := by
    have := (List.getElem?_eq_some_iff.mp hi).1
    rw [show ([] ++ [sw] : List Nat).length = 1 from rfl] at this
    omega
  rw [hlast, show ([] ++ [sw] : List Nat)[0]? = some sw from rfl, Option.some_inj] at hi
  rw [hlast, ← hi]
  exact ⟨Nat.zero_le k, hk⟩

/-! ## Runs -/

/-- What an event says. -/
def EventOk (c : Cluster) : FabricEvent → Prop
  | .sent _ => True
  | .arrived p visited appIndex => appIndex = p.dest ∧ ShortestWay c p visited
  | .expired p => p.ttl ≤ 1 ∨ ∃ k, c.Nearest p.dest p.first k ∧ p.ttl ≤ k + 1
  | .dropped p sw => sw = p.first ∧ ¬ c.Joined p.dest p.first
  | .flooded _ => False
  | .strayed _ => False

/-- An event at which the way of a packet ends. -/
inductive EndsWith (p : FabricPacket) : FabricEvent → Prop
  | arrived (visited : List Nat) (appIndex : Nat) : EndsWith p (.arrived p visited appIndex)
  | expired : EndsWith p (.expired p)
  | dropped (sw : Nat) : EndsWith p (.dropped p sw)

/-- What a switch makes of a flight: another flight of the packet, or its end. -/
inductive Onward (c : Cluster) (f : Flight) : List Flight → List FabricEvent → Prop
  | flies {f'} : Flying c f' → f'.packet = f.packet → f'.ttl < f.ttl → Onward c f [f'] []
  | ends {e} : EventOk c e → EndsWith f.packet e → Onward c f [] [e]

theorem receive_spec (hc : c.Wf) (hsound : ∀ a, Sound c a (σ.switches a)) (h : Flying c f) :
    ∃ switches flights events, σ.receive c f =
        { σ with switches, flights := σ.flights ++ flights, log := σ.log ++ events } ∧
      (∀ a, Sound c a (switches a)) ∧ Onward c f flights events := by
  unfold SwitchFabric.receive
  split
  · rename_i httl
    have hbudget := h.budget
    refine ⟨σ.switches, [], [.expired f.packet], ?_, hsound, .ends ?_ .expired⟩
    · rw [List.append_nil]
    · by_cases hnil : f.visited = []
      · rw [hnil, List.length_nil] at hbudget
        exact .inl (by omega)
      · obtain ⟨k, hk⟩ := (h.joined hnil).exists_nearest
        obtain ⟨hle, -⟩ := h.here hk
        exact .inr ⟨k, hk, by omega⟩
  · rename_i httl
    obtain ⟨s', forwarding, hreceive, hsound', hcases⟩ := receiveFromPort_spec (hsound f.sw) hc h.inside
      h.ends.1 h.ends.2.1 h.known (fun k hk => h.not_back hk) (c.rank f.packet.source)
    have hswitches : ∀ a, Sound c a (Function.update σ.switches f.sw s' a) := by
      intro a
      by_cases hsame : a = f.sw
      · rw [hsame, Function.update_self]
        exact hsound'
      · rw [Function.update_of_ne hsame]
        exact hsound a
    rw [hreceive]
    dsimp only
    rcases hcases with ⟨k, port, rfl, hk, hup, hport⟩ | ⟨rfl, hapart⟩
    · dsimp only
      unfold SwitchFabric.forward
      rcases hport with ⟨rfl, hpeer⟩ | ⟨b, q, j, hpeer, rfl, hnext⟩
      -- the last switch
      · rw [hpeer]
        refine ⟨_, [], [.arrived f.packet (f.visited ++ [f.sw]) f.packet.dest], ?_, hswitches,
          .ends ⟨rfl, ?_⟩ (.arrived _ _)⟩
        · rw [List.append_nil]
        · have hjoined : c.Joined f.packet.dest f.packet.first := by
            by_cases hnil : f.visited = []
            · have hfirst := h.first
              rw [hnil] at hfirst
              rw [← show f.sw = f.packet.first from Option.some.inj hfirst]
              exact ⟨_, hk.leads⟩
            · exact h.joined hnil
          obtain ⟨k, hfirst⟩ := hjoined.exists_nearest
          obtain ⟨hle, hhere⟩ := h.here hfirst
          have hsame := hhere.unique hk
          refine ⟨⟨h.first, h.start⟩, h.links, ⟨f.sw, List.getLast?_concat, ?_⟩, h.nodup hfirst, k, hfirst, ?_⟩
          · exact ⟨port, (hc.attached _ h.ends.2.1 _ _).mpr
              ⟨h.inside, (switchPortIsUp_iff.mp hup).1, hpeer⟩, hup⟩
          · rw [List.length_append, List.length_singleton]
            omega
      · rw [hpeer]
        refine ⟨_, [_], [], ?_, hswitches, .flies (h.onward hc (by omega) hk hup hpeer hnext) rfl ?_⟩
        · rw [List.append_nil]
        · exact Nat.sub_lt (by omega) Nat.one_pos
    · refine ⟨_, [], [.dropped f.packet f.sw], ?_, hswitches, .ends (h.alone hapart) (.dropped _)⟩
      rw [List.append_nil]

/-- A packet is on its way, or its way has ended. -/
def Somewhere (σ : SwitchFabric) (p : FabricPacket) : Prop :=
  (∃ f ∈ σ.flights, f.packet = p) ∨ ∃ e ∈ σ.log, EndsWith p e

/-- What every run keeps. -/
structure Travelling (c : Cluster) (σ : SwitchFabric) : Prop where
  sound : ∀ a, Sound c a (σ.switches a)
  flying : ∀ f ∈ σ.flights, Flying c f
  events : ∀ e ∈ σ.log, EventOk c e
  somewhere : ∀ p, .sent p ∈ σ.log → Somewhere σ p

theorem Travelling.send (h : Travelling c σ) (hc : c.Wf) {source dest ttl sw port : Nat}
    (hen : σ.enabled c (.send source dest ttl sw port)) :
    Travelling c (σ.send source dest ttl sw port) := by
  obtain ⟨hsource, hdest, hne, hat, hup⟩ := hen
  refine ⟨h.sound, ?_, ?_, ?_⟩
  · intro f hf
    rcases List.mem_append.mp hf with hold | hnew
    · exact h.flying f hold
    · rw [List.mem_singleton.mp hnew]
      exact flying_start hc hsource hdest hne hat hup
  · intro e he
    rcases List.mem_append.mp he with hold | hnew
    · exact h.events e hold
    · rw [List.mem_singleton.mp hnew]
      trivial
  · intro p hp
    rcases List.mem_append.mp hp with hold | hnew
    · rcases h.somewhere p hold with ⟨f, hf, hpacket⟩ | ⟨e, he, hends⟩
      · exact .inl ⟨f, List.mem_append_left _ hf, hpacket⟩
      · exact .inr ⟨e, List.mem_append_left _ he, hends⟩
    · rw [FabricEvent.sent.inj (List.mem_singleton.mp hnew)]
      exact .inl ⟨_, List.mem_append_right _ (List.mem_singleton.mpr rfl), rfl⟩

/-- What is left for the switches to do: each packet goes through as many switches as it has hops. -/
def SwitchFabric.hopsLeft (σ : SwitchFabric) : Nat := (σ.flights.map fun f => f.ttl + 1).sum

/-- A switch that receives a packet leaves less to do. -/
theorem Travelling.receive (h : Travelling c σ) (hc : c.Wf) {i : Nat} (hi : i < σ.flights.length) :
    ∃ σ', σ.exec c (.receive i) = .ok σ' ∧ Travelling c σ' ∧ σ'.hopsLeft < σ.hopsLeft := by
  have hget := List.getElem?_eq_getElem hi
  generalize σ.flights[i] = f at hget
  have hmem := List.mem_of_getElem? hget
  obtain ⟨switches, flights, events, hreceive, hsound, honward⟩ :=
    receive_spec (σ := { σ with flights := σ.flights.eraseIdx i }) hc h.sound (h.flying f hmem)
  have hperm : List.Perm (f :: σ.flights.eraseIdx i) σ.flights := by
    rw [← (List.getElem?_eq_some_iff.mp hget).2]
    exact List.getElem_cons_eraseIdx_perm hi
  refine ⟨{ σ with
    switches := switches
    flights := σ.flights.eraseIdx i ++ flights
    log := σ.log ++ events }, ?_, ?_, ?_⟩
  · unfold SwitchFabric.exec
    dsimp only
    rw [hget]
    exact congrArg Except.ok hreceive
  · refine ⟨hsound, ?_, ?_, ?_⟩
    · intro g hg
      rcases List.mem_append.mp hg with hold | hnew
      · exact h.flying g (List.mem_of_mem_eraseIdx hold)
      · cases honward with
        | flies hflying _ _ =>
            rw [List.mem_singleton.mp hnew]
            exact hflying
        | ends => cases hnew
    · intro e he
      rcases List.mem_append.mp he with hold | hnew
      · exact h.events e hold
      · cases honward with
        | flies => cases hnew
        | ends hok _ =>
            rw [List.mem_singleton.mp hnew]
            exact hok
    · intro p hp
      have hbefore : .sent p ∈ σ.log := by
        rcases List.mem_append.mp hp with hold | hnew
        · exact hold
        · cases honward with
          | flies => cases hnew
          | ends _ hends =>
              rw [← List.mem_singleton.mp hnew] at hends
              cases hends
      rcases h.somewhere p hbefore with ⟨g, hg, hpacket⟩ | ⟨e, he, hends⟩
      · rcases List.mem_cons.mp (hperm.mem_iff.mpr hg) with rfl | hother
        · cases honward with
          | @flies g' _ hsame _ =>
              exact .inl ⟨g', List.mem_append_right _ (List.mem_singleton.mpr rfl), hsame.trans hpacket⟩
          | @ends e _ hends =>
              rw [hpacket] at hends
              exact .inr ⟨e, List.mem_append_right _ (List.mem_singleton.mpr rfl), hends⟩
        · exact .inl ⟨g, List.mem_append_left _ hother, hpacket⟩
      · exact .inr ⟨e, List.mem_append_left _ he, hends⟩
  · have hsum := (hperm.map fun f => f.ttl + 1).sum_eq
    rw [List.map_cons, List.sum_cons] at hsum
    show ((σ.flights.eraseIdx i ++ flights).map fun f => f.ttl + 1).sum < _
    unfold SwitchFabric.hopsLeft
    rw [List.map_append, List.sum_append, ← hsum]
    cases honward with
    | @flies g _ _ hless =>
        rw [List.map_singleton, List.sum_singleton]
        omega
    | ends =>
        rw [List.map_nil, List.sum_nil]
        omega

theorem travelling_invariant (hc : c.Wf) (switches : Nat → NvSwitch) :
    (switchMachine c switches).Invariant (Travelling c) := by
  refine Machine.Inductive.invariant ⟨?_, ?_⟩
  · rintro σ rfl
    exact ⟨fun a => recompute_tables hc switches a, (fun f hf => nomatch hf), (fun e he => nomatch he),
      fun p hp => nomatch hp⟩
  · intro σ act σ' h hen hex
    cases act with
    | send source dest ttl sw port =>
        cases hex
        exact h.send hc hen
    | receive i =>
        obtain ⟨σ'', hex', hafter, -⟩ := h.receive hc hen
        cases hex.symm.trans hex'
        exact hafter

theorem Travelling.fate (h : Travelling c σ) (hp : .sent p ∈ σ.log) : PacketFate c σ p := by
  refine ⟨?_, ?_, ?_, ?_, ?_, ?_⟩
  · rcases h.somewhere p hp with hflight | ⟨e, he, hends⟩
    · exact .inl hflight
    · cases hends with
      | arrived visited appIndex => exact .inr (.inl ⟨visited, appIndex, he⟩)
      | expired => exact .inr (.inr (.inl he))
      | dropped sw => exact .inr (.inr (.inr ⟨sw, he⟩))
  · exact fun visited appIndex he => h.events _ he
  · exact fun sw he => h.events _ he
  · exact fun he => h.events _ he
  · exact fun he => h.events _ he
  · exact fun he => h.events _ he

/-- The recomputed routes lead on nearest ways and to all that can be reached, what cannot be reached is
counted, and packets go on these ways. -/
theorem failureAware_routes (c : Cluster) (hc : c.Wf) (switches : Nat → NvSwitch) :
    (∀ d < c.numEndpoints, ∀ a < c.numSwitches,
      (∀ ports, ((recomputeFailureAwareRoutes c switches).switches a).sprayPortsTable (c.mac d) = some ports →
        ∃ k, c.Nearest d a k ∧ ports ≠ [] ∧ ∀ p ∈ ports, NearPort c d a k p) ∧
      ((∃ ports, ((recomputeFailureAwareRoutes c switches).switches a).sprayPortsTable (c.mac d) =
        some ports) ↔ c.Joined d a)) ∧
    (∃ pairs : Finset (Nat × Nat),
      (∀ pair, pair ∈ pairs ↔ pair.1 < c.numEndpoints ∧ pair.2 < c.numEndpoints ∧
        c.rank pair.1 ≠ c.rank pair.2 ∧ ¬ c.Connected pair.1 pair.2) ∧
      pairs.card = (recomputeFailureAwareRoutes c switches).unreachableGpuPairs) ∧
    (switchMachine c switches).Invariant fun σ =>
      (∀ p, .sent p ∈ σ.log → PacketFate c σ p) ∧
      ∀ i < σ.flights.length, ∃ σ', σ.exec c (.receive i) = .ok σ' ∧ σ'.hopsLeft < σ.hopsLeft := by
  refine ⟨?_, ⟨countedPairs c, fun pair => mem_countedPairs hc, card_countedPairs hc switches⟩, ?_⟩
  · intro d hd a ha
    have htables := recompute_tables hc switches a
    constructor
    · intro ports hports
      by_cases hjoined : c.Joined d a
      · obtain ⟨k, hnear⟩ := hjoined.exists_nearest
        rw [htables.joined d hd ha hjoined, Option.some_inj] at hports
        obtain ⟨p, hp⟩ := exists_nearPort hc hd hnear
        rw [← hports]
        exact ⟨k, hnear, List.ne_nil_of_mem ((mem_outputPorts hc hd ha hnear).mpr hp),
          fun p hp => (mem_outputPorts hc hd ha hnear).mp hp⟩
      · rw [htables.apart d hd fun hboth => hjoined hboth.2] at hports
        cases hports
    · constructor
      · rintro ⟨ports, hports⟩
        by_contra hapart
        rw [htables.apart d hd fun hboth => hapart hboth.2] at hports
        cases hports
      · exact fun hjoined => ⟨_, htables.joined d hd ha hjoined⟩
  · intro σ hreach
    have h := travelling_invariant hc switches σ hreach
    refine ⟨fun p hp => h.fate hp, fun i hi => ?_⟩
    obtain ⟨σ', hex, -, hless⟩ := h.receive hc hi
    exact ⟨σ', hex, hless⟩

/-- Two switches with two links between them, one of which is down, and an endpoint at each. -/
def twoSwitches : Cluster where
  numSwitches := 2
  numPorts := fun _ => 3
  peer := fun sw port =>
    if port < 2 then .switch (1 - sw) port else if port = 2 then .endpoint sw else .other
  linkUp := fun _ port => decide (port ≠ 0)
  numEndpoints := 2
  rank := fun e => UInt16.ofNat e
  mac := fun e => 16 + e
  devices := fun e => [some (e, 2)]

theorem wf_twoSwitches : twoSwitches.Wf := by
  refine ⟨?_, ?_, ?_, ?_, ?_⟩
  -- link
  · intro a ha p hp b q hpeer
    replace ha : a < 2 := ha
    replace hp : p < 3 := hp
    unfold twoSwitches at hpeer
    dsimp only at hpeer
    split at hpeer
    · obtain ⟨rfl, rfl⟩ := PortPeer.switch.inj hpeer
      refine ⟨?_, hp, ?_, rfl⟩
      · show 1 - a < 2
        omega
      · show (if p < 2 then PortPeer.switch (1 - (1 - a)) p else _) = _
        rw [if_pos ‹_›, show 1 - (1 - a) = a by omega]
    · split at hpeer <;> cases hpeer
  -- attached
  · intro e he a p
    replace he : e < 2 := he
    constructor
    · intro hmem
      cases List.mem_singleton.mp hmem
      exact ⟨he, Nat.lt_succ_self 2, rfl⟩
    · rintro ⟨ha, hp, hpeer⟩
      unfold twoSwitches at hpeer
      dsimp only at hpeer
      split at hpeer
      · cases hpeer
      · split at hpeer
        · cases hpeer
          rename_i hport
          rw [hport]
          exact List.mem_singleton.mpr rfl
        · cases hpeer
  · intro a ha p hp e hpeer
    unfold twoSwitches at hpeer
    dsimp only at hpeer
    split at hpeer
    · cases hpeer
    · split at hpeer <;> cases hpeer
      exact ha
  · intro e he e' he' hrank
    replace he : e < 2 := he
    replace he' : e' < 2 := he'
    have hword := congrArg UInt16.toNat hrank
    change (UInt16.ofNat e).toNat = (UInt16.ofNat e').toNat at hword
    rwa [UInt16.toNat_ofNat_of_lt' (he.trans (by decide)), UInt16.toNat_ofNat_of_lt' (he'.trans (by decide))] at hword
  · intro e he e' he' hmac
    exact Nat.add_left_cancel hmac

/-- Their routes. -/
theorem failureAware_routes_twoSwitches :
    (switchMachine twoSwitches fun _ => {}).Invariant fun σ =>
      (∀ p, .sent p ∈ σ.log → PacketFate twoSwitches σ p) ∧
      ∀ i < σ.flights.length, ∃ σ', σ.exec twoSwitches (.receive i) = .ok σ' ∧ σ'.hopsLeft < σ.hopsLeft :=
  (failureAware_routes twoSwitches wf_twoSwitches fun _ => {}).2.2

end ProtoBridge.Switch
