import ProtoBridge.Pcie.Wire

/-!
# The paths of frames

What ordering sees of the fabric: frames parked in a node, frames on a link with
their arrival, and the frame in hand. A frame is created at its source and
follows the route to its destination; `walk` is the sequence of nodes on that
route, so two frames with the same ends and the same number of hops are at the
same node, in the same ordering domain. `Flow.Step` lists what can happen to this
view and `Micro.flow` shows that the fabric does nothing else.
-/

namespace ProtoBridge.Pcie

open Lib Fabric
open Multiset (add_bind notMem_zero singleton_bind)

namespace Fabric.Topo

/-- The node a frame from `src` to `dst` is at after `h` hops, if it gets that far. -/
def walk (t : Topo) (src dst : Nat) : Nat → Option Nat
  | 0 => some src
  | h + 1 =>
      match t.walk src dst h with
      | none => none
      | some n => if n = dst then none else (t.route n dst).map t.dst

/-- The port a frame came in through after `h` hops. -/
def entry (t : Topo) (src dst : Nat) : Nat → Option Nat
  | 0 => none
  | h + 1 => (t.walk src dst h).bind fun n => t.route n dst

variable {t : Topo} {dst h n src : Nat}

theorem walk_succ {p : Nat} (hw : t.walk src dst h = some n) (hne : n ≠ dst)
    (hr : t.route n dst = some p) : t.walk src dst (h + 1) = some (t.dst p) := by
  simp [walk, hw, hne, hr]

theorem entry_succ {p : Nat} (hw : t.walk src dst h = some n) (hr : t.route n dst = some p)
    : t.entry src dst (h + 1) = some p := by
  simp [entry, hw, hr]

theorem walk_stuck {k : Nat} (hw : t.walk src dst h = some dst) (hle : h ≤ k)
    (hk : t.walk src dst k = some n) : n = dst := by
  induction k generalizing n with
  | zero =>
      have h0 : h = 0 := Nat.le_zero.mp hle
      rw [h0] at hw
      rw [hw] at hk
      cases hk
      rfl
  | succ k ih =>
      rcases Nat.lt_or_ge k h with hlt | hge
      · -- the last hop is the arrival itself
        have heq : h = k + 1 := by omega
        rw [← heq, hw] at hk
        cases hk
        rfl
      -- the walk would have to leave the destination
      · simp only [walk] at hk
        split at hk
        · cases hk
        · rename_i m hm
          rw [if_pos (ih hge hm)] at hk
          cases hk

end Fabric.Topo

/-- Where a frame travels: in a node, on a link, or in the hand of a reception. -/
inductive Spot
  | node (n : Nat)
  | link (p : Nat) (due : Option Nat)
  | hand (p : Nat)

/-- The view of the fabric that ordering needs. -/
structure Flow where
  topo : Topo
  nextOrder : Nat
  parked : Multiset (Nat × Frame)
  flights : Multiset Flight
  hand : Option (Nat × Frame)
  trace : List Obs

/-- The node a site is parked in. -/
def Site.parked (t : Topo) (x : Site) : Multiset (Nat × Frame) :=
  match x.place with
  | .queue p => {(t.src p, x.frame)}
  | .waiting n => {(n, x.frame)}
  | _ => 0

/-- The flow of a fabric in the middle of an action. -/
def Snap.flow (s : Snap) : Flow where
  topo := s.fab.topo
  nextOrder := s.fab.nextOrder
  parked := s.total.bind (Site.parked s.fab.topo)
  flights := s.fab.wires.flights
  hand := s.hand
  trace := s.fab.trace

/-- Frame `f` travels at `x`. -/
def Flow.At (d : Flow) : Spot → Frame → Prop
  | .node n, f => (n, f) ∈ d.parked
  | .link p due, f => ⟨p, due, f⟩ ∈ d.flights
  | .hand p, f => d.hand = some (p, f)

/-- What can happen to travelling frames. -/
inductive Flow.Step : Flow → Flow → Prop
  | build {d topo} : d.parked = 0 → d.flights = 0 → d.hand = none → Step d { d with topo }
  | note {d o} : (∀ f, o ≠ .created f) → (∀ f, o ≠ .received f) →
      Step d { d with trace := d.trace ++ [o] }
  | create {d f} : f.serial = d.nextOrder → f.order = d.nextOrder → f.hops = 0 → f.domain = none →
      f.source ≠ f.destination →
      Step d
        { d with
          nextOrder := d.nextOrder + 1
          parked := d.parked + {(f.source, f)}
          trace := d.trace ++ [.created f] }
  | send {d n f p due m} : d.parked = m + {(n, f)} → d.topo.route n f.destination = some p →
      (∀ g, (n, g) ∈ d.parked → g.order < f.order → g.domain = f.domain →
        canPass f.header g.header = true) →
      (∀ x ∈ d.flights, x.port = p → Before x.due due) →
      Step d { d with parked := m, flights := d.flights + {⟨p, due, onLink p f⟩} }
  | arrive {d p t f m} : d.hand = none → d.flights = m + {⟨p, some t, f⟩} →
      (∀ x ∈ d.flights, ∀ t', x.due = some t' → t ≤ t') →
      Step d { d with flights := m, hand := some (p, f) }
  | forward {d p f ready} : d.hand = some (p, f) → d.topo.dst p ≠ f.destination →
      Step d
        { d with
          hand := none
          nextOrder := d.nextOrder + 1
          parked := d.parked +
            {(d.topo.dst p, { f with domain := f.ingress, order := d.nextOrder, ready })} }
  | receive {d p f} : d.hand = some (p, f) → d.topo.dst p = f.destination →
      Step d { d with hand := none, trace := d.trace ++ [.received f] }

/-! ## The fabric refines its flow -/

section Members

variable {s : Snap}

theorem not_parked_of_sites {k : EventKind} {x : Site} (h : x ∈ k.sites) (t : Topo) :
    x.parked t = 0 := by
  cases k with
  | frameArrive | readService | writeService | completionService =>
      rw [Multiset.mem_singleton.mp h]
      rfl
  | _ => exact absurd h (notMem_zero x)

theorem mem_parked {n : Nat} {f : Frame} (h : (n, f) ∈ s.flow.parked) :
    (∃ p < s.fab.numPorts, (s.fab.ports p).src = n ∧ f ∈ (s.fab.ports p).queue) ∨
      f ∈ (s.fab.nodes n).waiting := by
  obtain ⟨x, hx, hpark⟩ := Multiset.mem_bind.mp h
  have hnone : ∀ m : Multiset (Nat × Frame), m = 0 → (n, f) ∉ m := by
    intro m hm
    rw [hm]
    exact notMem_zero _
  rcases Multiset.mem_add.mp hx with hx | hx
  · rcases Multiset.mem_add.mp hx with hx | hx
    · rcases Multiset.mem_add.mp hx with hx | hx
      · rcases Multiset.mem_add.mp hx with hx | hx
        · -- an output queue
          obtain ⟨p, hp, hx⟩ := Multiset.mem_sum.mp hx
          obtain ⟨g, hg, rfl⟩ := List.mem_map.mp (Multiset.mem_coe.mp hx)
          cases Multiset.mem_singleton.mp hpark
          exact .inl ⟨p, Finset.mem_range.mp hp, rfl, hg⟩
        · obtain ⟨m, hm, hx⟩ := Multiset.mem_sum.mp hx
          rcases Multiset.mem_add.mp hx with hx | hx
          · -- a waiting list
            obtain ⟨g, hg, rfl⟩ := List.mem_map.mp (Multiset.mem_coe.mp hx)
            cases Multiset.mem_singleton.mp hpark
            exact .inr hg
          · obtain ⟨r, hr, rfl⟩ := List.mem_map.mp (Multiset.mem_coe.mp hx)
            exact absurd hpark (hnone _ rfl)
      · obtain ⟨e, he, hx⟩ := mem_sum_map.mp hx
        exact absurd hpark (hnone _ (not_parked_of_sites hx _))
    · obtain ⟨k, hk, hx⟩ := mem_sum_map.mp hx
      exact absurd hpark (hnone _ (not_parked_of_sites hx _))
  · revert hx
    cases s.hand with
    | none => exact fun hx => absurd hx (notMem_zero x)
    | some h =>
        intro hx
        rw [Multiset.mem_singleton.mp hx] at hpark
        exact absurd hpark (hnone _ rfl)

theorem mem_total_of_flight {x : Flight} (h : x ∈ s.fab.wires.flights) :
    ⟨.link x.port, x.frame⟩ ∈ s.fab.total := by
  have hsite : ∀ due k, x ∈ EventKind.flights due k → ⟨.link x.port, x.frame⟩ ∈ k.sites := by
    intro due k hk
    cases k with
    | frameArrive p f seq =>
        rw [Multiset.mem_singleton.mp hk]
        exact Multiset.mem_singleton_self _
    | _ => exact absurd hk (notMem_zero x)
  rcases Multiset.mem_add.mp h with h | h
  · obtain ⟨e, he, hx⟩ := mem_sum_map.mp h
    exact mem_total_of_event he (hsite _ _ hx)
  · obtain ⟨k, hk, hx⟩ := mem_sum_map.mp h
    exact Multiset.mem_add.mpr (.inr (mem_sum_map.mpr ⟨k, hk, hsite _ _ hx⟩))

end Members

section Refinement

variable {env : Env} {s s' : Snap}

theorem Snap.flow_eq {t : Topo} {order : Nat} {parked : Multiset (Nat × Frame)}
    {flights : Multiset Flight} {hand : Option (Nat × Frame)} {trace : List Obs}
    (ht : s.fab.topo = t) (ho : s.fab.nextOrder = order) (hp : s.total.bind (Site.parked t) = parked)
    (hf : s.fab.wires.flights = flights) (hh : s.hand = hand) (htr : s.fab.trace = trace) :
    s.flow = ⟨t, order, parked, flights, hand, trace⟩ := by
  subst ht ho hp hf hh htr
  rfl

theorem Snap.flow_of_core (hc : s'.fab.core = s.fab.core) (ht : s'.total = s.total)
    (hf : s'.fab.wires.flights = s.fab.wires.flights) (hh : s'.hand = s.hand) : s'.flow = s.flow := by
  have htopo := topo_of_core hc
  have hord : s'.fab.nextOrder = s.fab.nextOrder :=
    show s'.fab.core.nextOrder = s.fab.core.nextOrder by rw [hc]
  have htrace : s'.fab.trace = s.fab.trace := show s'.fab.core.trace = s.fab.core.trace by rw [hc]
  exact Snap.flow_eq htopo hord (by rw [ht]) hf hh htrace

theorem parked_of_move {t : Topo} {m m' : Multiset Site} {x y : Site} (h : m' + {x} = m + {y})
    (hx : x.parked t = y.parked t) : m'.bind (Site.parked t) = m.bind (Site.parked t) := by
  have hbind := congrArg (fun m => Multiset.bind m (Site.parked t)) h
  simp only [add_bind, singleton_bind, hx] at hbind
  exact add_right_cancel hbind

variable {σ : Fabric} {p : Nat} {f : Frame}

theorem flights_popEvent_silent {i : Nat} {e : Event} (h : σ.Due i e) (hk : e.kind.silent = true)
    : (σ.popEvent i e).wires.flights = σ.wires.flights := by
  rw [wires_popEvent_silent h hk]

theorem flow_launch (calls : Nat) (hp : p < σ.numPorts) (hsrc : (σ.ports p).src = f.source) :
    Snap.flow ⟨σ.launch calls p f, none⟩ =
      { Snap.flow ⟨σ, none⟩ with
        nextOrder := σ.nextOrder + 1
        parked := (Snap.flow ⟨σ, none⟩).parked + {(f.source, f)}
        trace := σ.trace ++ [.created f] } := by
  refine Snap.flow_eq (topo_launch ..) rfl ?_ (congrArg Wires.flights (wires_launch ..)) rfl rfl
  rw [Snap.total_none, total_launch hp, add_bind, singleton_bind]
  show _ + {((σ.ports p).src, f)} = _
  rw [hsrc]
  simp only [Snap.flow, Snap.total_none]

theorem flow_hold (ty : TlpType) {σ' : Fabric} {g : Frame}
    (hcore : ∃ calls, σ'.core = { σ.core with trace := σ.trace ++ [.received f], calls })
    (htotal : σ'.total = σ.total + {⟨.memory ty f.destination, g⟩})
    (hf : σ'.wires.flights = σ.wires.flights) (hd : (σ.ports p).dst = f.destination) :
    Flow.Step (Snap.flow ⟨σ, some (p, f)⟩) (Snap.flow ⟨σ', none⟩) := by
  obtain ⟨calls, hc⟩ := hcore
  have htopo : σ'.topo = σ.topo :=
    topo_of_core (σ := { σ with trace := σ.trace ++ [.received f], calls }) hc
  have hord : σ'.nextOrder = σ.nextOrder := show σ'.core.nextOrder = σ.nextOrder by rw [hc]; rfl
  have htrace : σ'.trace = σ.trace ++ [.received f] := show σ'.core.trace = _ by rw [hc]
  have hpark : (Snap.total ⟨σ', none⟩).bind (Site.parked σ.topo) =
      (Snap.total ⟨σ, some (p, f)⟩).bind (Site.parked σ.topo) := by
    rw [Snap.total_none, Snap.total_some, htotal, add_bind, add_bind,
      singleton_bind, singleton_bind]
    rfl
  rw [Snap.flow_eq (s := ⟨σ', none⟩) htopo hord hpark hf rfl htrace]
  exact .receive (d := Snap.flow ⟨σ, some (p, f)⟩) rfl hd

/-- The transmitter takes a frame that nothing at its node holds back. -/
theorem flow_sendFrame {h : Option (Nat × Frame)} {i : Nat} (hwf : Snap.Wf ⟨σ, h⟩)
    (hc : σ.wires.Clock) (hb : (σ.ports p).busy = false) (hi : (σ.ports p).queue[i]? = some f)
    (hel : σ.eligible p f = true) :
    Flow.Step (Snap.flow ⟨σ, h⟩) (Snap.flow ⟨σ.sendFrame env p i f, h⟩) := by
  have hok := hwf.queue_ok (List.mem_of_getElem? hi)
  have hp : p < σ.numPorts := hok.fits.1
  have hbal := balance_frame (total_sendFrame env hp hi) (handSites h)
  have hpark : (Snap.flow ⟨σ, h⟩).parked =
      (Snap.total ⟨σ.sendFrame env p i f, h⟩).bind (Site.parked σ.topo) + {((σ.ports p).src, f)} := by
    have hbind := congrArg (fun m => Multiset.bind m (Site.parked σ.topo)) hbal
    simp only [add_bind, singleton_bind] at hbind
    have hlink : Site.parked σ.topo ⟨.link p, onLink p f⟩ = 0 := rfl
    rw [hlink, add_zero] at hbind
    simp only [Snap.flow, Snap.total, add_bind]
    exact hbind.symm
  have hflights : (σ.sendFrame env p i f).wires.flights = σ.wires.flights +
      {⟨p, σ.wires.due (σ.now + wireTime env (f.size + tlpLinkBytes)), onLink p f⟩} := by
    rw [wires_sendFrame]
  have hcore := core_sendFrame σ env p i f
  rw [Snap.flow_eq (s := ⟨σ.sendFrame env p i f, h⟩) (topo_sendFrame ..)
    (show (σ.sendFrame env p i f).core.nextOrder = σ.nextOrder by rw [hcore]; rfl) rfl hflights rfl
    (show (σ.sendFrame env p i f).core.trace = σ.trace by rw [hcore]; rfl)]
  refine .send (d := Snap.flow ⟨σ, h⟩) hpark hok.fits.2.2 ?_ ?_
  -- the ordering check covers every queue and the waiting list of the node
  · intro g hg hlt hdom
    simp only [eligible, Bool.and_eq_true] at hel
    have hord := hel.1.1.2
    simp only [ordered, Bool.and_eq_true, List.all_eq_true, Bool.not_eq_true', Bool.and_eq_false_iff,
      decide_eq_false_iff_not, beq_eq_false_iff_ne, Bool.not_eq_false'] at hord
    have hclear : ¬ g.order < f.order ∨ g.domain ≠ f.domain ∨ canPass f.header g.header = true := by
      rcases mem_parked hg with ⟨q, hq, hsrc, hmem⟩ | hmem
      · have hport := (hwf.topo.mem_ports (σ.ports p).src q).mpr ⟨hq, hsrc⟩
        have := hord.1 q hport g hmem
        tauto
      · have := hord.2 g hmem
        tauto
    rcases hclear with hno | hno | hpass
    · exact absurd hlt hno
    · exact absurd hdom hno
    · exact hpass
  · -- a transmission takes at least one tick
    exact hc.fresh hb (Nat.lt_add_of_pos_right (Nat.lt_of_lt_of_le one_pos (le_max_left _ _)))

theorem flow_issueFrame (env : Env) {n : Nat} {op : Transfer} (bytes tag : Nat)
    (hp : p < σ.numPorts) (hsrc : (σ.ports p).src = n) (hreq : op.requester = n)
    (hne : op.requester ≠ op.target) :
    Flow.Step (Snap.flow ⟨σ, none⟩) (Snap.flow ⟨Fabric.issueFrame env σ n op p bytes tag, none⟩) := by
  have hsource : (requestFrame env σ n op bytes tag).source = n := by
    cases hrd : op.read <;> simp [Frame.source, requestFrame, makeFrame, hrd]
  have hnew := flow_launch
    (σ.callService env (!op.read && op.traffic != .doorbell && (σ.nodes n).hasRead)).2.calls
    hp (hsrc.trans hsource.symm)
  rw [issueFrame_eq]
  show Flow.Step _ (Snap.flow ⟨σ.launch _ p (requestFrame env σ n op bytes tag), none⟩)
  rw [hnew]
  refine .create (d := Snap.flow ⟨σ, none⟩) rfl rfl rfl rfl ?_
  rw [hsource, ← hreq]
  exact hne

theorem flow_build {σ σ' : Fabric} (hwf : Snap.Wf ⟨σ, none⟩) (hu : σ.Unused)
    (ht : σ'.total = σ.total) (hf : σ'.wires.flights = σ.wires.flights)
    (ho : σ'.nextOrder = σ.nextOrder) (htr : σ'.trace = σ.trace) :
    Flow.Step (Snap.flow ⟨σ, none⟩) (Snap.flow ⟨σ', none⟩) := by
  have hzero := (hwf.unused hu).1
  have hflights : σ.wires.flights = 0 := Multiset.eq_zero_of_forall_notMem fun x hx => by
    have := Snap.mem_total (s := ⟨σ, none⟩) (mem_total_of_flight (s := ⟨σ, none⟩) hx)
    rw [hzero] at this
    exact notMem_zero _ this
  have hpark : (Snap.flow ⟨σ, none⟩).parked = 0 := by
    simp only [Snap.flow, hzero, Multiset.zero_bind]
  rw [Snap.flow_eq (s := ⟨σ', none⟩) rfl ho
    (by rw [Snap.total_none, ht, ← Snap.total_none, hzero, Multiset.zero_bind, ← hpark]) hf rfl htr]
  exact .build (d := Snap.flow ⟨σ, none⟩) hpark hflights rfl

section Steps

variable {i t n : Nat} {op : Transfer}

theorem flow_enter (σ : Fabric) (r : Request) :
    Flow.Step (Snap.flow ⟨σ, none⟩) (Snap.flow ⟨σ.enter (σ.newTransfer r), none⟩) := by
  have htopo : (σ.enter (σ.newTransfer r)).topo = σ.topo := by
    rw [enter_eq]
    show (σ.modNode _ _).topo = _
    exact topo_modNode (queueTransfer_ports ..) (queueTransfer_endpoint ..)
  rw [Snap.flow_eq (s := ⟨σ.enter (σ.newTransfer r), none⟩) htopo (by rw [enter_eq])
    (by rw [Snap.total_none, total_enter, ← Snap.total_none])
    (show (σ.enter (σ.newTransfer r)).wires.flights = σ.wires.flights by rw [enter_eq]; rfl) rfl
    (by rw [enter_eq])]
  exact .note (d := Snap.flow ⟨σ, none⟩) (by simp) (by simp)

theorem flow_popBusy (hdue : σ.Due i ⟨t, .busyEnd p⟩) :
    Snap.flow ⟨(σ.popEvent i ⟨t, .busyEnd p⟩).modPort p fun port =>
      { port with busy := false }, none⟩ = Snap.flow ⟨σ, none⟩ := by
  refine Snap.flow_of_core (core_modPort rfl) ?_ ?_ rfl
  · rw [Snap.total_none, Snap.total_none, total_modPort_same (by rfl), total_popEvent_same hdue rfl]
  · have hf := flights_popEvent hdue
    rw [wires_modPort_busy rfl]
    simpa [EventKind.flights] using hf

theorem flow_popFrame {seq : Nat} (hdue : σ.Due i ⟨t, .frameArrive p f seq⟩) :
    Flow.Step (Snap.flow ⟨σ, none⟩)
      (Snap.flow ⟨(σ.popEvent i ⟨t, .frameArrive p f seq⟩).countTlp p seq, some (p, f)⟩) := by
  have hf := flights_popEvent hdue
  have hcore : ((σ.popEvent i ⟨t, .frameArrive p f seq⟩).countTlp p seq).core = σ.core :=
    core_countTlp ..
  rw [Snap.flow_eq (s := ⟨(σ.popEvent i ⟨t, .frameArrive p f seq⟩).countTlp p seq, some (p, f)⟩)
    (topo_of_core hcore) rfl ?_ (congrArg Wires.flights (wires_countTlp ..)) rfl rfl]
  · refine .arrive (d := Snap.flow ⟨σ, none⟩) (t := t) rfl hf.symm ?_
    intro x hx t' hdue'
    rcases Multiset.mem_add.mp hx with hx | hx
    · obtain ⟨e, he, hxe⟩ := mem_sum_map.mp hx
      have hle := hdue.2 e he
      obtain ⟨te, ke⟩ := e
      cases ke with
      | frameArrive =>
          rw [Multiset.mem_singleton.mp hxe] at hdue'
          cases hdue'
          exact hle
      | _ => exact absurd hxe (notMem_zero x)
    · obtain ⟨k, hk, hxk⟩ := mem_sum_map.mp hx
      cases k with
      | frameArrive =>
          rw [Multiset.mem_singleton.mp hxk] at hdue'
          cases hdue'
      | _ => exact absurd hxk (notMem_zero x)
  · rw [Snap.total_some, total_countTlp]
    exact congrArg (fun m => Multiset.bind m (Site.parked σ.topo))
      ((total_popEvent hdue).trans (Snap.total_none σ).symm)

theorem flow_popRead (hwf : Snap.Wf ⟨σ, none⟩) (hdue : σ.Due i ⟨t, .readService n f⟩) :
    Snap.flow ⟨(σ.popEvent i ⟨t, .readService n f⟩).modNode n fun m =>
      { m with responses := m.responses ++ [⟨f, 0⟩] }, none⟩ = Snap.flow ⟨σ, none⟩ := by
  have hok := hwf.event_ok hdue (Multiset.mem_singleton_self _)
  have hn : n < σ.numNodes := (show n = f.destination from hok.fits.1) ▸ hok.destination_lt
  refine Snap.flow_eq (topo_modNode rfl rfl) rfl ?_ ?_ rfl rfl
  · rw [Snap.total_none]
    exact (parked_of_move (total_popRead hn hdue) rfl).trans (by rw [← Snap.total_none])
  · exact flights_popEvent_silent hdue rfl

theorem flow_popWrite (hdue : σ.Due i ⟨t, .writeService n f⟩) :
    Flow.Step (Snap.flow ⟨σ, none⟩)
      (Snap.flow ⟨(σ.popEvent i ⟨t, .writeService n f⟩).landWrite f op, none⟩) := by
  set τ := σ.popEvent i ⟨t, .writeService n f⟩ with hτ
  have hcore : (τ.returnCredit f).1.core = σ.core := core_returnCredit ..
  have htopo : (τ.returnCredit f).1.topo = σ.topo := topo_of_core hcore
  rw [Snap.flow_eq (s := ⟨τ.landWrite f op, none⟩) htopo
    (show (τ.returnCredit f).1.core.nextOrder = σ.nextOrder by rw [hcore]; rfl) ?_ ?_ rfl
    (show (τ.returnCredit f).1.core.trace ++ [.delivered f] = σ.trace ++ [.delivered f] by
      rw [hcore]; rfl)]
  · exact .note (d := Snap.flow ⟨σ, none⟩) (by simp) (by simp)
  · rw [Snap.total_none, total_landWrite]
    have hbal := congrArg (fun m => Multiset.bind m (Site.parked σ.topo)) (total_popEvent hdue)
    simp only [add_bind] at hbal
    simp only [Snap.flow, Snap.total_none, ← hbal]
    exact (add_zero _).symm
  · show (τ.returnCredit f).1.wires.flights = _
    rw [wires_returnCredit]
    exact flights_popEvent_silent hdue rfl

theorem flow_popCompletion {r : ReadState} (hdue : σ.Due i ⟨t, .completionService n f⟩) :
    Flow.Step (Snap.flow ⟨σ, none⟩)
      (Snap.flow ⟨(σ.popEvent i ⟨t, .completionService n f⟩).acceptPiece n f (accepted r f),
        none⟩) := by
  set τ := σ.popEvent i ⟨t, .completionService n f⟩ with hτ
  set υ := (τ.modNode n fun m =>
    { m with reads := m.reads.map fun r' => if r'.tag == (accepted r f).tag then accepted r f else r' }).observe
      (.delivered f) with hυ
  have hcore : (υ.returnCredit f).1.core = υ.core := core_returnCredit ..
  have htopo : υ.topo = σ.topo := by
    rw [hυ]
    exact (topo_modNode (σ := τ) (n := n) (g := fun m =>
      { m with
        reads := m.reads.map fun r' =>
          if r'.tag == (accepted r f).tag then accepted r f else r' }) rfl rfl)
  have htopo' : (υ.returnCredit f).1.topo = υ.topo := topo_of_core hcore
  rw [Snap.flow_eq (s := ⟨τ.acceptPiece n f (accepted r f), none⟩) (htopo'.trans htopo)
    (show (υ.returnCredit f).1.core.nextOrder = σ.nextOrder by rw [hcore]; rfl) ?_ ?_ rfl
    (show (υ.returnCredit f).1.core.trace = σ.trace ++ [.delivered f] by rw [hcore]; rfl)]
  · exact .note (d := Snap.flow ⟨σ, none⟩) (by simp) (by simp)
  · rw [Snap.total_none, total_acceptPiece]
    have hbal := congrArg (fun m => Multiset.bind m (Site.parked σ.topo)) (total_popEvent hdue)
    simp only [add_bind] at hbal
    simp only [Snap.flow, Snap.total_none, ← hbal]
    exact (add_zero _).symm
  · show (υ.returnCredit f).1.wires.flights = _
    rw [wires_returnCredit]
    exact flights_popEvent_silent hdue rfl

theorem flow_retireRead {r : ReadState} :
    Snap.flow ⟨σ.retireRead n r op, none⟩ = Snap.flow ⟨σ, none⟩ := by
  refine Snap.flow_eq ?_ rfl ?_ rfl rfl rfl
  · exact topo_modNode (σ := σ) (n := n) (g := fun m =>
      { m with
        readBytes := wsub 64 m.readBytes r.bytes
        reads := m.reads.filter fun r' => r'.tag != r.tag }) rfl rfl
  · rw [Snap.total_none, total_retireRead, ← Snap.total_none]

theorem flow_forward (hwf : Snap.Wf ⟨σ, some (p, f)⟩) (hd : (σ.ports p).dst ≠ f.destination) :
    Flow.Step (Snap.flow ⟨σ, some (p, f)⟩)
      (Snap.flow ⟨σ.forward (σ.ports p).dst f, none⟩) := by
  have hlt : (σ.ports p).dst < σ.numNodes := hwf.topo.dst_lt hwf.hand_ok.fits.1
  have hpark : (Snap.total ⟨σ.forward (σ.ports p).dst f, none⟩).bind (Site.parked σ.topo) =
      (Snap.flow ⟨σ, some (p, f)⟩).parked + {((σ.ports p).dst, σ.atNode (σ.ports p).dst f)} := by
    rw [Snap.total_none, total_forward hlt, add_bind, singleton_bind]
    simp only [Snap.flow, Snap.total_some, add_bind, singleton_bind]
    show _ = _ + 0 + _
    rw [add_zero]
    rfl
  rw [Snap.flow_eq (s := ⟨σ.forward (σ.ports p).dst f, none⟩)
    (topo_modNode (σ := { σ with nextOrder := σ.nextOrder + 1 }) rfl rfl) rfl hpark rfl rfl rfl]
  exact .forward (d := Snap.flow ⟨σ, some (p, f)⟩) rfl hd

theorem flow_holdRead {calls delay : Nat} (hd : (σ.ports p).dst = f.destination) :
    Flow.Step (Snap.flow ⟨σ, some (p, f)⟩)
      (Snap.flow ⟨({ ((σ.observe (.received f)).returnCredit f).1 with calls }).schedule delay
        (.readService f.destination ((σ.observe (.received f)).returnCredit f).2), none⟩) := by
  refine flow_hold .read (g := { f with ingress := none }) ⟨calls, ?_⟩ ?_ ?_ hd
  · show { ((σ.observe (.received f)).returnCredit f).1.core with calls } = _
    rw [core_returnCredit]
    rfl
  · rw [total_schedule, total_calls, total_returnCredit, total_observe, returnCredit_frame]
    rfl
  · rw [wires_schedule_silent rfl]
    show ((σ.observe (.received f)).returnCredit f).1.wires.flights = _
    rw [wires_returnCredit]
    rfl

theorem flow_assign (hwf : Snap.Wf ⟨σ, none⟩) (hi : (σ.nodes n).waiting[i]? = some f)
    (hr : σ.topo.route n f.destination = some p) :
    Snap.flow ⟨(σ.enqueue p f).modNode n fun m =>
      { m with waiting := m.waiting.eraseIdx i }, none⟩ = Snap.flow ⟨σ, none⟩ := by
  have hn := (hwf.waiting_ok (List.mem_of_getElem? hi)).fits.1
  obtain ⟨hp, hsrc⟩ := (hwf.topo.mem_ports n p).mp (Topo.route_mem hr)
  refine Snap.flow_eq ?_ rfl ?_ ?_ rfl rfl
  · rw [topo_modNode (by rfl) (by rfl), topo_enqueue]
  · have hsame : Site.parked σ.topo ⟨.waiting n, f⟩ = Site.parked σ.topo ⟨.queue p, f⟩ := by
      show {(n, f)} = {(σ.topo.src p, f)}
      rw [hsrc]
    rw [Snap.total_none]
    exact (parked_of_move (total_assign hn hp hi) hsame).trans (by rw [← Snap.total_none])
  · show (σ.enqueue p f).wires.flights = _
    rw [wires_enqueue]

theorem flow_respond {response : Response} {others : List Response}
    (hwf : Snap.Wf ⟨σ, none⟩) (hr : (σ.nodes n).responses = response :: others)
    (hroute : σ.topo.route n response.request.header.requester = some p) :
    Flow.Step (Snap.flow ⟨σ, none⟩)
      (Snap.flow ⟨σ.respond n response others op p (completionBytes σ.config response), none⟩) := by
  have hmem : response ∈ (σ.nodes n).responses := by rw [hr]; exact List.mem_cons_self
  have hn := hwf.stores.responses n (List.ne_nil_of_mem hmem)
  obtain ⟨hp, hsrc⟩ := (hwf.topo.mem_ports n p).mp (Topo.route_mem hroute)
  have hok := hwf.response_ok hmem
  have htopo : (σ.respond n response others op p (completionBytes σ.config response)).topo =
      σ.topo := by
    rw [respond_eq, topo_modNode (by rfl) (by rfl), topo_launch]
  have hpark : (Snap.total ⟨σ.respond n response others op p (completionBytes σ.config response),
      none⟩).bind (Site.parked σ.topo) =
      (Snap.flow ⟨σ, none⟩).parked + {(n, σ.completionFrame n response op)} := by
    have hbind := congrArg (fun m => Multiset.bind m (Site.parked σ.topo))
      (total_respond op hn hp hr)
    have hrest : (answerSites n (response.next + completionBytes σ.config response)
        response.request).bind (Site.parked σ.topo) = 0 := by
      unfold answerSites
      split
      · rfl
      · rw [singleton_bind]
        rfl
    simp only [add_bind, singleton_bind, hrest, add_zero] at hbind
    rw [Snap.total_none]
    refine (add_zero _).symm.trans (hbind.trans ?_)
    simp only [Snap.flow, Snap.total_none]
    show _ + {(σ.topo.src p, _)} = _
    rw [show σ.topo.src p = n from hsrc]
  rw [Snap.flow_eq htopo rfl hpark (congrArg Wires.flights (wires_respond ..)) rfl rfl]
  refine .create (d := Snap.flow ⟨σ, none⟩) (f := σ.completionFrame n response op)
    rfl rfl rfl rfl ?_
  -- the request left its requester, so the completion leaves the completer
  show n ≠ response.request.header.requester
  have hdest : n = response.request.destination := hok.fits.1
  have hty : response.request.header.type = .read := hok.fits.2.1
  rcases hok.ends with hne | hcpl
  · exact hdest ▸ hne.symm
  · exact absurd (hcpl.symm.trans hty) (by simp)

theorem flow_issueRead (env : Env) {id : Nat} (hwf : Snap.Wf ⟨σ, none⟩)
    (hi : σ.Issues n op id p) :
    Flow.Step (Snap.flow ⟨σ, none⟩)
      (Snap.flow ⟨Fabric.issueFrame env
        (σ.openRead n op (requestBytes σ.config op) (freeTag (σ.nodes n).reads σ.config.tags 0))
        n op p (requestBytes σ.config op) (freeTag (σ.nodes n).reads σ.config.tags 0), none⟩) := by
  obtain ⟨⟨rd, rest, hq⟩, hop, hmore, -, hroute, -⟩ := hi
  obtain ⟨-, -, hown⟩ := hwf.jobs.queued n rd id (by rw [hq]; exact List.mem_cons_self)
  obtain ⟨hp, hsrc⟩ := (hwf.topo.mem_ports n p).mp (Topo.route_mem hroute)
  have hopen : Snap.flow ⟨σ.openRead n op (requestBytes σ.config op)
      (freeTag (σ.nodes n).reads σ.config.tags 0), none⟩ = Snap.flow ⟨σ, none⟩ := by
    refine Snap.flow_eq ?_ rfl ?_ rfl rfl rfl
    · show (σ.modNode _ _).topo = _
      exact topo_modNode rfl rfl
    · rw [Snap.total_none, total_openRead, ← Snap.total_none]
  have hstep := flow_issueFrame env
    (σ := σ.openRead n op (requestBytes σ.config op) (freeTag (σ.nodes n).reads σ.config.tags 0))
    (requestBytes σ.config op) (freeTag (σ.nodes n).reads σ.config.tags 0) hp hsrc
    (hown op hop).1 (hwf.jobs.filed id op hop).2.2.distinct
  rwa [hopen] at hstep

theorem flow_finish {id : Nat} (hop : σ.transfers id = some op) (hnext : op.next = op.bytes)
    (hpend : op.pending = 0) :
    Snap.flow ⟨σ.finish id, none⟩ = Snap.flow ⟨σ, none⟩ ∨
      Flow.Step (Snap.flow ⟨σ, none⟩) (Snap.flow ⟨σ.finish id, none⟩) := by
  have hflow : Snap.flow ⟨σ.finish id, none⟩ = { Snap.flow ⟨σ, none⟩ with
      trace := if op.complete then σ.trace ++ [.scheduled id] else σ.trace } := by
    have hfinish : (σ.finish id).topo = σ.topo ∧ (σ.finish id).nextOrder = σ.nextOrder ∧
        (σ.finish id).trace = if op.complete then σ.trace ++ [.scheduled id] else σ.trace := by
      unfold Fabric.finish
      simp only [hop, hnext, hpend, ne_eq, not_true_eq_false, or_self, ↓reduceIte]
      cases op.complete <;> exact ⟨rfl, rfl, rfl⟩
    refine Snap.flow_eq hfinish.1 hfinish.2.1 ?_ (congrArg Wires.flights (wires_finish ..)) rfl hfinish.2.2
    rw [Snap.total_none, total_finish, ← Snap.total_none]
    rfl
  rw [hflow]
  cases op.complete with
  | false => exact .inl rfl
  | true => exact .inr (.note (d := Snap.flow ⟨σ, none⟩) (by simp) (by simp))

end Steps

/-- **The fabric refines its flow.** -/
theorem Micro.flow (h : Micro env s s') (hwf : s.Wf) (hc : s.fab.wires.Clock) :
    s'.flow = s.flow ∨ Flow.Step s.flow s'.flow := by
  cases h with
  | @addNode σ σ' k h =>
      obtain ⟨hu, heq⟩ := addNode_spec h
      subst heq
      exact .inr (flow_build hwf hu (total_addNode h) rfl rfl rfl)
  | @addLink σ σ' a b h =>
      obtain ⟨hg, heq⟩ := addLink_spec h
      subst heq
      exact .inr (flow_build hwf hg.unused (total_addLink h) rfl rfl rfl)
  -- A transfer is noted; no frame moves before its node is pumped.
  | @enter σ r hr => exact .inr (flow_enter σ r)
  | advance => exact .inl rfl
  -- DLLPs, timers and the clock move no frame.
  | popBusy hdue => exact .inl (flow_popBusy hdue)
  | popCredit hdue =>
      refine .inl (Snap.flow_of_core (core_takeCredit ..) ?_ ?_ rfl)
      · rw [Snap.total_none, Snap.total_none, total_takeCredit, total_popEvent_same hdue rfl]
      · rw [wires_takeCredit, flights_popEvent_silent hdue rfl]
  | popAckDllp hdue =>
      refine .inl (Snap.flow_of_core (core_takeAck ..) ?_ ?_ rfl)
      · rw [Snap.total_none, Snap.total_none, total_takeAck, total_popEvent_same hdue rfl]
      · rw [wires_takeAck, flights_popEvent_silent hdue rfl]
  | popFrame hdue => exact .inr (flow_popFrame hdue)
  | popFc hdue =>
      refine .inl (Snap.flow_of_core (core_flushReturn ..) ?_ ?_ rfl)
      · rw [Snap.total_none, Snap.total_none, total_flushReturn, total_popEvent_same hdue rfl]
      · rw [wires_flushReturn, flights_popEvent_silent hdue rfl]
  | popAckTimer hdue | popWake hdue | popCallback hdue =>
      refine .inl (Snap.flow_of_core rfl ?_ (flights_popEvent_silent hdue rfl) rfl)
      rw [Snap.total_none, Snap.total_none, total_popEvent_same hdue rfl]
  -- Memory takes a frame that has already been received.
  | popRead hdue => exact .inl (flow_popRead hwf hdue)
  | popWrite hdue => exact .inr (flow_popWrite hdue)
  | popCompletion hdue => exact .inr (flow_popCompletion hdue)
  | retire => exact .inl flow_retireRead
  -- The link layer: only a transmission moves a frame.
  | cancelAck =>
      refine .inl (Snap.flow_of_core rfl ?_ ?_ rfl)
      · simp only [Snap.total, total_cancel fun _ => sites_of_isAck]
      · rw [wires_cancel fun _ => silent_of_isAck]
  | pushAck =>
      exact .inl (Snap.flow_of_core (core_pushAck ..) (by simp only [Snap.total, total_pushAck])
        (by rw [wires_pushAck]) rfl)
  | armAck =>
      refine .inl (Snap.flow_of_core rfl ?_ ?_ rfl)
      · simp only [Snap.total, total_schedule, EventKind.sites, add_zero]
      · rw [wires_schedule_silent rfl]
  | sendControl =>
      refine .inl (Snap.flow_of_core (core_sendControl ..) ?_ ?_ rfl)
      · simp only [Snap.total, total_sendControl]
      · rw [wires_sendControl]
        rfl
  | sendFrame hb _ hi hel => exact .inr (flow_sendFrame hwf hc hb hi hel)
  | armWake =>
      exact .inl (Snap.flow_of_core (core_armWake ..) (by simp only [Snap.total, total_armWake])
        (by rw [wires_armWake]) rfl)
  -- A reception: the frame goes on, or it has arrived.
  | forward hd => exact .inr (flow_forward hwf hd)
  | holdRead hd => exact .inr (flow_holdRead hd)
  | @holdWrite σ p f calls delay hd ht =>
      right
      refine flow_hold .write (g := f) ⟨calls, rfl⟩ ?_ ?_ hd
      · rw [total_schedule, total_calls, total_observe]
        rfl
      · rw [wires_schedule_silent rfl]
        rfl
  | @holdCompletion σ p f calls delay hd ht =>
      right
      refine flow_hold .completion (g := f) ⟨calls, rfl⟩ ?_ ?_ hd
      · rw [total_schedule, total_calls, total_observe]
        rfl
      · rw [wires_schedule_silent rfl]
        rfl
  -- The pump: frames change queues within a node, or are new.
  | assign hi hr => exact .inl (flow_assign hwf hi hr)
  | respond hr hroute => exact .inr (flow_respond hwf hr hroute)
  | @issueWrite σ n op id p hi hrd =>
      right
      obtain ⟨⟨rd, rest, hq⟩, hop, hmore, -, hroute, -⟩ := hi
      obtain ⟨-, -, hown⟩ := hwf.jobs.queued n rd id (by rw [hq]; exact List.mem_cons_self)
      obtain ⟨hp, hsrc⟩ := (hwf.topo.mem_ports n p).mp (Topo.route_mem hroute)
      exact flow_issueFrame env _ _ hp hsrc (hown op hop).1 (hwf.jobs.filed id op hop).2.2.distinct
  | issueRead hi => exact .inr (flow_issueRead env hwf hi)
  | @popTransfer σ n rd id rest hq =>
      left
      refine Snap.flow_eq (topo_modNode ?_ ?_) rfl ?_ rfl rfl rfl
      · cases rd <;> rfl
      · cases rd <;> rfl
      · rw [Snap.total_none, total_popTransfer, ← Snap.total_none]
  | finish hop hnext hpend => exact flow_finish hop hnext hpend
  | @pumping σ n b =>
      left
      refine Snap.flow_eq (topo_modNode rfl rfl) rfl ?_ rfl rfl rfl
      rw [Snap.total_none, total_modNode_same (by rfl) (by rfl), ← Snap.total_none]

end Refinement

end ProtoBridge.Pcie
