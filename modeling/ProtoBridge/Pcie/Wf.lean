import ProtoBridge.Pcie.Route
import ProtoBridge.Pcie.Sites

/-!
# Well-formed fabrics

The structural invariant under every other result: the links are consistent,
every frame is at a place that fits its route, every transfer and every entry of
an injection queue belongs to the node that submitted it, and before the first
submission there is no traffic at all, so construction never meets any.
-/

namespace ProtoBridge.Pcie

open Lib Fabric
open Function (update update_of_ne update_self)
open Multiset (mem_singleton_self notMem_zero)

/-- A frame stored at node `n`: it is on its way elsewhere, and its ordering
domain is the buffer it came in through. -/
structure InNode (t : Topo) (n : Nat) (f : Frame) : Prop where
  away : f.destination ≠ n
  domain : f.domain = f.ingress
  ingress : ∀ q, f.ingress = some q → q < t.numPorts ∧ t.dst q = n

/-- A frame fits its place. -/
def Place.Fits (t : Topo) (f : Frame) : Place → Prop
  | .queue p => p < t.numPorts ∧ InNode t (t.src p) f ∧ t.route (t.src p) f.destination = some p
  | .waiting n => n < t.numNodes ∧ InNode t n f
  | .link p => p < t.numPorts ∧ f.ingress = some p ∧ t.route (t.src p) f.destination = some p
  | .memory .read n => n = f.destination ∧ f.header.type = .read ∧ f.ingress = none
  | .memory ty n => n = f.destination ∧ f.header.type = ty ∧
      ∃ p, f.ingress = some p ∧ p < t.numPorts ∧ t.dst p = n
  | .answer n k => n = f.destination ∧ f.header.type = .read ∧ f.ingress = none ∧ k < f.header.bytes

/-- A frame is not empty, its two ends exist, and it fits its place. -/
structure Site.Ok (t : Topo) (x : Site) : Prop where
  bytes_pos : 0 < x.frame.header.bytes
  destination_lt : x.frame.destination < t.numNodes
  requester_lt : x.frame.header.requester < t.numNodes
  ends : x.frame.header.requester ≠ x.frame.destination ∨ x.frame.header.type = .completion
  fits : x.place.Fits t x.frame

/-- What `Submit` checked, and the progress of the transfer since. -/
structure Transfer.Ok (t : Topo) (op : Transfer) : Prop where
  requester_lt : op.requester < t.numNodes
  target_lt : op.target < t.numNodes
  distinct : op.requester ≠ op.target
  target_eq : op.address / window - 1 = op.target
  next_le : op.next ≤ op.bytes

/-- Transfers are filed under their id, and injection queues hold ids of their
own node and direction. -/
structure Fabric.Jobs (σ : Fabric) : Prop where
  filed : ∀ id op, σ.transfers id = some op → op.id = id ∧ id < σ.nextId ∧ op.Ok σ.topo
  queued : ∀ n rd id, id ∈ σ.injection n rd → id < σ.nextId ∧ n < σ.numNodes ∧
    ∀ op, σ.transfers id = some op → op.requester = n ∧ op.read = rd

/-- Nothing was submitted yet. -/
def Fabric.Unused (σ : Fabric) : Prop := σ.statsReads = 0 ∧ σ.statsWrites = 0

/-- Only ports and nodes that exist store frames. -/
structure Fabric.Stores (σ : Fabric) : Prop where
  queue : ∀ p, (σ.ports p).queue ≠ [] → p < σ.numPorts
  waiting : ∀ n, (σ.nodes n).waiting ≠ [] → n < σ.numNodes
  responses : ∀ n, (σ.nodes n).responses ≠ [] → n < σ.numNodes

/-- The structural invariant. -/
structure Snap.Wf (s : Snap) : Prop where
  valid : s.fab.topo.config.Valid
  topo : s.fab.topo.Wf
  jobs : s.fab.Jobs
  sites : ∀ x ∈ s.total, x.Ok s.fab.topo
  stores : s.fab.Stores
  unused : s.fab.Unused → s.total = 0 ∧ (∀ id, s.fab.transfers id = none) ∧ s.fab.trace = [] ∧
    ∀ n, (s.fab.nodes n).reads = [] ∧ (s.fab.nodes n).readBytes = 0

/-! ## Frames are where the sites say -/

theorem Snap.total_none (σ : Fabric) : Snap.total ⟨σ, none⟩ = σ.total := add_zero _

theorem Snap.total_some (σ : Fabric) (p : Nat) (f : Frame) :
    Snap.total ⟨σ, some (p, f)⟩ = σ.total + {⟨.link p, f⟩} := rfl

section Members

variable {σ : Fabric}

variable {f : Frame}

theorem mem_total_of_queue {p : Nat} (hp : p < σ.numPorts) (h : f ∈ (σ.ports p).queue)
    : ⟨.queue p, f⟩ ∈ σ.total := by
  refine Multiset.mem_add.mpr (.inl (Multiset.mem_add.mpr (.inl (Multiset.mem_add.mpr (.inl ?_)))))
  refine Multiset.mem_sum.mpr ⟨p, Finset.mem_range.mpr hp, ?_⟩
  exact Multiset.mem_coe.mpr (List.mem_map.mpr ⟨f, h, rfl⟩)

theorem mem_total_of_waiting {n : Nat} (hn : n < σ.numNodes) (h : f ∈ (σ.nodes n).waiting)
    : ⟨.waiting n, f⟩ ∈ σ.total := by
  refine Multiset.mem_add.mpr (.inl (Multiset.mem_add.mpr (.inl (Multiset.mem_add.mpr (.inr ?_)))))
  refine Multiset.mem_sum.mpr ⟨n, Finset.mem_range.mpr hn, Multiset.mem_add.mpr (.inl ?_)⟩
  exact Multiset.mem_coe.mpr (List.mem_map.mpr ⟨f, h, rfl⟩)

theorem mem_total_of_response {n : Nat} {r : Response} (hn : n < σ.numNodes)
    (h : r ∈ (σ.nodes n).responses) : ⟨.answer n r.next, r.request⟩ ∈ σ.total := by
  refine Multiset.mem_add.mpr (.inl (Multiset.mem_add.mpr (.inl (Multiset.mem_add.mpr (.inr ?_)))))
  refine Multiset.mem_sum.mpr ⟨n, Finset.mem_range.mpr hn, Multiset.mem_add.mpr (.inr ?_)⟩
  exact Multiset.mem_coe.mpr (List.mem_map.mpr ⟨r, h, rfl⟩)

theorem mem_total_of_event {e : Event} {x : Site} (he : e ∈ σ.events) (hx : x ∈ e.kind.sites) :
    x ∈ σ.total := by
  refine Multiset.mem_add.mpr (.inl (Multiset.mem_add.mpr (.inr ?_)))
  exact mem_sum_map.mpr ⟨e, he, hx⟩

end Members

/-! ## Frame rules -/

variable {σ σ' : Fabric} {op : Transfer} {n : Nat} {env : Env} {P : Snap → Prop}

theorem Fabric.Jobs.congr (h : σ.Jobs) (ht : σ'.topo = σ.topo) (htr : σ'.transfers = σ.transfers)
    (hid : σ'.nextId = σ.nextId) (hinj : ∀ n rd, σ'.injection n rd = σ.injection n rd)
    : σ'.Jobs := by
  have hn : σ'.numNodes = σ.numNodes := congrArg Topo.numNodes ht
  refine ⟨fun id op hop => ?_, fun n rd id hid' => ?_⟩
  · rw [hid, ht]
    exact h.filed id op (htr ▸ hop)
  · rw [hid, htr, hn]
    exact h.queued n rd id (hinj n rd ▸ hid')

variable {id : Nat} {g : Node → Node} {c : Config}

theorem Fabric.Jobs.setTransfer (h : σ.Jobs) {op' : Transfer} (hop : σ.transfers id = some op)
    (hid : op'.id = op.id) (hok : op'.Ok σ.topo) (hreq : op'.requester = op.requester)
    (hread : op'.read = op.read) : (σ.setTransfer id (some op')).Jobs := by
  refine ⟨fun id' x hx => ?_, fun n rd id' hmem => ?_⟩
  · rcases update_eq hx with ⟨rfl, ⟨⟩⟩ | ⟨-, hx⟩
    · obtain ⟨hid0, hlt, -⟩ := h.filed id' op hop
      exact ⟨hid.trans hid0, hlt, hok⟩
    · exact h.filed id' x hx
  · obtain ⟨hlt, hn, hall⟩ := h.queued n rd id' hmem
    refine ⟨hlt, hn, fun x hx => ?_⟩
    rcases update_eq hx with ⟨rfl, ⟨⟩⟩ | ⟨-, hx⟩
    · rw [hreq, hread]
      exact hall op hop
    · exact hall x hx

theorem Fabric.Jobs.erase (h : σ.Jobs) (id : Nat) : (σ.setTransfer id none).Jobs := by
  refine ⟨fun id' x hx => ?_, fun n rd id' hmem => ?_⟩
  · rcases update_eq hx with ⟨-, ⟨⟩⟩ | ⟨-, hx⟩
    exact h.filed id' x hx
  · obtain ⟨hlt, hn, hall⟩ := h.queued n rd id' hmem
    refine ⟨hlt, hn, fun x hx => hall x ?_⟩
    rcases update_eq hx with ⟨-, ⟨⟩⟩ | ⟨-, hx⟩
    exact hx

theorem Fabric.Stores.congr (h : σ.Stores) (ht : σ'.topo = σ.topo)
    (hq : ∀ p, (σ'.ports p).queue = (σ.ports p).queue) (hn : σ'.nodes = σ.nodes) : σ'.Stores := by
  have hnn : σ'.numNodes = σ.numNodes := congrArg Topo.numNodes ht
  have hnp : σ'.numPorts = σ.numPorts := congrArg Topo.numPorts ht
  refine ⟨fun p hp => ?_, fun n hw => ?_, fun n hr => ?_⟩
  · rw [hnp]
    exact h.queue p (hq p ▸ hp)
  · rw [hnn]
    exact h.waiting n (hn ▸ hw)
  · rw [hnn]
    exact h.responses n (hn ▸ hr)

theorem Fabric.Stores.modPort (h : σ.Stores) {p : Nat} {g : Port → Port} (hp : p < σ.numPorts)
    : (σ.modPort p g).Stores :=
  ⟨(Function.forall_update_iff σ.ports fun q x => x.queue ≠ [] → q < σ.numPorts).mpr
    ⟨fun _ => hp, fun q _ => h.queue q⟩, h.waiting, h.responses⟩

theorem Fabric.Stores.enqueue {σ : Fabric} (h : σ.Stores) {p : Nat} (f : Frame)
    (hp : p < σ.numPorts) : (σ.enqueue p f).Stores :=
  h.modPort hp

theorem Fabric.Stores.modNode (h : σ.Stores) (hn : n < σ.numNodes) : (σ.modNode n g).Stores :=
  ⟨h.queue, (Function.forall_update_iff σ.nodes fun m x => x.waiting ≠ [] → m < σ.numNodes).mpr
    ⟨fun _ => hn, fun m _ => h.waiting m⟩,
    (Function.forall_update_iff σ.nodes fun m x => x.responses ≠ [] → m < σ.numNodes).mpr
    ⟨fun _ => hn, fun m _ => h.responses m⟩⟩

theorem Fabric.Stores.modNode_same (h : σ.Stores)
    (hw : (g (σ.nodes n)).waiting = (σ.nodes n).waiting)
    (hr : (g (σ.nodes n)).responses = (σ.nodes n).responses) : (σ.modNode n g).Stores := by
  refine ⟨h.queue, fun m hm => ?_, fun m hm => ?_⟩
  · rw [modNode_field Node.waiting hw] at hm
    exact h.waiting m hm
  · rw [modNode_field Node.responses hr] at hm
    exact h.responses m hm

namespace Snap.Wf

variable {s s' : Snap}

theorem used_of_mem (h : s.Wf) {x : Site} (hx : x ∈ s.total) : ¬ s.fab.Unused := by
  intro hu
  rw [(h.unused hu).1] at hx
  exact notMem_zero x hx

theorem used_of_transfer (h : s.Wf) {id : Nat} (hop : s.fab.transfers id = some op)
    : ¬ s.fab.Unused := by
  intro hu
  rw [(h.unused hu).2.1 id] at hop
  cases hop

theorem of_core (h : s.Wf) (hc : s'.fab.core = s.fab.core) (ht : s'.total = s.total) : s'.Wf := by
  have htopo := topo_of_core hc
  have hnodes : s'.fab.nodes = s.fab.nodes := show s'.fab.core.nodes = s.fab.core.nodes by rw [hc]
  have htr : s'.fab.transfers = s.fab.transfers :=
    show s'.fab.core.transfers = s.fab.core.transfers by rw [hc]
  have hid : s'.fab.nextId = s.fab.nextId := show s'.fab.core.nextId = s.fab.core.nextId by rw [hc]
  have hq : ∀ p, (s'.fab.ports p).queue = (s.fab.ports p).queue := fun p =>
    show (s'.fab.core.ports p).queue = (s.fab.core.ports p).queue by rw [hc]
  refine ⟨htopo ▸ h.valid, htopo ▸ h.topo, h.jobs.congr htopo htr hid ?_, ?_,
    h.stores.congr htopo hq hnodes, fun hu => ?_⟩
  · intro n rd
    simp only [injection, hnodes]
  · rw [htopo, ht]
    exact h.sites
  · have hu' : s'.fab.core.Unused := hu
    rw [hc] at hu'
    obtain ⟨h0, hn, htrace, hreads⟩ := h.unused hu'
    refine ⟨ht.trans h0, htr ▸ hn, ?_, hnodes ▸ hreads⟩
    show s'.fab.core.trace = []
    rw [hc]
    exact htrace

/-- Steps that take the frames `A` away and put the frames `B` in place. -/
theorem move (h : s.Wf) (hused : ¬ s.fab.Unused) (hst : s'.fab.Unused → s.fab.Unused)
    (htopo : s'.fab.topo = s.fab.topo) (hjobs : s'.fab.Jobs) (hstores : s'.fab.Stores)
    (A : Multiset Site) {B : Multiset Site} (hbal : s'.total + A = s.total + B)
    (hB : ∀ x ∈ B, x.Ok s.fab.topo) : s'.Wf := by
  refine ⟨htopo ▸ h.valid, htopo ▸ h.topo, hjobs, fun x hx => ?_, hstores,
    fun hu => absurd (hst hu) hused⟩
  have hmem : x ∈ s.total + B := hbal ▸ Multiset.mem_add.mpr (.inl hx)
  rw [htopo]
  rcases Multiset.mem_add.mp hmem with hold | hnew
  · exact h.sites x hold
  · exact hB x hnew

end Snap.Wf

/-! ## Request and completion sizes -/

theorem requestBytes_pos (hc : c.Valid) (h : op.next < op.bytes) : 0 < requestBytes c op := by
  have hmod : (op.address + op.next) % 4 < 4 := Nat.mod_lt _ (by decide)
  have hpage : (op.address + op.next) % 4096 < 4096 := Nat.mod_lt _ (by decide)
  have hlimit : 4 ≤ (if op.read then min (min c.mrrs c.maxReadBytes) c.completionBufferBytes
      else c.mps) := by
    have h1 := hc.mrrs_ge
    have h2 := hc.maxReadBytes_ge
    have h3 := hc.completionBuffer_ge
    have h4 := hc.mps_ge
    split <;> omega
  simp only [requestBytes]
  omega

theorem requestBytes_le (c : Config) (op : Transfer) :
    requestBytes c op ≤ op.bytes - op.next := by
  simp only [requestBytes]
  omega

theorem completionBytes_le (c : Config) (r : Response) :
    completionBytes c r ≤ r.request.header.bytes - r.next := by
  simp only [completionBytes]
  split <;> omega

/-! ## Construction -/

theorem Fabric.Topo.Wf.ports_eq_nil {t : Topo} (h : t.Wf) (hn : t.numNodes ≤ n) :
    t.ports n = [] := by
  refine List.eq_nil_iff_forall_not_mem.mpr fun p hp => ?_
  obtain ⟨hlt, hsrc⟩ := (h.mem_ports n p).mp hp
  have := h.src_lt p hlt
  omega

theorem addNode_spec {k : NodeKind} (h : σ.addNode k = .ok σ') :
    σ.Unused ∧ σ' = { σ with
      nodes := update σ.nodes σ.numNodes (newNode σ.config k)
      numNodes := σ.numNodes + 1 } := by
  unfold addNode at h
  split at h
  · cases h
  · rename_i hg
    simp only [not_or, not_not] at hg
    cases h
    exact ⟨⟨hg.1, hg.2.1⟩, rfl⟩

/-- The two ports `AddLink` creates. -/
def linkPorts (σ : Fabric) (a b : Nat) : Nat → Port :=
  update
    (update σ.ports σ.numPorts
      { src := a, dst := b, reverse := σ.numPorts + 1, available := σ.config.credits })
    (σ.numPorts + 1) { src := b, dst := a, reverse := σ.numPorts, available := σ.config.credits }

/-- The guards of `AddLink`. -/
structure Links (σ : Fabric) (a b : Nat) : Prop where
  unused : σ.Unused
  left_lt : a < σ.numNodes
  right_lt : b < σ.numNodes
  distinct : a ≠ b
  fresh : ∀ p ∈ (σ.nodes a).ports, (σ.ports p).dst ≠ b

theorem addLink_spec {a b : Nat} (h : σ.addLink a b = .ok σ') :
    Links σ a b ∧
      σ' = (({ σ with ports := linkPorts σ a b, numPorts := σ.numPorts + 2 }.modNode a
        fun n => { n with ports := n.ports ++ [σ.numPorts] }).modNode b
          fun n => { n with ports := n.ports ++ [σ.numPorts + 1] }) := by
  unfold addLink at h
  split at h
  · cases h
  · rename_i hg
    split at h
    · cases h
    · rename_i hd
      simp only [not_or, not_not, not_le, ge_iff_le] at hg
      simp only [List.any_eq_true, not_exists, not_and, beq_iff_eq] at hd
      cases h
      exact ⟨⟨⟨hg.2.2.2.1, hg.2.2.2.2⟩, hg.1, hg.2.1, hg.2.2.1, hd⟩, rfl⟩

/-- The static part of the state after `AddLink`. -/
def Fabric.Topo.link (t : Topo) (a b : Nat) : Topo :=
  { t with
    numPorts := t.numPorts + 2
    ports := fun n => if n = a then t.ports n ++ [t.numPorts]
      else if n = b then t.ports n ++ [t.numPorts + 1] else t.ports n
    src := update (update t.src t.numPorts a) (t.numPorts + 1) b
    dst := update (update t.dst t.numPorts b) (t.numPorts + 1) a
    reverse := update (update t.reverse t.numPorts (t.numPorts + 1))
      (t.numPorts + 1) t.numPorts }

section Link

variable {t : Topo} {a b : Nat}

variable {p : Nat}

theorem link_port_cases (hp : p < (t.link a b).numPorts) :
    (p < t.numPorts ∧ (t.link a b).src p = t.src p ∧ (t.link a b).dst p = t.dst p ∧
      (t.link a b).reverse p = t.reverse p) ∨
    (p = t.numPorts ∧ (t.link a b).src p = a ∧ (t.link a b).dst p = b ∧
      (t.link a b).reverse p = t.numPorts + 1) ∨
    (p = t.numPorts + 1 ∧ (t.link a b).src p = b ∧ (t.link a b).dst p = a ∧
      (t.link a b).reverse p = t.numPorts) := by
  have hlt : p < t.numPorts + 2 := hp
  rcases Nat.lt_trichotomy p t.numPorts with h | h | h
  · have h1 : p ≠ t.numPorts := by omega
    have h2 : p ≠ t.numPorts + 1 := by omega
    exact .inl ⟨h, by simp [Topo.link, h1, h2], by simp [Topo.link, h1, h2],
      by simp [Topo.link, h1, h2]⟩
  · exact .inr (.inl ⟨h, by simp [Topo.link, h], by simp [Topo.link, h], by simp [Topo.link, h]⟩)
  · have h2 : p = t.numPorts + 1 := by omega
    exact .inr (.inr ⟨h2, by simp [Topo.link, h2], by simp [Topo.link, h2],
      by simp [Topo.link, h2]⟩)

theorem link_old (hp : p < t.numPorts) :
    (t.link a b).src p = t.src p ∧ (t.link a b).dst p = t.dst p ∧
      (t.link a b).reverse p = t.reverse p := by
  rcases link_port_cases (t := t) (a := a) (b := b) (p := p) (Nat.lt_add_right 2 hp) with
    h | ⟨h, -⟩ | ⟨h, -⟩
  · exact h.2
  · omega
  · omega

theorem link_left : (t.link a b).src t.numPorts = a ∧ (t.link a b).dst t.numPorts = b ∧
    (t.link a b).reverse t.numPorts = t.numPorts + 1 := by
  simp [Topo.link]

theorem link_right : (t.link a b).src (t.numPorts + 1) = b ∧
    (t.link a b).dst (t.numPorts + 1) = a ∧ (t.link a b).reverse (t.numPorts + 1) = t.numPorts := by
  simp [Topo.link]

theorem mem_link_ports (h : t.Wf) (hab : a ≠ b) (n p : Nat) :
    p ∈ (t.link a b).ports n ↔ p < t.numPorts + 2 ∧ (t.link a b).src p = n := by
  have hold : p ∈ t.ports n ↔ p < t.numPorts ∧ t.src p = n := h.mem_ports n p
  have hmem : p ∈ (t.link a b).ports n ↔
      p ∈ t.ports n ∨ (n = a ∧ p = t.numPorts) ∨ (n = b ∧ p = t.numPorts + 1) := by
    simp only [Topo.link]
    split
    · rename_i ha
      simp only [List.mem_append, List.mem_singleton, ha, true_and]
      have : a ≠ b := hab
      tauto
    · split
      · rename_i ha hb
        simp [hb, hab.symm]
      · rename_i ha hb
        simp [ha, hb]
  rw [hmem, hold]
  constructor
  · rintro (⟨hp, hs⟩ | ⟨hn, hp⟩ | ⟨hn, hp⟩)
    · exact ⟨by omega, by rw [(link_old hp).1, hs]⟩
    · exact ⟨by omega, by rw [hp, link_left.1, hn]⟩
    · exact ⟨by omega, by rw [hp, link_right.1, hn]⟩
  · rintro ⟨hp, hs⟩
    rcases link_port_cases (t := t) (a := a) (b := b) hp with ⟨hlt, hsrc, -⟩ | ⟨heq, hsrc, -⟩ |
      ⟨heq, hsrc, -⟩
    · exact .inl ⟨hlt, by rw [← hsrc, hs]⟩
    · exact .inr (.inl ⟨by rw [← hs, hsrc], heq⟩)
    · exact .inr (.inr ⟨by rw [← hs, hsrc], heq⟩)

/-- A new link between two nodes that had none keeps the ports consistent. -/
theorem Fabric.Topo.Wf.link (h : t.Wf) (ha : a < t.numNodes) (hb : b < t.numNodes) (hab : a ≠ b)
    (hfresh : ∀ p ∈ t.ports a, t.dst p ≠ b) : (t.link a b).Wf := by
  have hout : ∀ n, t.numPorts ∉ t.ports n ∧ t.numPorts + 1 ∉ t.ports n := fun n =>
    ⟨fun hm => by have := ((h.mem_ports n _).mp hm).1; omega,
      fun hm => by have := ((h.mem_ports n _).mp hm).1; omega⟩
  -- an old port cannot already join the two ends, in either direction
  have hno : ∀ p, p < t.numPorts → ¬ (t.src p = a ∧ t.dst p = b) := fun p hp ⟨hs, hd⟩ =>
    hfresh p ((h.mem_ports a p).mpr ⟨hp, hs⟩) hd
  have hno' : ∀ p, p < t.numPorts → ¬ (t.src p = b ∧ t.dst p = a) := fun p hp ⟨hs, hd⟩ =>
    hno (t.reverse p) (h.rev_lt p hp) ⟨(h.rev_src p hp).trans hd, (h.rev_dst p hp).trans hs⟩
  refine ⟨mem_link_ports h hab, fun n => ?_, fun p hp => ?_, fun p hp => ?_, fun p hp => ?_,
    fun p hp => ?_, fun p hp => ?_, fun p hp => ?_, fun p q hp hq hs hd => ?_⟩
  · simp only [Topo.link]
    have hn := h.nodup n
    split
    · exact List.nodup_append.mpr ⟨hn, List.nodup_singleton _, by
        intro x hx y hy
        rw [List.mem_singleton.mp hy]
        rintro rfl
        exact (hout n).1 hx⟩
    · split
      · exact List.nodup_append.mpr ⟨hn, List.nodup_singleton _, by
          intro x hx y hy
          rw [List.mem_singleton.mp hy]
          rintro rfl
          exact (hout n).2 hx⟩
      · exact hn
  · rcases link_port_cases hp with ⟨hlt, hs, -⟩ | ⟨-, hs, -⟩ | ⟨-, hs, -⟩
    · rw [hs]; exact h.src_lt p hlt
    · rw [hs]; exact ha
    · rw [hs]; exact hb
  · show _ < t.numPorts + 2
    rcases link_port_cases hp with ⟨hlt, -, -, hr⟩ | ⟨-, -, -, hr⟩ | ⟨-, -, -, hr⟩
    · rw [hr]; exact Nat.lt_add_right 2 (h.rev_lt p hlt)
    · rw [hr]; omega
    · rw [hr]; omega
  · rcases link_port_cases hp with ⟨hlt, -, -, hr⟩ | ⟨hq, -, -, hr⟩ | ⟨hq, -, -, hr⟩
    · rw [hr, (link_old (h.rev_lt p hlt)).2.2, h.rev_rev p hlt]
    · rw [hr, link_right.2.2, hq]
    · rw [hr, link_left.2.2, hq]
  · rcases link_port_cases hp with ⟨hlt, -, hd, hr⟩ | ⟨-, -, hd, hr⟩ | ⟨-, -, hd, hr⟩
    · rw [hr, (link_old (h.rev_lt p hlt)).1, h.rev_src p hlt, hd]
    · rw [hr, link_right.1, hd]
    · rw [hr, link_left.1, hd]
  · rcases link_port_cases hp with ⟨hlt, hs, -, hr⟩ | ⟨-, hs, -, hr⟩ | ⟨-, hs, -, hr⟩
    · rw [hr, (link_old (h.rev_lt p hlt)).2.1, h.rev_dst p hlt, hs]
    · rw [hr, link_right.2.1, hs]
    · rw [hr, link_left.2.1, hs]
  · rcases link_port_cases hp with ⟨hlt, hs, hd, -⟩ | ⟨-, hs, hd, -⟩ | ⟨-, hs, hd, -⟩
    · rw [hs, hd]; exact h.irrefl p hlt
    · rw [hs, hd]; exact hab
    · rw [hs, hd]; exact hab.symm
  · rcases link_port_cases hp with ⟨hlt, hs1, hd1, -⟩ | ⟨he1, hs1, hd1, -⟩ | ⟨he1, hs1, hd1, -⟩ <;>
      rcases link_port_cases hq with ⟨hlt', hs2, hd2, -⟩ | ⟨he2, hs2, hd2, -⟩ | ⟨he2, hs2, hd2, -⟩ <;>
      rw [hs1, hs2] at hs <;> rw [hd1, hd2] at hd
    · exact h.simple p q hlt hlt' hs hd
    · exact absurd ⟨hs, hd⟩ (hno p hlt)
    · exact absurd ⟨hs, hd⟩ (hno' p hlt)
    · exact absurd ⟨hs.symm, hd.symm⟩ (hno q hlt')
    · rw [he1, he2]
    · exact absurd hs hab
    · exact absurd ⟨hs.symm, hd.symm⟩ (hno' q hlt')
    · exact absurd hs.symm hab
    · rw [he1, he2]

end Link

/-! ## Every step keeps the invariant -/

section Construct

variable {σ σ' : Fabric}

variable {a b : Nat}

theorem topo_addLink (h : σ.addLink a b = .ok σ') : σ'.topo = σ.topo.link a b := by
  obtain ⟨hg, rfl⟩ := addLink_spec h
  have hab := hg.distinct
  simp only [Topo.link, topo, modNode_config, modNode_numNodes, modNode_numPorts, modNode_nodes,
    modNode_ports, linkPorts, Topo.mk.injEq, true_and]
  refine ⟨?_, ?_, ?_, ?_, ?_⟩
  · funext n
    by_cases hb : n = b <;> by_cases ha : n = a <;> simp_all
  · funext n
    by_cases hb : n = b
    · subst hb
      simp [hab.symm]
    · by_cases ha : n = a <;> simp_all
  all_goals
    funext p
    by_cases h1 : p = σ.numPorts + 1 <;> by_cases h0 : p = σ.numPorts <;> simp_all

theorem total_addLink (h : σ.addLink a b = .ok σ') : σ'.total = σ.total := by
  obtain ⟨-, rfl⟩ := addLink_spec h
  rw [total_modNode_same (by rfl) (by rfl), total_modNode_same (by rfl) (by rfl)]
  simp only [total, live, lost, Finset.sum_range_succ]
  have hold : ∀ p ∈ Finset.range σ.numPorts, queueSites p (linkPorts σ a b p) =
      queueSites p (σ.ports p) := by
    intro p hp
    have hlt := Finset.mem_range.mp hp
    rw [linkPorts, update_of_ne (by omega), update_of_ne (by omega)]
  rw [Finset.sum_congr rfl hold]
  simp [queueSites, linkPorts]

theorem total_addNode {k : NodeKind} (h : σ.addNode k = .ok σ') : σ'.total = σ.total := by
  obtain ⟨-, rfl⟩ := addNode_spec h
  simp only [total, live, lost, Finset.sum_range_succ, update_self]
  have hold : ∀ n ∈ Finset.range σ.numNodes,
      nodeSites n (update σ.nodes σ.numNodes (newNode σ.config k) n) =
        nodeSites n (σ.nodes n) := by
    intro n hn
    rw [update_of_ne (Finset.mem_range.mp hn).ne]
  rw [Finset.sum_congr rfl hold]
  cases k <;> simp [nodeSites, newNode]

theorem Fabric.Topo.Wf.addNode {k : NodeKind} (hwf : σ.topo.Wf) (h : σ.addNode k = .ok σ') :
    σ'.topo.Wf := by
  obtain ⟨-, rfl⟩ := addNode_spec h
  have hports : ∀ n, (update σ.nodes σ.numNodes (newNode σ.config k) n).ports =
      (σ.nodes n).ports := by
    intro n
    by_cases hn : n = σ.numNodes
    · subst hn
      rw [update_self]
      have := hwf.ports_eq_nil (n := σ.numNodes) le_rfl
      cases k <;> exact this.symm
    · rw [update_of_ne hn]
  refine ⟨fun n p => ?_, fun n => ?_, fun p hp => ?_, hwf.rev_lt, hwf.rev_rev, hwf.rev_src,
    hwf.rev_dst, hwf.irrefl, hwf.simple⟩
  · simp only [topo, hports]
    exact hwf.mem_ports n p
  · simp only [topo, hports]
    exact hwf.nodup n
  · exact Nat.lt_succ_of_lt (hwf.src_lt p hp)

end Construct

theorem Snap.Wf.addNode {σ σ' : Fabric} {k : NodeKind} (hwf : Snap.Wf ⟨σ, none⟩)
    (h : σ.addNode k = .ok σ') : Snap.Wf ⟨σ', none⟩ := by
  obtain ⟨hu, heq⟩ := addNode_spec h
  obtain ⟨hzero, hnone, htrace, hreads⟩ := hwf.unused hu
  have htotal : Snap.total ⟨σ', none⟩ = 0 := by
    simpa [Snap.total_none, total_addNode h] using hzero
  have hnode : ∀ n, σ'.nodes n = σ.nodes n ∨ n = σ.numNodes ∧ σ'.nodes n = newNode σ.config k := by
    intro n
    by_cases hn : n = σ.numNodes
    · exact .inr ⟨hn, by rw [heq, hn]; exact update_self ..⟩
    · exact .inl (by rw [heq]; exact update_of_ne hn ..)
  have hnew : σ'.numNodes = σ.numNodes + 1 := by rw [heq]
  refine ⟨?_, hwf.topo.addNode h, ⟨?_, ?_⟩, ?_, ⟨?_, ?_, ?_⟩, ?_⟩
  · rw [heq]; exact hwf.valid
  · intro id op hop
    rw [heq] at hop
    rw [hnone id] at hop
    cases hop
  · intro n rd id hid
    have htr : σ'.transfers = σ.transfers := by rw [heq]
    rcases hnode n with hn | ⟨-, hn⟩
    · simp only [injection, hn] at hid
      obtain ⟨hlt, hm, hall⟩ := hwf.jobs.queued n rd id hid
      refine ⟨by rw [heq]; exact hlt, by rw [hnew]; exact Nat.lt_succ_of_lt hm, ?_⟩
      rw [htr]
      exact hall
    · simp only [injection, hn] at hid
      cases k <;> cases rd <;> simp [newNode] at hid
  · rw [htotal]
    exact fun x hx => absurd hx (notMem_zero x)
  · intro p hp
    rw [heq] at hp ⊢
    exact hwf.stores.queue p hp
  · intro n hn
    rw [hnew]
    rcases hnode n with hs | ⟨rfl, -⟩
    · rw [hs] at hn
      exact Nat.lt_succ_of_lt (hwf.stores.waiting n hn)
    · exact Nat.lt_succ_self _
  · intro n hn
    rw [hnew]
    rcases hnode n with hs | ⟨rfl, -⟩
    · rw [hs] at hn
      exact Nat.lt_succ_of_lt (hwf.stores.responses n hn)
    · exact Nat.lt_succ_self _
  · intro _
    refine ⟨htotal, ?_, ?_, fun n => ?_⟩
    · rw [heq]; exact hnone
    · rw [heq]; exact htrace
    · rcases hnode n with hs | ⟨-, hs⟩
      · rw [hs]
        exact hreads n
      · rw [hs]
        cases k <;> exact ⟨rfl, rfl⟩

theorem Snap.Wf.addLink {σ σ' : Fabric} {a b : Nat} (hwf : Snap.Wf ⟨σ, none⟩)
    (h : σ.addLink a b = .ok σ') : Snap.Wf ⟨σ', none⟩ := by
  obtain ⟨hg, heq⟩ := addLink_spec h
  obtain ⟨hzero, hnone, htrace, hreads⟩ := hwf.unused hg.unused
  have htopo := topo_addLink h
  have htotal : Snap.total ⟨σ', none⟩ = 0 := by
    simpa [Snap.total_none, total_addLink h] using hzero
  have hlists : ∀ n, (σ'.nodes n).waiting = (σ.nodes n).waiting ∧
      (σ'.nodes n).responses = (σ.nodes n).responses ∧
      (σ'.nodes n).readQueue = (σ.nodes n).readQueue ∧
      (σ'.nodes n).writeQueue = (σ.nodes n).writeQueue := by
    intro n
    rw [heq]
    by_cases hb : n = b <;> by_cases ha : n = a <;> simp_all
  have hnew : σ'.numNodes = σ.numNodes := by rw [heq]; rfl
  refine ⟨?_, ?_, ⟨?_, ?_⟩, ?_, ⟨?_, ?_, ?_⟩, ?_⟩
  · rw [htopo]; exact hwf.valid
  · rw [htopo]
    exact hwf.topo.link hg.left_lt hg.right_lt hg.distinct hg.fresh
  · intro id op hop
    rw [heq] at hop
    change σ.transfers id = some op at hop
    rw [hnone id] at hop
    cases hop
  · intro n rd id hid
    have hinj : σ'.injection n rd = σ.injection n rd := by
      simp only [injection, (hlists n).2.2.1, (hlists n).2.2.2]
    obtain ⟨hlt, hm, hall⟩ := hwf.jobs.queued n rd id (hinj ▸ hid)
    refine ⟨by rw [heq]; exact hlt, by rw [hnew]; exact hm, ?_⟩
    rw [heq]
    exact hall
  · rw [htotal]
    exact fun x hx => absurd hx (notMem_zero x)
  · intro p hp
    have hnp : σ'.numPorts = σ.numPorts + 2 := by rw [heq]; rfl
    have hports : σ'.ports = linkPorts σ a b := by rw [heq]; rfl
    rw [hnp]
    by_cases h1 : p < σ.numPorts + 2
    · exact h1
    · rw [hports, linkPorts, update_of_ne (by omega), update_of_ne (by omega)] at hp
      exact Nat.lt_add_right 2 (hwf.stores.queue p hp)
  · intro n hn
    rw [hnew]
    exact hwf.stores.waiting n ((hlists n).1 ▸ hn)
  · intro n hn
    rw [hnew]
    exact hwf.stores.responses n ((hlists n).2.1 ▸ hn)
  · intro _
    refine ⟨htotal, ?_, ?_, fun n => ?_⟩
    · rw [heq]; exact hnone
    · rw [heq]; exact htrace
    · rw [heq, modNode_field Node.reads rfl, modNode_field Node.reads rfl,
        modNode_field Node.readBytes rfl, modNode_field Node.readBytes rfl]
      exact hreads n

/-- The requester of a new transfer, with its id at the back of a queue. -/
def queueTransfer (op : Transfer) (n : Node) : Node :=
  if op.read then { n with readQueue := n.readQueue ++ [op.id] }
  else { n with writeQueue := n.writeQueue ++ [op.id] }

@[simp] theorem queueTransfer_waiting (op : Transfer) (n : Node) :
    (queueTransfer op n).waiting = n.waiting := by
  unfold queueTransfer; split <;> rfl

@[simp] theorem queueTransfer_responses (op : Transfer) (n : Node) :
    (queueTransfer op n).responses = n.responses := by
  unfold queueTransfer; split <;> rfl

@[simp] theorem queueTransfer_ports (op : Transfer) (n : Node) :
    (queueTransfer op n).ports = n.ports := by
  unfold queueTransfer; split <;> rfl

@[simp] theorem queueTransfer_endpoint (op : Transfer) (n : Node) :
    (queueTransfer op n).endpoint = n.endpoint := by
  unfold queueTransfer; split <;> rfl

theorem enter_eq (σ : Fabric) (op : Transfer) :
    σ.enter op =
      { σ.modNode op.requester (queueTransfer op) with
        nextId := σ.nextId + 1
        trace := σ.trace ++ [.submitted op]
        transfers := update σ.transfers op.id (some op)
        statsReads := σ.statsReads + if op.read then 1 else 0
        statsWrites := σ.statsWrites + if op.read then 0 else 1 } := by
  unfold Fabric.enter queueTransfer
  cases op.read <;> rfl

theorem newTransfer_ok {r : Request} (hr : σ.Accepts r) : (σ.newTransfer r).Ok σ.topo := by
  refine ⟨hr.requester_lt, hr.target_lt, hr.distinct, ?_, Nat.zero_le _⟩
  have hdiv : ((r.target + 1) * window + r.offset) / window = r.target + 1 := by
    rw [Nat.add_comm, Nat.add_mul_div_right _ _ (by decide), Nat.div_eq_of_lt hr.offset_lt,
      Nat.zero_add]
  show ((r.target + 1) * window + r.offset) / window - 1 = r.target
  omega

theorem mem_injection_enter {rd : Bool} (h : id ∈ (σ.enter op).injection n rd) :
    id ∈ σ.injection n rd ∨ n = op.requester ∧ rd = op.read ∧ id = op.id := by
  rw [enter_eq] at h
  simp only [injection, modNode_nodes] at h ⊢
  by_cases hn : n = op.requester
  · subst hn
    rw [update_self] at h
    cases hread : op.read <;> cases rd <;> simp [hread, queueTransfer] at h ⊢ <;> tauto
  · rw [update_of_ne hn] at h
    exact .inl h

theorem Snap.Wf.enter {σ : Fabric} {r : Request} (hwf : Snap.Wf ⟨σ, none⟩) (hr : σ.Accepts r) :
    Snap.Wf ⟨σ.enter (σ.newTransfer r), none⟩ := by
  set op := σ.newTransfer r with hop
  have htopo : (σ.enter op).topo = σ.topo := by
    rw [enter_eq]
    show (σ.modNode op.requester (queueTransfer op)).topo = σ.topo
    exact topo_modNode (queueTransfer_ports op _) (queueTransfer_endpoint op _)
  have hstores : (σ.modNode op.requester (queueTransfer op)).Stores :=
    hwf.stores.modNode_same (queueTransfer_waiting op _) (queueTransfer_responses op _)
  refine ⟨htopo ▸ hwf.valid, htopo ▸ hwf.topo, ⟨fun id x hx => ?_, fun n rd id hmem => ?_⟩,
    fun x hx => ?_, ?_, fun hu => ?_⟩
  · rw [htopo]
    rw [enter_eq] at hx ⊢
    dsimp only at hx ⊢
    rcases update_eq hx with ⟨rfl, ⟨⟩⟩ | ⟨-, hx⟩
    · exact ⟨rfl, Nat.lt_succ_self _, newTransfer_ok hr⟩
    · obtain ⟨h1, h2, h3⟩ := hwf.jobs.filed id x hx
      exact ⟨h1, Nat.lt_succ_of_lt h2, h3⟩
  · have hold := mem_injection_enter hmem
    rw [enter_eq]
    dsimp only
    rcases hold with hold | ⟨rfl, rfl, rfl⟩
    · obtain ⟨hlt, hn, hall⟩ := hwf.jobs.queued n rd id hold
      refine ⟨Nat.lt_succ_of_lt hlt, hn, fun x hx => hall x ?_⟩
      rwa [update_of_ne (show id ≠ op.id from Nat.ne_of_lt hlt)] at hx
    · refine ⟨Nat.lt_succ_self _, hr.requester_lt, fun x hx => ?_⟩
      rw [update_self] at hx
      cases hx
      exact ⟨rfl, rfl⟩
  · rw [htopo]
    refine hwf.sites x ?_
    simpa [Snap.total_none] using hx
  · rw [enter_eq]
    exact ⟨hstores.queue, hstores.waiting, hstores.responses⟩
  · exfalso
    rw [enter_eq] at hu
    obtain ⟨hr0, hw0⟩ := hu
    cases hread : op.read <;> simp [hread] at hr0 hw0

section Moves

variable {env : Env} {σ : Fabric} {h : Option (Nat × Frame)}

variable {x : Site} {tag : Nat}

theorem Snap.mem_total {s : Snap} (hx : x ∈ s.fab.total) : x ∈ s.total :=
  Multiset.mem_add.mpr (.inl hx)

variable {id n p : Nat} {f : Frame} {op : Transfer}

theorem Snap.Wf.queue_ok (hwf : Snap.Wf ⟨σ, h⟩) (hf : f ∈ (σ.ports p).queue)
    : Site.Ok σ.topo ⟨.queue p, f⟩ :=
  hwf.sites _ (Snap.mem_total (mem_total_of_queue
    (hwf.stores.queue p (List.ne_nil_of_mem hf)) hf))

theorem Snap.Wf.waiting_ok (hwf : Snap.Wf ⟨σ, h⟩) (hf : f ∈ (σ.nodes n).waiting)
    : Site.Ok σ.topo ⟨.waiting n, f⟩ :=
  hwf.sites _ (Snap.mem_total (mem_total_of_waiting
    (hwf.stores.waiting n (List.ne_nil_of_mem hf)) hf))

theorem Snap.Wf.response_ok (hwf : Snap.Wf ⟨σ, h⟩) {r : Response} (hr : r ∈ (σ.nodes n).responses)
    : Site.Ok σ.topo ⟨.answer n r.next, r.request⟩ :=
  hwf.sites _ (Snap.mem_total (mem_total_of_response
    (hwf.stores.responses n (List.ne_nil_of_mem hr)) hr))

theorem Snap.Wf.event_ok (hwf : Snap.Wf ⟨σ, h⟩) {i : Nat} {e : Event} (he : σ.Due i e)
    (hx : x ∈ e.kind.sites) : x.Ok σ.topo :=
  hwf.sites _ (Snap.mem_total (mem_total_of_event (List.mem_of_getElem? he.1) hx))

theorem Snap.Wf.hand_ok (hwf : Snap.Wf ⟨σ, some (p, f)⟩) : Site.Ok σ.topo ⟨.link p, f⟩ :=
  hwf.sites _ (Multiset.mem_add.mpr (.inr (mem_singleton_self _)))

theorem Snap.Wf.sendFrame {p i : Nat} {f : Frame} (hwf : Snap.Wf ⟨σ, h⟩)
    (hi : (σ.ports p).queue[i]? = some f) : Snap.Wf ⟨σ.sendFrame env p i f, h⟩ := by
  have hmem := List.mem_of_getElem? hi
  have hok := hwf.queue_ok hmem
  obtain ⟨hp, -, hroute⟩ := hok.fits
  have hcore := core_sendFrame σ env p i f
  have hnodes : (σ.sendFrame env p i f).nodes = σ.nodes :=
    show (σ.sendFrame env p i f).core.nodes = σ.nodes by rw [hcore]; rfl
  have hx : (⟨.queue p, f⟩ : Site) ∈ Snap.total ⟨σ, h⟩ :=
    Snap.mem_total (mem_total_of_queue hp hmem)
  refine hwf.move (hwf.used_of_mem hx) ?_ (topo_sendFrame ..) ?_ ?_ {⟨.queue p, f⟩}
    (B := {⟨.link p, onLink p f⟩}) ?_ ?_
  · intro hu
    have hu' : (σ.sendFrame env p i f).core.Unused := hu
    rwa [hcore] at hu'
  · refine hwf.jobs.congr (topo_sendFrame ..) ?_ ?_ fun n rd => by simp only [injection, hnodes]
    · show (σ.sendFrame env p i f).core.transfers = σ.transfers
      rw [hcore]
      rfl
    · show (σ.sendFrame env p i f).core.nextId = σ.nextId
      rw [hcore]
      rfl
  · refine (hwf.stores.modPort (g := fun port => { port with queue := port.queue.eraseIdx i })
      hp).congr (topo_of_core hcore) (fun q => ?_) hnodes
    show ((σ.sendFrame env p i f).core.ports q).queue = _
    rw [hcore]
    rfl
  · exact balance_frame (total_sendFrame env hp hi) (handSites h)
  · intro x hx
    rw [Multiset.mem_singleton.mp hx]
    exact ⟨hok.bytes_pos, hok.destination_lt, hok.requester_lt, hok.ends, hp, rfl, hroute⟩

theorem Snap.Wf.forward {p : Nat} {f : Frame} (hwf : Snap.Wf ⟨σ, some (p, f)⟩)
    (hd : (σ.ports p).dst ≠ f.destination) : Snap.Wf ⟨σ.forward (σ.ports p).dst f, none⟩ := by
  have hok := hwf.hand_ok
  obtain ⟨hp, hin, -⟩ := hok.fits
  have hlt : (σ.ports p).dst < σ.numNodes := hwf.topo.dst_lt hp
  have htopo : (σ.forward (σ.ports p).dst f).topo = σ.topo :=
    topo_modNode (σ := { σ with nextOrder := σ.nextOrder + 1 }) rfl rfl
  refine hwf.move (hwf.used_of_mem (Multiset.mem_add.mpr (.inr (mem_singleton_self _))))
    id htopo ?_ ?_ {⟨.link p, f⟩} (B := {⟨.waiting (σ.ports p).dst, σ.atNode (σ.ports p).dst f⟩}) ?_ ?_
  · refine hwf.jobs.congr htopo rfl rfl fun n rd => ?_
    by_cases hn : n = (σ.ports p).dst <;> simp [injection, Fabric.forward, hn]
  · have hstores : { σ with nextOrder := σ.nextOrder + 1 }.Stores :=
      ⟨hwf.stores.queue, hwf.stores.waiting, hwf.stores.responses⟩
    exact hstores.modNode (g := fun m =>
      { m with waiting := m.waiting ++ [σ.atNode (σ.ports p).dst f] }) hlt
  · rw [Snap.total_none, Snap.total_some, total_forward hlt]
    ac_rfl
  · intro x hx
    rw [Multiset.mem_singleton.mp hx]
    refine ⟨hok.bytes_pos, hok.destination_lt, hok.requester_lt, hok.ends, hlt, hd.symm, rfl, ?_⟩
    intro q hq
    change f.ingress = some q at hq
    change f.ingress = some p at hin
    rw [hin] at hq
    cases hq
    exact ⟨hp, rfl⟩

/-- The frame in hand reaches the memory of its destination as `g`. -/
theorem Snap.Wf.hold {g : Frame} (hwf : Snap.Wf ⟨σ, some (p, f)⟩) (ty : TlpType)
    (hcore : ∃ trace calls, σ'.core = { σ.core with trace, calls })
    (htotal : σ'.total = σ.total + {⟨.memory ty f.destination, g⟩})
    (hg : Site.Ok σ.topo ⟨.memory ty f.destination, g⟩) : Snap.Wf ⟨σ', none⟩ := by
  obtain ⟨trace, calls, hcore⟩ := hcore
  have htopo : σ'.topo = σ.topo := topo_of_core (σ := { σ with trace, calls }) hcore
  have hnodes : σ'.nodes = σ.nodes := show σ'.core.nodes = σ.nodes by rw [hcore]; rfl
  refine hwf.move (hwf.used_of_mem (Multiset.mem_add.mpr (.inr (mem_singleton_self _))))
    (fun hu => ?_) htopo ?_ ?_ {⟨.link p, f⟩} (B := {⟨.memory ty f.destination, g⟩}) ?_ ?_
  · have hu' : σ'.core.Unused := hu
    rwa [hcore] at hu'
  · refine hwf.jobs.congr htopo ?_ ?_ fun n rd => by simp only [injection, hnodes]
    · show σ'.core.transfers = σ.transfers
      rw [hcore]
      rfl
    · show σ'.core.nextId = σ.nextId
      rw [hcore]
      rfl
  · refine hwf.stores.congr htopo (fun q => ?_) hnodes
    show (σ'.core.ports q).queue = _
    rw [hcore]
    rfl
  · rw [Snap.total_none, Snap.total_some, htotal]
    ac_rfl
  · intro x hx
    rw [Multiset.mem_singleton.mp hx]
    exact hg

theorem Snap.Wf.holdRead {p calls delay : Nat} {f : Frame} (hwf : Snap.Wf ⟨σ, some (p, f)⟩)
    (ht : f.header.type = .read) :
    Snap.Wf ⟨({ ((σ.observe (.received f)).returnCredit f).1 with calls }).schedule delay
      (.readService f.destination ((σ.observe (.received f)).returnCredit f).2), none⟩ := by
  have hok := hwf.hand_ok
  refine hwf.hold (g := { f with ingress := none }) .read
    ⟨σ.trace ++ [.received f], calls, ?_⟩ ?_ ?_
  · have hcore := core_returnCredit (σ.observe (.received f)) f
    show { ((σ.observe (.received f)).returnCredit f).1.core with calls } = _
    rw [hcore]
    rfl
  · rw [total_schedule, total_calls, total_returnCredit, total_observe, returnCredit_frame]
    rfl
  · exact ⟨hok.bytes_pos, hok.destination_lt, hok.requester_lt, hok.ends, rfl, ht, rfl⟩

theorem Snap.Wf.holdData {calls delay : Nat} {k : EventKind} (hwf : Snap.Wf ⟨σ, some (p, f)⟩)
    (hd : (σ.ports p).dst = f.destination) (ht : f.header.type ≠ .read)
    (hk : k.sites = {⟨.memory f.header.type f.destination, f⟩}) :
    Snap.Wf ⟨({ σ.observe (.received f) with calls }).schedule delay k, none⟩ := by
  have hok := hwf.hand_ok
  obtain ⟨hp, hin, -⟩ := hok.fits
  refine hwf.hold (g := f) f.header.type ⟨σ.trace ++ [.received f], calls, rfl⟩ ?_ ?_
  · rw [total_schedule, total_calls, total_observe, hk]
  · refine ⟨hok.bytes_pos, hok.destination_lt, hok.requester_lt, hok.ends, ?_⟩
    have hfits : ∃ q, f.ingress = some q ∧ q < σ.topo.numPorts ∧ σ.topo.dst q = f.destination :=
      ⟨p, hin, hp, hd⟩
    cases hty : f.header.type with
    | read => exact absurd hty ht
    | write => exact ⟨rfl, hty, hfits⟩
    | completion => exact ⟨rfl, hty, hfits⟩

theorem Snap.Wf.assign {n i p : Nat} {f : Frame} (hwf : Snap.Wf ⟨σ, none⟩)
    (hi : (σ.nodes n).waiting[i]? = some f) (hr : σ.topo.route n f.destination = some p) :
    Snap.Wf ⟨(σ.enqueue p f).modNode n fun m => { m with waiting := m.waiting.eraseIdx i }, none⟩ := by
  have hmem := List.mem_of_getElem? hi
  have hok := hwf.waiting_ok hmem
  obtain ⟨hn, hin⟩ := hok.fits
  obtain ⟨hp, hsrc⟩ := (hwf.topo.mem_ports n p).mp (Topo.route_mem hr)
  have htopo : ((σ.enqueue p f).modNode n fun m => { m with waiting := m.waiting.eraseIdx i }).topo =
      σ.topo := (topo_modNode rfl rfl).trans (topo_enqueue σ p f)
  have hx : (⟨.waiting n, f⟩ : Site) ∈ Snap.total ⟨σ, none⟩ :=
    Snap.mem_total (mem_total_of_waiting hn hmem)
  refine hwf.move (hwf.used_of_mem hx) id htopo ?_ ?_ {⟨.waiting n, f⟩} (B := {⟨.queue p, f⟩}) ?_ ?_
  · refine hwf.jobs.congr htopo rfl rfl fun m rd => ?_
    by_cases hm : m = n <;> simp [injection, enqueue, hm]
  · have hstores : (σ.enqueue p f).Stores := hwf.stores.enqueue f hp
    dsimp only
    exact hstores.modNode hn
  · rw [Snap.total_none, Snap.total_none]
    exact total_assign hn hp hi
  · intro x hx
    rw [Multiset.mem_singleton.mp hx]
    refine ⟨hok.bytes_pos, hok.destination_lt, hok.requester_lt, hok.ends, hp, ?_, ?_⟩
    · rw [hsrc]
      exact hin
    · rw [hsrc]
      exact hr

theorem Snap.Wf.popRead {i t n : Nat} {f : Frame} (hwf : Snap.Wf ⟨σ, none⟩)
    (hdue : σ.Due i ⟨t, .readService n f⟩) :
    Snap.Wf ⟨(σ.popEvent i ⟨t, .readService n f⟩).modNode n
      fun m => { m with responses := m.responses ++ [⟨f, 0⟩] }, none⟩ := by
  have hx : (⟨.memory .read n, f⟩ : Site) ∈ (EventKind.readService n f).sites :=
    mem_singleton_self _
  have hok := hwf.event_ok hdue hx
  obtain ⟨heq, hread, hin⟩ := hok.fits
  change n = f.destination at heq
  subst heq
  have hn : f.destination < σ.numNodes := hok.destination_lt
  have hused := hwf.used_of_mem
    (Snap.mem_total (mem_total_of_event (List.mem_of_getElem? hdue.1) hx))
  have htopo : ((σ.popEvent i ⟨t, .readService f.destination f⟩).modNode f.destination
      fun m => { m with responses := m.responses ++ [⟨f, 0⟩] }).topo = σ.topo := topo_modNode rfl rfl
  refine hwf.move hused id htopo ?_ ?_ {⟨.memory .read f.destination, f⟩}
    (B := {⟨.answer f.destination 0, f⟩}) ?_ ?_
  · refine hwf.jobs.congr htopo rfl rfl fun m rd => ?_
    by_cases hm : m = f.destination <;> simp [injection, hm]
  · have hstores : (σ.popEvent i ⟨t, .readService f.destination f⟩).Stores :=
      hwf.stores.congr rfl (fun _ => rfl) rfl
    dsimp only
    exact hstores.modNode hn
  · rw [Snap.total_none, Snap.total_none]
    exact total_popRead hn hdue
  · intro x hx
    rw [Multiset.mem_singleton.mp hx]
    exact ⟨hok.bytes_pos, hok.destination_lt, hok.requester_lt, hok.ends, rfl, hread, hin,
      hok.bytes_pos⟩

theorem Fabric.Jobs.settle (h : σ.Jobs) (hop : σ.transfers id = some op) :
    (σ.setTransfer id (some { op with pending := op.pending - 1 })).Jobs := by
  have hok := (h.filed id op hop).2.2
  exact h.setTransfer hop rfl
    ⟨hok.requester_lt, hok.target_lt, hok.distinct, hok.target_eq, hok.next_le⟩ rfl rfl

theorem Snap.Wf.popWrite {i t n : Nat} {f : Frame} {op : Transfer} (hwf : Snap.Wf ⟨σ, none⟩)
    (hdue : σ.Due i ⟨t, .writeService n f⟩) (hop : σ.transfers f.transaction = some op) :
    Snap.Wf ⟨(σ.popEvent i ⟨t, .writeService n f⟩).landWrite f op, none⟩ := by
  set τ := σ.popEvent i ⟨t, .writeService n f⟩ with hτ
  have hcore : (τ.returnCredit f).1.core = σ.core := core_returnCredit ..
  have htopo : (τ.landWrite f op).topo = σ.topo :=
    show (τ.returnCredit f).1.topo = σ.topo from topo_of_core hcore
  have hnodes : (τ.landWrite f op).nodes = σ.nodes := returnCredit_nodes τ f
  refine hwf.move (hwf.used_of_transfer hop) (fun hu => ?_) htopo ?_ ?_ {⟨.memory .write n, f⟩}
    (B := 0) ?_ (fun x hx => absurd hx (notMem_zero x))
  · have hu' : (τ.returnCredit f).1.core.Unused := hu
    rwa [hcore] at hu'
  · have htr : (τ.returnCredit f).1.transfers = σ.transfers :=
      show (τ.returnCredit f).1.core.transfers = σ.transfers by rw [hcore]; rfl
    have hjobs : ((τ.returnCredit f).1.observe (.delivered f)).Jobs := by
      refine hwf.jobs.congr htopo htr ?_ fun m rd => ?_
      · show (τ.returnCredit f).1.core.nextId = σ.nextId
        rw [hcore]
        rfl
      · simp only [injection, observe_nodes, returnCredit_nodes]
        rfl
    exact hjobs.settle (show (τ.returnCredit f).1.transfers f.transaction = some op by rw [htr, hop])
  · refine hwf.stores.congr htopo (fun q => ?_) hnodes
    show ((τ.returnCredit f).1.core.ports q).queue = _
    rw [hcore]
    rfl
  · rw [Snap.total_none, Snap.total_none, total_landWrite, add_zero]
    exact total_popEvent hdue

theorem Snap.Wf.popCompletion {i t n : Nat} {f : Frame} {r : ReadState}
    (hwf : Snap.Wf ⟨σ, none⟩) (hdue : σ.Due i ⟨t, .completionService n f⟩) :
    Snap.Wf ⟨(σ.popEvent i ⟨t, .completionService n f⟩).acceptPiece n f r, none⟩ := by
  set g : Node → Node := fun m =>
    { m with reads := m.reads.map fun r' => if r'.tag == r.tag then r else r' } with hg
  set τ := ((σ.popEvent i ⟨t, .completionService n f⟩).modNode n g).observe (.delivered f) with hτ
  have hx : (⟨.memory .completion n, f⟩ : Site) ∈ (EventKind.completionService n f).sites :=
    mem_singleton_self _
  have hused := hwf.used_of_mem
    (Snap.mem_total (mem_total_of_event (List.mem_of_getElem? hdue.1) hx))
  have hcore : (τ.returnCredit f).1.core = τ.core := core_returnCredit ..
  have htopoτ : τ.topo = σ.topo :=
    topo_modNode (σ := σ.popEvent i ⟨t, .completionService n f⟩) (g := g) rfl rfl
  have htopo : (τ.returnCredit f).1.topo = σ.topo := (topo_of_core hcore).trans htopoτ
  have hstores : τ.Stores :=
    (Fabric.Stores.modNode_same (n := n) (g := g) hwf.stores rfl rfl).congr rfl
      (fun _ => rfl) rfl
  refine hwf.move hused (fun hu => ?_) htopo ?_ ?_ {⟨.memory .completion n, f⟩} (B := 0) ?_
    (fun x hx => absurd hx (notMem_zero x))
  · have hu' : (τ.returnCredit f).1.core.Unused := hu
    rwa [hcore] at hu'
  · refine hwf.jobs.congr htopo ?_ ?_ fun m rd => ?_
    · show (τ.returnCredit f).1.core.transfers = σ.transfers
      rw [hcore]
      rfl
    · show (τ.returnCredit f).1.core.nextId = σ.nextId
      rw [hcore]
      rfl
    · show (τ.returnCredit f).1.injection m rd = _
      simp only [injection, returnCredit_nodes]
      by_cases hm : m = n <;> simp [hτ, hg, hm]
  · refine hstores.congr (topo_of_core hcore) (fun q => ?_) (returnCredit_nodes ..)
    show ((τ.returnCredit f).1.core.ports q).queue = _
    rw [hcore]
    rfl
  · rw [Snap.total_none, Snap.total_none, total_acceptPiece, add_zero]
    exact total_popEvent hdue

theorem Snap.Wf.retire {n : Nat} {r : ReadState} {op : Transfer} (hwf : Snap.Wf ⟨σ, none⟩)
    (hop : σ.transfers r.transaction = some op) : Snap.Wf ⟨σ.retireRead n r op, none⟩ := by
  set g : Node → Node := fun m =>
    { m with
      readBytes := wsub 64 m.readBytes r.bytes
      reads := m.reads.filter fun r' => r'.tag != r.tag } with hg
  have htopo : (σ.modNode n g).topo = σ.topo := topo_modNode rfl rfl
  refine hwf.move (hwf.used_of_transfer hop) id htopo ?_ ?_ 0 (B := 0) ?_
    (fun x hx => absurd hx (notMem_zero x))
  · have hjobs : (σ.modNode n g).Jobs := by
      refine hwf.jobs.congr htopo rfl rfl fun m rd => ?_
      by_cases hm : m = n <;> simp [injection, hg, hm]
    exact hjobs.settle hop
  · exact ⟨(hwf.stores.modNode_same (n := n) (g := g) rfl rfl).queue,
      (hwf.stores.modNode_same (n := n) (g := g) rfl rfl).waiting,
      (hwf.stores.modNode_same (n := n) (g := g) rfl rfl).responses⟩
  · rw [Snap.total_none, Snap.total_none, total_retireRead]

theorem Snap.Wf.created_ok (hwf : Snap.Wf ⟨σ, h⟩) (hroute : σ.topo.route n f.destination = some p)
    (hb : 0 < f.header.bytes) (hd : f.destination < σ.numNodes)
    (hr : f.header.requester < σ.numNodes)
    (hends : f.header.requester ≠ f.destination ∨ f.header.type = .completion)
    (haway : f.destination ≠ n) (hin : f.ingress = none) (hdom : f.domain = none) :
    Site.Ok σ.topo ⟨.queue p, f⟩ := by
  obtain ⟨hp, hsrc⟩ := (hwf.topo.mem_ports n p).mp (Topo.route_mem hroute)
  refine ⟨hb, hd, hr, hends, hp, ?_, ?_⟩
  · rw [hsrc]
    exact ⟨haway, hdom.trans hin.symm, fun q hq => by rw [hin] at hq; cases hq⟩
  · rw [hsrc]
    exact hroute

theorem Fabric.Jobs.launch (hj : σ.Jobs) (calls p : Nat) (f : Frame) : (σ.launch calls p f).Jobs :=
  hj.congr (topo_launch ..) rfl rfl fun _ _ => rfl

theorem Fabric.Stores.launch (hs : σ.Stores) (calls : Nat) (f : Frame) (hp : p < σ.numPorts)
    : (σ.launch calls p f).Stores := by
  have hstores : ({ σ with nextOrder := σ.nextOrder + 1, calls }.observe (.created f)).Stores :=
    hs.congr rfl (fun _ => rfl) rfl
  exact hstores.enqueue f hp

theorem Snap.Wf.respond {n p : Nat} {response : Response} {others : List Response} {op : Transfer}
    (hwf : Snap.Wf ⟨σ, none⟩) (hr : (σ.nodes n).responses = response :: others)
    (hroute : σ.topo.route n response.request.header.requester = some p)
    (hpos : completionBytes σ.config response ≠ 0) :
    Snap.Wf ⟨σ.respond n response others op p (completionBytes σ.config response), none⟩ := by
  have hmem : response ∈ (σ.nodes n).responses := by rw [hr]; exact List.mem_cons_self
  have hn := hwf.stores.responses n (List.ne_nil_of_mem hmem)
  have hok := hwf.response_ok hmem
  obtain ⟨hdest, hread, hin, hnext⟩ := hok.fits
  obtain ⟨hp, -⟩ := (hwf.topo.mem_ports n p).mp (Topo.route_mem hroute)
  have htopo : (σ.respond n response others op p (completionBytes σ.config response)).topo = σ.topo :=
    (topo_modNode rfl rfl).trans (topo_launch ..)
  have hends : response.request.header.requester ≠ n := by
    rcases hok.ends with hne | hty
    · rw [hdest]
      exact hne
    · rw [hread] at hty
      cases hty
  refine hwf.move (hwf.used_of_mem (Snap.mem_total (mem_total_of_response hn hmem))) id htopo ?_ ?_
    {⟨.answer n response.next, response.request⟩}
    (B := {⟨.queue p, σ.completionFrame n response op⟩} +
      answerSites n (response.next + completionBytes σ.config response) response.request) ?_ ?_
  · refine hwf.jobs.congr htopo rfl rfl fun m rd => ?_
    by_cases hm : m = n <;> simp [injection, Fabric.respond, makeFrame, enqueue, hm]
  · rw [respond_eq]
    exact (hwf.stores.launch _ _ hp).modNode hn
  · rw [Snap.total_none, Snap.total_none, total_respond _ hn hp hr, add_assoc]
  · intro x hx
    rcases Multiset.mem_add.mp hx with hx | hx
    · rw [Multiset.mem_singleton.mp hx]
      exact hwf.created_ok (n := n) hroute (Nat.pos_of_ne_zero hpos) hok.requester_lt
        hok.requester_lt (.inr rfl) hends rfl rfl
    · unfold answerSites at hx
      split at hx
      · exact absurd hx (notMem_zero x)
      · rename_i hmore
        rw [Multiset.mem_singleton.mp hx]
        refine ⟨hok.bytes_pos, hok.destination_lt, hok.requester_lt, hok.ends, hdest, hread, hin, ?_⟩
        have hle := completionBytes_le σ.config response
        change response.next < response.request.header.bytes at hnext
        show response.next + completionBytes σ.config response < response.request.header.bytes
        omega

/-- A request TLP leaves its transfer; `σ` may already have opened the read. -/
theorem Snap.Wf.issueFrame (hwf : Snap.Wf ⟨σ, none⟩) (hop : σ.transfers id = some op)
    (hreq : op.requester = n) (hmore : op.next ≠ op.bytes)
    (hroute : σ.topo.route n op.target = some p) :
    Snap.Wf ⟨Fabric.issueFrame env σ n op p (requestBytes σ.config op) tag, none⟩ := by
  obtain ⟨hid, -, hopok⟩ := hwf.jobs.filed id op hop
  obtain ⟨hp, -⟩ := (hwf.topo.mem_ports n p).mp (Topo.route_mem hroute)
  have hlt : op.next < op.bytes := lt_of_le_of_ne hopok.next_le hmore
  set f := requestFrame env σ n op (requestBytes σ.config op) tag with hf
  have htopo : (Fabric.issueFrame env σ n op p (requestBytes σ.config op) tag).topo = σ.topo := by
    rw [issueFrame_eq]
    exact topo_launch σ _ p _
  refine hwf.move (hwf.used_of_transfer hop) (fun hu => hu) htopo ?_ ?_ 0 (B := {⟨.queue p, f⟩}) ?_ ?_
  · rw [issueFrame_eq, hid]
    refine (hwf.jobs.launch _ _ _).setTransfer hop hid.symm ?_ rfl rfl
    have hle := requestBytes_le σ.config op
    rw [topo_launch]
    refine ⟨hopok.requester_lt, hopok.target_lt, hopok.distinct, hopok.target_eq, ?_⟩
    show op.next + requestBytes σ.config op ≤ op.bytes
    omega
  · rw [issueFrame_eq]
    exact (hwf.stores.launch _ f hp).congr rfl (fun _ => rfl) rfl
  · rw [Snap.total_none, Snap.total_none, total_issueFrame hp, add_zero]
  · intro x hx
    rw [Multiset.mem_singleton.mp hx]
    subst hreq
    exact hwf.created_ok (n := op.requester) hroute (requestBytes_pos hwf.valid hlt)
      hopok.target_lt hopok.requester_lt (.inl hopok.distinct) hopok.distinct.symm rfl rfl

theorem Snap.Wf.modNode {g : Node → Node} (hwf : Snap.Wf ⟨σ, none⟩)
    (hports : (g (σ.nodes n)).ports = (σ.nodes n).ports)
    (hep : (g (σ.nodes n)).endpoint = (σ.nodes n).endpoint)
    (hw : (g (σ.nodes n)).waiting = (σ.nodes n).waiting)
    (hr : (g (σ.nodes n)).responses = (σ.nodes n).responses)
    (hrq : (g (σ.nodes n)).readQueue ⊆ (σ.nodes n).readQueue)
    (hwq : (g (σ.nodes n)).writeQueue ⊆ (σ.nodes n).writeQueue)
    (hused : σ.Unused → (g (σ.nodes n)).reads = (σ.nodes n).reads ∧
      (g (σ.nodes n)).readBytes = (σ.nodes n).readBytes) : Snap.Wf ⟨σ.modNode n g, none⟩ := by
  have htopo : (σ.modNode n g).topo = σ.topo := topo_modNode hports hep
  have htotal : (σ.modNode n g).total = σ.total := total_modNode_same hw hr
  refine ⟨htopo ▸ hwf.valid, htopo ▸ hwf.topo, ⟨?_, ?_⟩, ?_, ?_, ?_⟩
  · rw [htopo]
    exact hwf.jobs.filed
  · intro m rd id hid
    refine hwf.jobs.queued m rd id ?_
    simp only [injection, modNode_nodes] at hid ⊢
    by_cases hm : m = n
    · subst hm
      rw [update_self] at hid
      cases rd
      · exact hwq hid
      · exact hrq hid
    · rwa [update_of_ne hm] at hid
  · rw [Snap.total_none, htotal, htopo, ← Snap.total_none]
    exact hwf.sites
  · have hstores : σ.Stores := hwf.stores
    exact hstores.modNode_same hw hr
  · intro hu
    obtain ⟨h0, hnone, htrace, hreads⟩ := hwf.unused hu
    obtain ⟨hrd, hrb⟩ := hused hu
    refine ⟨?_, hnone, htrace, fun m => ?_⟩
    · rw [Snap.total_none, htotal, ← Snap.total_none]
      exact h0
    · rw [modNode_field Node.reads hrd, modNode_field Node.readBytes hrb]
      exact hreads m

theorem Snap.Wf.openRead {bytes : Nat} (hwf : Snap.Wf ⟨σ, none⟩) (hop : σ.transfers id = some op)
    : Snap.Wf ⟨σ.openRead n op bytes tag, none⟩ := by
  unfold Fabric.openRead
  exact hwf.modNode rfl rfl rfl rfl (List.Subset.refl _) (List.Subset.refl _)
    fun hu => absurd hu (hwf.used_of_transfer hop)

theorem Snap.Wf.popTransfer {n : Nat} {rd : Bool} (hwf : Snap.Wf ⟨σ, none⟩) :
    Snap.Wf ⟨σ.popTransfer n rd, none⟩ := by
  unfold Fabric.popTransfer
  cases rd with
  | false =>
      exact hwf.modNode rfl rfl rfl rfl (List.Subset.refl _) (List.tail_subset _)
        fun _ => ⟨rfl, rfl⟩
  | true =>
      exact hwf.modNode rfl rfl rfl rfl (List.tail_subset _) (List.Subset.refl _)
        fun _ => ⟨rfl, rfl⟩

theorem Snap.Wf.finish {id : Nat} {op : Transfer} (hwf : Snap.Wf ⟨σ, none⟩)
    (hop : σ.transfers id = some op) : Snap.Wf ⟨σ.finish id, none⟩ := by
  have herase : (σ.setTransfer id none).Jobs := hwf.jobs.erase id
  have hcore : ∃ trace, (σ.finish id).core = { (σ.setTransfer id none).core with trace } ∨
      (σ.finish id).core = σ.core := by
    unfold Fabric.finish
    rw [hop]
    dsimp only
    split
    · exact ⟨[], .inr rfl⟩
    · split
      · exact ⟨_, .inl rfl⟩
      · exact ⟨_, .inl rfl⟩
  obtain ⟨trace, hcore | hcore⟩ := hcore
  · have htopo : (σ.finish id).topo = σ.topo :=
      topo_of_core (σ := { σ.setTransfer id none with trace }) hcore
    have hnodes : (σ.finish id).nodes = σ.nodes :=
      show (σ.finish id).core.nodes = σ.nodes by rw [hcore]; rfl
    refine hwf.move (hwf.used_of_transfer hop) (fun hu => ?_) htopo ?_ ?_ 0 (B := 0) ?_
      (fun x hx => absurd hx (notMem_zero x))
    · have hu' : (σ.finish id).core.Unused := hu
      rwa [hcore] at hu'
    · refine herase.congr htopo ?_ ?_ fun n rd => ?_
      · show (σ.finish id).core.transfers = _
        rw [hcore]
        rfl
      · show (σ.finish id).core.nextId = _
        rw [hcore]
        rfl
      · simp only [injection, hnodes]
        rfl
    · refine hwf.stores.congr htopo (fun q => ?_) hnodes
      show ((σ.finish id).core.ports q).queue = _
      rw [hcore]
      rfl
    · rw [Snap.total_none, Snap.total_none, total_finish]
  · exact hwf.of_core hcore (by rw [Snap.total_none, Snap.total_none, total_finish])

end Moves

theorem Micro.wf {s s' : Snap} (h : Micro env s s') (hwf : s.Wf) : s'.Wf := by
  cases h with
  | addNode h => exact hwf.addNode h
  | addLink h => exact hwf.addLink h
  | enter hr => exact hwf.enter hr
  | advance => exact hwf.of_core rfl rfl
  | popBusy hdue =>
      refine hwf.of_core (core_modPort rfl) ?_
      rw [Snap.total_none, Snap.total_none, total_modPort_same (by rfl), total_popEvent_same hdue rfl]
  | popCredit hdue =>
      refine hwf.of_core (core_takeCredit ..) ?_
      rw [Snap.total_none, Snap.total_none, total_takeCredit, total_popEvent_same hdue rfl]
  | popAckDllp hdue =>
      refine hwf.of_core (core_takeAck ..) ?_
      rw [Snap.total_none, Snap.total_none, total_takeAck, total_popEvent_same hdue rfl]
  | popFrame hdue =>
      refine hwf.of_core (core_countTlp ..) ?_
      rw [Snap.total_none, Snap.total_some, total_countTlp]
      exact total_popEvent hdue
  | popFc hdue =>
      refine hwf.of_core (core_flushReturn ..) ?_
      rw [Snap.total_none, Snap.total_none, total_flushReturn, total_popEvent_same hdue rfl]
  | popAckTimer hdue | popWake hdue | popCallback hdue =>
      exact hwf.of_core rfl
        (by rw [Snap.total_none, Snap.total_none, total_popEvent_same hdue rfl])
  | popRead hdue => exact hwf.popRead hdue
  | popWrite hdue hop => exact hwf.popWrite hdue hop
  | popCompletion hdue => exact hwf.popCompletion hdue
  | retire _ _ hop => exact hwf.retire hop
  | cancelAck =>
      exact hwf.of_core rfl (by simp only [Snap.total, total_cancel fun _ => sites_of_isAck])
  | pushAck => exact hwf.of_core (core_pushAck ..) (by simp only [Snap.total, total_pushAck])
  | armAck =>
      exact hwf.of_core rfl (by simp only [Snap.total, total_schedule, EventKind.sites, add_zero])
  | sendControl =>
      exact hwf.of_core (core_sendControl ..) (by simp only [Snap.total, total_sendControl])
  | sendFrame _ _ hi => exact hwf.sendFrame hi
  | armWake => exact hwf.of_core (core_armWake ..) (by simp only [Snap.total, total_armWake])
  | forward hd => exact hwf.forward hd
  | holdRead _ ht => exact hwf.holdRead ht
  | holdWrite hd ht | holdCompletion hd ht => exact hwf.holdData hd (by simp [ht]) (by rw [ht]; rfl)
  | assign hi hr => exact hwf.assign hi hr
  | respond hr hroute _ _ hpos => exact hwf.respond hr hroute hpos
  | issueWrite hi hrd =>
      obtain ⟨⟨rd, rest, hq⟩, hop, hmore, -, hroute, -⟩ := hi
      obtain ⟨-, -, hown⟩ := hwf.jobs.queued _ rd _ (by rw [hq]; exact List.mem_cons_self)
      rw [(hwf.jobs.filed _ _ hop).2.2.target_eq] at hroute
      exact hwf.issueFrame hop (hown _ hop).1 hmore hroute
  | issueRead hi hrd =>
      obtain ⟨⟨rd, rest, hq⟩, hop, hmore, -, hroute, -⟩ := hi
      obtain ⟨-, -, hown⟩ := hwf.jobs.queued _ rd _ (by rw [hq]; exact List.mem_cons_self)
      rw [(hwf.jobs.filed _ _ hop).2.2.target_eq] at hroute
      refine (hwf.openRead hop).issueFrame hop (hown _ hop).1 hmore ?_
      rwa [Fabric.openRead, topo_modNode (by rfl) (by rfl)]
  | popTransfer => exact hwf.popTransfer
  | finish hop => exact hwf.finish hop
  | pumping =>
      exact hwf.modNode rfl rfl rfl rfl (List.Subset.refl _) (List.Subset.refl _)
        fun _ => ⟨rfl, rfl⟩

theorem Snap.Wf.initial (hr : c.InRange) (hc : c.validate = .ok ()) :
    Snap.Wf ⟨{ config := c }, none⟩ := by
  have htotal : Snap.total ⟨{ config := c }, none⟩ = 0 := by
    simp [Snap.total_none, Fabric.total, live, lost]
  refine ⟨Config.valid_of_validate hr hc, ?_, ⟨?_, ?_⟩, ?_, ⟨?_, ?_, ?_⟩,
    fun _ => ⟨htotal, fun _ => rfl, rfl, fun _ => ⟨rfl, rfl⟩⟩⟩
  · refine ⟨?_, ?_, ?_, ?_, ?_, ?_, ?_, ?_, ?_⟩ <;> simp [Fabric.topo]
  · intro id op hop
    cases hop
  · intro n rd id hid
    cases rd <;> cases hid
  · rw [htotal]
    exact fun x hx => absurd hx (notMem_zero x)
  all_goals simp

theorem exec_preserves (hstep : ∀ s s', s.Wf → P s → Micro env s s' → P s') {a : Act}
    (hwf : Snap.Wf ⟨σ, none⟩) (hP : P ⟨σ, none⟩) (hen : σ.enabled a) (hex : σ.exec env a = .ok σ')
    : Snap.Wf ⟨σ', none⟩ ∧ P ⟨σ', none⟩ := by
  have hleads := exec_leads env σ a hen
  rw [hex] at hleads
  refine star_preserves (P := fun s => s.Wf ∧ P s) ?_ hleads ⟨hwf, hP⟩
  rintro s s' ⟨hw, hp⟩ hm
  exact ⟨hm.wf hw, hstep s s' hw hp hm⟩

/-- **Invariant rule of the fabric.** What holds initially and is kept by every
atomic step of a well-formed fabric holds in every reachable state. -/
theorem fabric_invariant (hinit : ∀ c : Config, c.Valid → P ⟨{ config := c }, none⟩)
    (hstep : ∀ s s', s.Wf → P s → Micro env s s' → P s') :
    (machine env).Invariant fun σ => Snap.Wf ⟨σ, none⟩ ∧ P ⟨σ, none⟩ := by
  refine Machine.Inductive.invariant ⟨?_, ?_⟩
  · rintro σ ⟨c, hr, hc, rfl⟩
    exact ⟨Snap.Wf.initial hr hc, hinit c (Config.valid_of_validate hr hc)⟩
  · rintro σ a σ' ⟨hwf, hP⟩ hen hex
    exact exec_preserves hstep hwf hP hen hex

/-- The same rule for aborts: an abort whose condition the invariant excludes is
never raised. -/
theorem fabric_no_abort {e : Abort} (hinit : ∀ c : Config, c.Valid → P ⟨{ config := c }, none⟩)
    (hstep : ∀ s s', s.Wf → P s → Micro env s s' → P s')
    (hno : ∀ s : Snap, s.Wf → P s → ¬ Fails e s.fab) : ¬ (machine env).Aborts e := by
  rintro ⟨σ, a, hreach, hen, hex⟩
  obtain ⟨hwf, hP⟩ := fabric_invariant hinit hstep σ hreach
  have hleads := exec_leads env σ a hen
  have hex' : σ.exec env a = .error e := hex
  rw [hex'] at hleads
  obtain ⟨s', hsteps, hfail⟩ := hleads
  have hs' := star_preserves (P := fun s => s.Wf ∧ P s)
    (fun s s' hs hm => ⟨hm.wf hs.1, hstep s s' hs.1 hs.2 hm⟩) hsteps ⟨hwf, hP⟩
  exact hno s' hs'.1 hs'.2 hfail

end ProtoBridge.Pcie
