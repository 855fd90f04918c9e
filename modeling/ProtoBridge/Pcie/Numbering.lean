import ProtoBridge.Pcie.Replay

/-!
# Numbers along a run

Every atomic step of the fabric performs one operation on the links or none
(`Micro.numbered`), so every direction of every link follows the protocol of
`Window` in every state of every run.
-/

namespace ProtoBridge.Pcie

open Lib Fabric
open Function (update update_of_ne update_self)

namespace Fabric

/-! ## What the steps do to the links -/

variable {σ : Fabric} {p q : Nat} {c : Control} {m : Multiset Site}

theorem lines_modPort_set {g : Port → Port} (h : (g (σ.ports p)).reverse = (σ.ports p).reverse) :
    (σ.modPort p g).lines = σ.lines.setPort p (g (σ.ports p)).line := by
  have hrev : (fun q => ((σ.modPort p g).ports q).reverse) = fun q => (σ.ports q).reverse :=
    funext (modPort_field Port.reverse h)
  have harr : (σ.modPort p g).arrivals = σ.arrivals := by
    funext q
    simp only [arrivals, hrev]
    rfl
  have hport : (fun q => ((σ.modPort p g).ports q).line) =
      update (fun q => (σ.ports q).line) p (g (σ.ports p)).line := by
    funext q
    by_cases hq : q = p
    · subst hq
      rw [modPort_ports, update_self, update_self]
    · rw [modPort_ports, update_of_ne hq, update_of_ne hq]
  simp only [lines, harr, hport]
  rfl

@[simp] theorem lines_returnCredit (σ : Fabric) (f : Frame) :
    (σ.returnCredit f).1.lines = σ.lines :=
  returnCredit_keeps lines (fun _ _ _ => lines_modPort rfl)
    (fun _ _ _ => lines_schedule fun _ => rfl) σ f

@[simp] theorem lines_takeCredit (σ : Fabric) (c : Control) : (σ.takeCredit c).lines = σ.lines :=
  lines_modPort rfl

@[simp] theorem lines_enqueue (σ : Fabric) (p : Nat) (f : Frame) :
    (σ.enqueue p f).lines = σ.lines :=
  lines_modPort rfl

@[simp] theorem lines_armWake (σ : Fabric) (p : Nat) : (σ.armWake p).lines = σ.lines := by
  unfold armWake
  split
  · rfl
  · rw [lines_schedule fun _ => rfl, lines_cancel fun _ => link_of_isWake]

@[simp] theorem lines_finish (σ : Fabric) (id : Nat) : (σ.finish id).lines = σ.lines := by
  unfold finish
  cases σ.transfers id with
  | none => rfl
  | some op =>
      dsimp only
      split
      · rfl
      · split
        · rw [lines_schedule fun _ => rfl]
          rfl
        · rfl

theorem lines_launch (σ : Fabric) (calls p : Nat) (f : Frame) :
    (σ.launch calls p f).lines = σ.lines := by
  rw [launch, lines_enqueue]
  rfl

theorem lines_issueFrame (env : Env) (σ : Fabric) (n : Nat) (op : Transfer) (p bytes tag : Nat) :
    (issueFrame env σ n op p bytes tag).lines = σ.lines := by
  rw [issueFrame_eq]
  exact lines_launch σ _ p _

theorem lines_respond (σ : Fabric) (n : Nat) (response : Response) (others : List Response)
    (op : Transfer) (p : Nat) :
    (σ.respond n response others op p (completionBytes σ.config response)).lines = σ.lines := by
  rw [respond_eq]
  exact lines_launch σ _ p _

theorem lines_flushReturn (σ : Fabric) (p : Nat) :
    ∃ cs : List Control, (∀ c ∈ cs, c.ack = false ∧ c.forPort = p) ∧
      (σ.flushReturn p).lines = σ.lines.setPort (σ.ports p).reverse
        { σ.lines.port (σ.ports p).reverse with
          control := (σ.lines.port (σ.ports p).reverse).control ++ cs } := by
  have credits : ∀ a b, ∀ c ∈ fcControl p (σ.ports p).pendingReturn a b,
      c.ack = false ∧ c.forPort = p := by
    intro a b c hc
    refine ⟨?_, Ledger.forPort_of_mem_fcControl hc⟩
    unfold fcControl at hc
    split at hc
    · cases hc
    · rw [List.mem_singleton.1 hc]
  refine ⟨fcControl p (σ.ports p).pendingReturn 0 1 ++ fcControl p (σ.ports p).pendingReturn 2 3 ++
    fcControl p (σ.ports p).pendingReturn 4 5, fun c hc => ?_, ?_⟩
  · rcases List.mem_append.1 hc with hc | hc
    · rcases List.mem_append.1 hc with hc | hc
      · exact credits 0 1 c hc
      · exact credits 2 3 c hc
    · exact credits 4 5 c hc
  · set τ := σ.modPort p fun port => { port with pendingReturn := fun _ => 0 } with hτ
    have same : τ.lines = σ.lines := lines_modPort rfl
    have turn : (τ.ports p).reverse = (σ.ports p).reverse :=
      modPort_field (σ := σ) (p := p) (g := fun port => { port with pendingReturn := fun _ => 0 })
        Port.reverse rfl p
    show (τ.modPort (τ.ports p).reverse _).lines = _
    rw [lines_modPort_set (by rfl), same, turn]
    congr 1
    have own := congrFun (congrArg Lines.port same) (σ.ports p).reverse
    show Port.line { τ.ports (σ.ports p).reverse with control := _ } = _
    rw [← own]
    rfl

theorem lines_pushAck (σ : Fabric) (p : Nat) :
    (σ.pushAck p).lines =
      Lines.setPort (σ.lines.setPort p { σ.lines.port p with ackCount := 0 }) (σ.ports p).reverse
        { (σ.lines.setPort p { σ.lines.port p with ackCount := 0 }).port (σ.ports p).reverse with
          control :=
            ((σ.lines.setPort p { σ.lines.port p with ackCount := 0 }).port
              (σ.ports p).reverse).control ++
              [{ ack := true, forPort := p, sequence := (σ.ports p).receivedSequence }] } := by
  set τ := σ.modPort p fun port => { port with ackCount := 0 } with hτ
  have cleared : τ.lines = σ.lines.setPort p { σ.lines.port p with ackCount := 0 } :=
    lines_modPort_set rfl
  have turn : (τ.ports p).reverse = (σ.ports p).reverse :=
    modPort_field (σ := σ) (p := p) (g := fun port => { port with ackCount := 0 }) Port.reverse rfl p
  show (τ.modPort (τ.ports p).reverse _).lines = _
  rw [lines_modPort_set (by rfl), turn, ← cleared]
  rfl

theorem lines_sendControl (env : Env) {rest : List Control} (hs : σ.lines.Sound σ.wires)
    (free : (σ.ports p).busy = false) (hctl : (σ.ports p).control = c :: rest) :
    (σ.sendControl env p c rest).lines =
      Lines.setPort
        { σ.lines with
          arrivals := update σ.lines.arrivals p
            (σ.lines.arrivals p ++
              [(σ.wires.due (σ.wires.now + wireTime env dllpWireBytes), .controlArrive c)]) } p
        { σ.lines.port p with control := rest } := by
  set service := wireTime env dllpWireBytes with hservice
  set τ := (σ.modPort p fun port => { port with control := rest, busy := true }).schedule service
    (.busyEnd p) with hτ
  have sent : τ.lines = σ.lines.setPort p { σ.lines.port p with control := rest } := by
    rw [hτ, lines_schedule fun _ => rfl]
    exact lines_modPort_set rfl
  have started : τ.wires = σ.wires.transmit p service := by
    rw [hτ, wires_transmit _ rfl]
  have due : τ.dueIn (addTime service σ.config.linkLatency) =
      σ.wires.due (σ.wires.now + service) := by
    have hsame : σ.config.linkLatency = τ.config.linkLatency := rfl
    rw [hsame, dueIn_addTime, started]
    rfl
  have arrivals : τ.arrivals = σ.arrivals := congrArg Lines.arrivals sent
  have back : EventKind.link (fun q => (τ.ports q).reverse) (.controlArrive c) = some p := by
    have turn : ∀ q, (τ.ports q).reverse = (σ.ports q).reverse :=
      modPort_field (σ := σ) (p := p) (g := fun port => { port with control := rest, busy := true })
        Port.reverse rfl
    have routed : (σ.ports c.forPort).reverse = p :=
      hs.routed p c (show c ∈ (σ.ports p).control by rw [hctl]; exact List.mem_cons_self)
    show some ((τ.ports c.forPort).reverse) = some p
    rw [turn, routed]
  have later := arrivals_schedule (d := addTime service σ.config.linkLatency) back (by
    rw [arrivals, due]
    exact hs.paced.fresh free (Nat.lt_add_of_pos_right (Nat.lt_of_lt_of_le Nat.one_pos
      (Nat.le_max_left 1 _))))
  rw [arrivals, due] at later
  show (τ.schedule (addTime service σ.config.linkLatency) (.controlArrive c)).lines = _
  have ports : (τ.schedule (addTime service σ.config.linkLatency) (.controlArrive c)).lines =
      { τ.lines with
        arrivals := (τ.schedule (addTime service σ.config.linkLatency) (.controlArrive c)).arrivals } :=
    rfl
  rw [ports, later, sent]
  rfl

theorem lines_sendFrame (env : Env) {i : Nat} {f : Frame} (hs : σ.lines.Sound σ.wires)
    (free : (σ.ports p).busy = false) :
    (σ.sendFrame env p i f).lines =
      Lines.setPort
        { σ.lines with
          arrivals := update σ.lines.arrivals p
            (σ.lines.arrivals p ++
              [(σ.wires.due (σ.wires.now + wireTime env (f.size + tlpLinkBytes)),
                .frameArrive p (onLink p f) (σ.lines.port p).nextSequence)]) } p
        { σ.lines.port p with
          nextSequence := (σ.lines.port p).nextSequence + 1
          replay := (σ.lines.port p).replay ++ [((σ.lines.port p).nextSequence, f.size + tlpLinkBytes)]
          replayBytes := (σ.lines.port p).replayBytes + (f.size + tlpLinkBytes) } := by
  set service := wireTime env (f.size + tlpLinkBytes) with hservice
  set υ := σ.detached p i f with hυ
  have detached : υ.lines = σ.lines := by
    rw [hυ, Fabric.detached, lines_returnCredit, lines_modPort rfl]
  have wires : υ.wires = σ.wires := by
    rw [hυ, Fabric.detached, wires_returnCredit, wires_modPort rfl]
  have number : (υ.ports p).nextSequence = (σ.lines.port p).nextSequence := by
    have own := congrFun (congrArg Lines.port detached) p
    exact (congrArg Port.nextSequence own :)
  set τ := (υ.modPort p (transmitted f.header (f.size + tlpLinkBytes))).schedule service
    (.busyEnd p) with hτ
  have sent : τ.lines = σ.lines.setPort p
      { σ.lines.port p with
        nextSequence := (σ.lines.port p).nextSequence + 1
        replay := (σ.lines.port p).replay ++ [((σ.lines.port p).nextSequence, f.size + tlpLinkBytes)]
        replayBytes := (σ.lines.port p).replayBytes + (f.size + tlpLinkBytes) } := by
    rw [hτ, lines_schedule fun _ => rfl, lines_modPort_set (by rfl), ← detached]
    rfl
  have started : τ.wires = σ.wires.transmit p service := by
    rw [hτ, wires_transmit _ rfl, wires]
  have due : τ.dueIn (addTime service υ.config.linkLatency) =
      σ.wires.due (σ.wires.now + service) := by
    have hsame : υ.config.linkLatency = τ.config.linkLatency := rfl
    have now : τ.now = σ.wires.now := (congrArg Wires.now started :)
    rw [hsame, dueIn_addTime, started, now]
    rfl
  have arrivals : τ.arrivals = σ.arrivals := congrArg Lines.arrivals sent
  have later := arrivals_schedule (σ := τ) (d := addTime service υ.config.linkLatency)
    (k := .frameArrive p (onLink p f) (υ.ports p).nextSequence) (q := p) rfl (by
      rw [arrivals, due]
      exact hs.paced.fresh free (Nat.lt_add_of_pos_right (Nat.lt_of_lt_of_le Nat.one_pos
        (Nat.le_max_left 1 _))))
  rw [arrivals, due] at later
  rw [sendFrame_eq]
  have ports : (τ.schedule (addTime service υ.config.linkLatency)
      (.frameArrive p (onLink p f) (υ.ports p).nextSequence)).lines =
      { τ.lines with
        arrivals := (τ.schedule (addTime service υ.config.linkLatency)
          (.frameArrive p (onLink p f) (υ.ports p).nextSequence)).arrivals } :=
    rfl
  show (τ.schedule (addTime service υ.config.linkLatency)
    (.frameArrive p (onLink p f) (υ.ports p).nextSequence)).lines = _
  rw [ports, later, sent, number]
  rfl

theorem lines_popEvent_link {i : Nat} {e : Event} (h : σ.Due i e)
    (hq : e.kind.link (fun p => (σ.ports p).reverse) = some q)
    (ordered : (σ.arrivals q).Pairwise fun x y => Before x.1 y.1) :
    ∃ rest, σ.lines.arrivals q = (some e.time, e.kind) :: rest ∧
      (σ.popEvent i e).lines =
        { σ.lines with arrivals := update σ.lines.arrivals q rest } := by
  refine ⟨(σ.popEvent i e).arrivals q, arrivals_popEvent h hq ordered, ?_⟩
  have arrivals : (σ.popEvent i e).arrivals =
      update σ.lines.arrivals q ((σ.popEvent i e).arrivals q) := by
    funext q'
    by_cases same : q' = q
    · subst same
      rw [update_self]
    · rw [update_of_ne same]
      apply arrivals_popEvent_ne h
      rw [hq]
      simpa using Ne.symm same
  exact congrArg (fun a => ({ σ.lines with arrivals := a } : Lines)) arrivals

theorem ackReplay_eq (a : Nat) : ∀ (replay : List (Nat × Nat)) (bytes : Nat),
    bytes = (replay.map Prod.snd).sum → bytes < 2 ^ 64 →
    ackReplay a replay bytes =
      (replay.dropWhile fun x => x.1 ≤ a, ((replay.dropWhile fun x => x.1 ≤ a).map Prod.snd).sum) := by
  intro replay
  induction replay with
  | nil =>
      intro bytes sum _
      rw [sum]
      rfl
  | cons x replay ih =>
      intro bytes sum small
      rw [List.map_cons, List.sum_cons] at sum
      unfold ackReplay
      by_cases covered : x.1 ≤ a
      · rw [if_pos covered, List.dropWhile_cons_of_pos (by simpa using covered)]
        have rest : wsub 64 bytes x.2 = (replay.map Prod.snd).sum := by
          rw [wsub_eq (by omega) small]
          omega
        rw [rest]
        exact ih _ rfl (by omega)
      · rw [if_neg covered, List.dropWhile_cons_of_neg (by simpa using covered), sum]
        rfl

theorem room_of_eligible {f : Frame} (hs : σ.lines.Sound σ.wires)
    (small : σ.config.replayBufferBytes < 2 ^ 32) (he : σ.eligible p f = true) :
    (σ.lines.port p).replayBytes + (f.size + tlpLinkBytes) ≤ σ.lines.cap := by
  have fits : f.size + tlpLinkBytes ≤
      wsub 64 σ.config.replayBufferBytes (σ.ports p).replayBytes := by
    simp only [eligible, Bool.and_eq_true, hasReplay, decide_eq_true_eq] at he
    exact he.2
  have room : (σ.ports p).replayBytes ≤ σ.config.replayBufferBytes := (hs.charged p).room
  rw [wsub_eq room (by omega)] at fits
  show (σ.ports p).replayBytes + (f.size + tlpLinkBytes) ≤ σ.config.replayBufferBytes
  omega

theorem forPort_lt (hl : Ledger σ m)
    (h : (∃ e ∈ σ.events, e.kind = .controlArrive c) ∨ .controlArrive c ∈ σ.dropped) :
    c.forPort < σ.numPorts := by
  apply hl.addressed
  unfold allDllps
  rcases h with ⟨e, he, kind⟩ | lost
  · refine Multiset.mem_add.2 (.inl (Multiset.mem_add.2 (.inr (mem_sum_map.2 ⟨e, he, ?_⟩))))
    rw [kind]
    exact Multiset.mem_singleton_self c
  · exact Multiset.mem_add.2 (.inr (mem_sum_map.2 ⟨_, lost, Multiset.mem_singleton_self c⟩))

theorem forPort_lt_of_control (hl : Ledger σ m) (hc : c ∈ (σ.ports q).control)
    : c.forPort < σ.numPorts := by
  have hq := hl.control_in q (List.ne_nil_of_mem hc)
  apply hl.addressed
  unfold allDllps dllps
  refine Multiset.mem_add.2 (.inl (Multiset.mem_add.2 (.inl (Multiset.mem_sum.2 ⟨q, ?_, ?_⟩))))
  · exact Finset.mem_range.2 hq
  · exact hc

theorem no_frame {σ : Fabric} (hwf : Snap.Wf ⟨σ, none⟩) (unused : σ.Unused) {p seq : Nat}
    {f : Frame} :
    (∀ e ∈ σ.events, e.kind ≠ .frameArrive p f seq) ∧ .frameArrive p f seq ∉ σ.dropped := by
  have empty : σ.total = 0 := by
    have := (hwf.unused unused).1
    rwa [Snap.total_none] at this
  constructor
  · intro e he kind
    have mem := mem_total_of_event he (x := ⟨.link p, f⟩) (by
      rw [kind]
      exact Multiset.mem_singleton_self _)
    rw [empty] at mem
    exact Multiset.notMem_zero _ mem
  · intro lost
    have mem : (⟨.link p, f⟩ : Site) ∈ σ.total :=
      Multiset.mem_add.2 (.inr (mem_sum_map.2 ⟨_, lost, Multiset.mem_singleton_self _⟩))
    rw [empty] at mem
    exact Multiset.notMem_zero _ mem

theorem acks_of_none {l : Lines} {n : Nat} (hp : n ≤ p)
    (arrivals : ∀ q, ∀ x ∈ l.arrivals q, ∀ c, x.2 = .controlArrive c → c.forPort < n)
    (control : ∀ q, ∀ c ∈ (l.port q).control, c.forPort < n) : (l.window p).acks = [] := by
  have off : ∀ c : Control, c.forPort < n → c.ackFor p = none := by
    intro c hc
    have : c.forPort ≠ p := by omega
    simp [Control.ackFor, this]
  have wire : (l.arrivals (l.port p).reverse).filterMap (fun x => x.2.ackFor p) = [] := by
    rw [List.filterMap_eq_nil_iff]
    rintro ⟨due, k⟩ hx
    cases k with
    | controlArrive c => exact off c (arrivals _ _ hx c rfl)
    | _ => rfl
  have queue : (l.port (l.port p).reverse).control.filterMap (Control.ackFor p) = [] := by
    rw [List.filterMap_eq_nil_iff]
    exact fun c hc => off c (control _ c hc)
  show _ ++ _ = []
  rw [wire, queue]
  rfl

theorem mem_arrivals {x : Option Nat × EventKind} (h : x ∈ σ.arrivals q) :
    x.2.link (fun p => (σ.ports p).reverse) = some q ∧
      ((∃ e ∈ σ.events, e.kind = x.2) ∨ x.2 ∈ σ.dropped) := by
  have on : ∀ {due k}, EventKind.on (fun p => (σ.ports p).reverse) q due k = some x →
      x.2 = k ∧ k.link (fun p => (σ.ports p).reverse) = some q := by
    intro due k h
    unfold EventKind.on at h
    split at h
    · rename_i link
      cases h
      exact ⟨rfl, link⟩
    · cases h
  rcases List.mem_append.1 h with h | h
  · obtain ⟨e, he, h⟩ := List.mem_filterMap.1 h
    obtain ⟨kind, link⟩ := on h
    exact ⟨kind ▸ link, .inl ⟨e, he, kind.symm⟩⟩
  · obtain ⟨k, hk, h⟩ := List.mem_filterMap.1 h
    obtain ⟨kind, link⟩ := on h
    exact ⟨kind ▸ link, .inr (kind ▸ hk)⟩

/-- A new link starts its numbers anew, and leaves those of the others alone. -/
theorem sound_addLink {σ' : Fabric} {a b : Nat} (hwf : Snap.Wf ⟨σ, none⟩) (hl : Ledger σ m)
    (hc : σ.wires.Clock) (hs : σ.lines.Sound σ.wires) (h : σ.addLink a b = .ok σ')
    : σ'.lines.Sound σ'.wires := by
  have wires := wires_addLink hc h
  obtain ⟨links, heq⟩ := addLink_spec h
  have ports : σ'.ports = linkPorts σ a b := by rw [heq]; rfl
  have events : σ'.events = σ.events := by rw [heq]; rfl
  have dropped : σ'.dropped = σ.dropped := by rw [heq]; rfl
  have cap : σ'.config = σ.config := by rw [heq]; rfl
  have old : ∀ p, p ≠ σ.numPorts → p ≠ σ.numPorts + 1 → σ'.ports p = σ.ports p := by
    intro p h0 h1
    rw [ports, linkPorts, update_of_ne h1, update_of_ne h0]
  have kept : ∀ p, p < σ.numPorts → σ'.ports p = σ.ports p :=
    fun p hp => old p (by omega) (by omega)
  have fresh : ∀ p, p = σ.numPorts ∨ p = σ.numPorts + 1 → (σ'.ports p).control = [] ∧
      (σ'.ports p).nextSequence = 1 ∧ (σ'.ports p).receivedSequence = 0 ∧
      (σ'.ports p).ackCount = 0 ∧ (σ'.ports p).replay = [] ∧ (σ'.ports p).replayBytes = 0 := by
    rintro p (rfl | rfl)
    · rw [ports, linkPorts, update_of_ne (by omega), update_self]
      exact ⟨rfl, rfl, rfl, rfl, rfl, rfl⟩
    · rw [ports, linkPorts, update_self]
      exact ⟨rfl, rfl, rfl, rfl, rfl, rfl⟩
  -- What is under way is for links that exist, and those have not been turned.
  have same : ∀ k, ((∃ e ∈ σ.events, e.kind = k) ∨ k ∈ σ.dropped) →
      k.link (fun p => (σ'.ports p).reverse) = k.link fun p => (σ.ports p).reverse := by
    intro k hk
    cases k with
    | controlArrive c =>
        show some (σ'.ports c.forPort).reverse = some (σ.ports c.forPort).reverse
        rw [kept _ (forPort_lt hl hk)]
    | _ => rfl
  have arrivals : σ'.arrivals = σ.arrivals := by
    funext q
    unfold Fabric.arrivals
    rw [events, dropped]
    congr 1
    · apply List.filterMap_congr
      intro e he
      unfold EventKind.on
      rw [same e.kind (.inl ⟨e, he, rfl⟩)]
    · apply List.filterMap_congr
      intro k hk
      unfold EventKind.on
      rw [same k (.inr hk)]
  have control : ∀ q, ∀ c ∈ (σ'.ports q).control, c ∈ (σ.ports q).control := by
    intro q c hcq
    by_cases new : q = σ.numPorts ∨ q = σ.numPorts + 1
    · rw [(fresh q new).1] at hcq
      cases hcq
    · rw [not_or] at new
      rwa [old q new.1 new.2] at hcq
  have small : ∀ q, ∀ x ∈ σ.arrivals q, ∀ c, x.2 = .controlArrive c → c.forPort < σ.numPorts := by
    intro q x hx c kind
    have mem := (mem_arrivals hx).2
    rw [kind] at mem
    exact forPort_lt hl mem
  have flight : ∀ p, (σ'.lines.window p).flight = (σ.lines.window p).flight := by
    intro p
    show (σ'.arrivals p).filterMap _ = (σ.arrivals p).filterMap _
    rw [arrivals]
  rw [wires]
  refine ⟨?_, ?_, fun p => ?_, fun p => ?_⟩
  · show Paced _ σ'.arrivals
    rw [arrivals]
    exact ⟨hs.paced.free, hs.paced.ends, hs.paced.ordered⟩
  · intro q c hcq
    have hcq' := control q c hcq
    have routed : (σ.ports c.forPort).reverse = q := hs.routed q c hcq'
    show (σ'.ports c.forPort).reverse = q
    rw [kept _ (forPort_lt_of_control hl hcq'), routed]
  · by_cases hp : p < σ.numPorts
    · have window : σ'.lines.window p = σ.lines.window p := by
        have back : σ'.ports (σ.ports p).reverse = σ.ports (σ.ports p).reverse :=
          kept _ (hwf.topo.rev_lt p hp)
        simp only [Lines.window, lines, arrivals, kept p hp]
        show Window.mk _ _ _ _ _ (_ ++ (σ'.ports (σ.ports p).reverse).control.filterMap _) = _
        rw [back]
        rfl
      rw [window]
      exact hs.windows p
    · have none' : (σ'.lines.window p).acks = [] :=
        acks_of_none (n := σ.numPorts) (by omega) (by
          show ∀ q, ∀ x ∈ σ'.arrivals q, _
          rw [arrivals]
          exact small) fun q c hcq => forPort_lt_of_control hl (control q c hcq)
      by_cases new : p = σ.numPorts ∨ p = σ.numPorts + 1
      · obtain ⟨-, next, received, count, replay, -⟩ := fresh p new
        have empty : (σ.lines.window p).flight = [] := by
          show (σ.arrivals p).filterMap (fun x => x.2.tlp) = []
          rw [List.filterMap_eq_nil_iff]
          intro x hx
          cases kind : x.2 with
          | frameArrive p' f seq =>
              obtain ⟨early, late⟩ := @no_frame σ hwf links.unused p' seq f
              rcases (mem_arrivals hx).2 with ⟨e, he, same⟩ | lost
              · exact absurd (same.trans kind) (early e he)
              · exact absurd (kind ▸ lost) late
          | _ => rfl
        have window : σ'.lines.window p = {} := by
          apply Window.ext
          · exact next
          · exact replay
          · exact (flight p).trans empty
          · exact received
          · exact count
          · exact none'
        rw [window]
        exact Window.Sound.initial
      · rw [not_or] at new
        have none : (σ.lines.window p).acks = [] :=
          acks_of_none (n := σ.numPorts) (by omega) small fun q c hcq => forPort_lt_of_control hl hcq
        have port : σ'.lines.port p = σ.lines.port p := congrArg Port.line (old p new.1 new.2)
        have window : σ'.lines.window p = σ.lines.window p := by
          apply Window.ext
          · exact congrArg Port.nextSequence port
          · exact congrArg Port.replay port
          · exact flight p
          · exact congrArg Port.receivedSequence port
          · exact congrArg Port.ackCount port
          · exact none'.trans none.symm
        rw [window]
        exact hs.windows p
  · show (σ'.ports p).line.Charged σ'.config.replayBufferBytes
    rw [cap]
    by_cases new : p = σ.numPorts ∨ p = σ.numPorts + 1
    · obtain ⟨-, -, -, -, replay, bytes⟩ := fresh p new
      constructor
      · show (σ'.ports p).replayBytes = ((σ'.ports p).replay.map Prod.snd).sum
        rw [replay, bytes]
        rfl
      · show (σ'.ports p).replayBytes ≤ _
        rw [bytes]
        exact Nat.zero_le _
    · rw [not_or] at new
      rw [old p new.1 new.2]
      exact hs.charged p

end Fabric

/-! ## The links during a run -/

variable {env : Env} {s : Snap}

/-- **Every atomic step keeps the numbers of the links.** -/
theorem Micro.numbered {s' : Snap} (h : Micro env s s') (hwf : s.Wf) (hl : Ledger s.fab s.total)
    (hf : s.fab.Future) (hc : s.fab.wires.Clock) (hs : s.fab.lines.Sound s.fab.wires)
    : s'.fab.lines.Sound s'.fab.wires := by
  -- an event that is on no link only moves the clock
  have hpop : ∀ {σ : Fabric} {i : Nat} {e : Event}, σ.Due i e → e.kind.silent = true →
      (∀ rev, e.kind.link rev = none) → σ.Future → σ.lines.Sound σ.wires →
      (σ.popEvent i e).lines.Sound (σ.popEvent i e).wires := by
    intro σ i e hdue hk hlink hf hs
    rw [wires_popEvent_silent hdue hk, lines_popEvent hdue hlink]
    exact ⟨hs.paced.tick (hf e (List.mem_of_getElem? hdue.1)), hs.routed, hs.windows, hs.charged⟩
  cases h with
  | addNode h =>
      obtain ⟨-, rfl⟩ := addNode_spec h
      exact hs
  | addLink h => exact sound_addLink hwf hl hc hs h
  | @enter σ r =>
      rw [enter_eq]
      exact hs
  | advance hle => exact ⟨hs.paced.tick hle, hs.routed, hs.windows, hs.charged⟩
  | @popBusy σ i t p hdue =>
      have hends := ends_popEvent hdue
      have hdone := hs.paced.done (m := (σ.popEvent i ⟨t, .busyEnd p⟩).wires.ends) hends.symm
        (hf _ (List.mem_of_getElem? hdue.1))
      rw [wires_modPort_busy rfl, lines_modPort (by rfl), lines_popEvent hdue fun _ => rfl]
      exact ⟨⟨hdone.free, hdone.ends, hdone.ordered⟩, hs.routed, hs.windows, hs.charged⟩
  | @popCredit σ i t c hdue hcredit =>
      obtain ⟨rest, line, after⟩ := lines_popEvent_link hdue rfl (hs.paced.ordered _)
      have landed := hs.landCredit line hcredit
      rw [wires_takeCredit, lines_takeCredit, wires_popEvent_silent hdue rfl, after]
      exact ⟨landed.paced.tick (hf _ (List.mem_of_getElem? hdue.1)), landed.routed, landed.windows,
        landed.charged⟩
  | @popAckDllp σ i t c hdue hack =>
      obtain ⟨rest, line, after⟩ := lines_popEvent_link hdue rfl (hs.paced.ordered _)
      have charged := hs.charged c.forPort
      have small : (σ.ports c.forPort).replayBytes < 2 ^ 64 := by
        have room : (σ.ports c.forPort).replayBytes ≤ σ.config.replayBufferBytes := charged.room
        have cap : σ.config.replayBufferBytes < 2 ^ 32 := hwf.valid.inRange.replay_lt
        omega
      have freed := ackReplay_eq c.sequence _ _ charged.bytes small
      obtain ⟨-, -, landed⟩ := hs.landAck line hack rfl
      have taken : ((σ.popEvent i ⟨t, .controlArrive c⟩).takeAck c).lines =
          Lines.setPort
            { σ.lines with
              arrivals := update σ.lines.arrivals (σ.lines.port c.forPort).reverse rest }
            c.forPort
            { σ.lines.port c.forPort with
              replay := (σ.lines.port c.forPort).replay.dropWhile fun x => x.1 ≤ c.sequence
              replayBytes := (((σ.lines.port c.forPort).replay.dropWhile
                fun x => x.1 ≤ c.sequence).map Prod.snd).sum } := by
        rw [takeAck, lines_modPort_set (by rfl), after]
        show Lines.setPort _ c.forPort
          { σ.lines.port c.forPort with
            replay := (ackReplay c.sequence (σ.lines.port c.forPort).replay
              (σ.lines.port c.forPort).replayBytes).1
            replayBytes := (ackReplay c.sequence (σ.lines.port c.forPort).replay
              (σ.lines.port c.forPort).replayBytes).2 } = _
        rw [freed]
        rfl
      rw [wires_takeAck, wires_popEvent_silent hdue rfl, taken]
      exact ⟨landed.paced.tick (hf _ (List.mem_of_getElem? hdue.1)), landed.routed, landed.windows,
        landed.charged⟩
  | @popFrame σ i t p f seq hdue =>
      obtain ⟨rest, line, after⟩ := lines_popEvent_link hdue rfl (hs.paced.ordered _)
      obtain ⟨-, landed⟩ := hs.landFrame line
      have hends := ends_popEvent hdue
      simp only [EventKind.ends, add_zero] at hends
      have wires : (σ.popEvent i ⟨t, .frameArrive p f seq⟩).wires =
          { σ.wires with
            now := t, flights := (σ.popEvent i ⟨t, .frameArrive p f seq⟩).wires.flights } := by
        show (⟨t, _, _, _, _, (σ.popEvent i ⟨t, .frameArrive p f seq⟩).wires.ends⟩ : Wires) = _
        rw [hends]
        rfl
      rw [wires_countTlp, countTlp, lines_modPort_set (by rfl), wires, after]
      exact ⟨(landed.paced.tick (hf _ (List.mem_of_getElem? hdue.1))).flights _, landed.routed,
        landed.windows, landed.charged⟩
  | @popFc σ i t p hdue =>
      obtain ⟨cs, credits, flushed⟩ := lines_flushReturn (σ.popEvent i ⟨t, .fcEvent p⟩) p
      rw [wires_flushReturn, flushed]
      apply (hpop hdue rfl (fun _ => rfl) hf hs).pushCredits
      intro c hc
      obtain ⟨credit, rfl⟩ := credits c hc
      exact ⟨credit, rfl⟩
  | popAckTimer hdue | popWake hdue | popRead hdue | popCallback hdue =>
      exact hpop hdue rfl (fun _ => rfl) hf hs
  | @popWrite σ i t n f op hdue =>
      show Lines.Sound ((σ.popEvent i ⟨t, .writeService n f⟩).returnCredit f).1.wires
        ((σ.popEvent i ⟨t, .writeService n f⟩).returnCredit f).1.lines
      rw [wires_returnCredit, lines_returnCredit]
      exact hpop hdue rfl (fun _ => rfl) hf hs
  | popCompletion hdue =>
      rw [acceptPiece, wires_returnCredit, lines_returnCredit]
      exact hpop hdue rfl (fun _ => rfl) hf hs
  | retire => exact hs
  | cancelAck =>
      rw [wires_cancel fun _ => silent_of_isAck, lines_cancel fun _ => link_of_isAck]
      exact hs
  | @pushAck σ h p hcount =>
      rw [wires_pushAck, lines_pushAck]
      exact hs.pushAck hcount rfl rfl rfl
  | armAck | holdWrite | holdCompletion =>
      rw [wires_schedule_silent rfl, lines_schedule fun _ => rfl]
      exact hs
  | @sendControl σ h p c rest hb hctl =>
      rw [wires_sendControl, lines_sendControl env hs hb hctl]
      exact hs.sendControl hc hb hctl (Nat.lt_of_lt_of_le Nat.one_pos (Nat.le_max_left 1 _))
  | @sendFrame σ h p i f hb _ hi he =>
      rw [wires_sendFrame, lines_sendFrame env hs hb]
      have hsent := @Lines.Sound.sendFrame _ _ p hs hc hb (onLink p f) (f.size + tlpLinkBytes)
        (wireTime env (f.size + tlpLinkBytes)) (Nat.lt_of_lt_of_le Nat.one_pos (Nat.le_max_left 1 _))
        (room_of_eligible hs hwf.valid.inRange.replay_lt he)
      exact ⟨hsent.paced.flights _, hsent.routed, hsent.windows, hsent.charged⟩
  | armWake =>
      rw [wires_armWake, lines_armWake]
      exact hs
  | forward => exact hs
  | @holdRead σ p f calls delay _ _ =>
      rw [wires_schedule_silent rfl, lines_schedule fun _ => rfl]
      show Lines.Sound ((σ.observe (.received f)).returnCredit f).1.wires
        ((σ.observe (.received f)).returnCredit f).1.lines
      rw [wires_returnCredit, lines_returnCredit]
      exact hs
  | @assign σ n i f p =>
      show Lines.Sound (σ.enqueue p f).wires (σ.enqueue p f).lines
      rw [wires_enqueue, lines_enqueue]
      exact hs
  | respond =>
      rw [wires_respond, lines_respond]
      exact hs
  | issueWrite | issueRead =>
      rw [wires_issueFrame, lines_issueFrame]
      exact hs
  | popTransfer => exact hs
  | finish =>
      rw [wires_finish, lines_finish]
      exact hs
  | pumping => exact hs

/-- What a run maintains about the links. -/
structure Snap.Numbered (s : Snap) : Prop where
  ledger : Ledger s.fab s.total
  future : s.fab.Future
  clock : s.fab.wires.Clock
  lines : s.fab.lines.Sound s.fab.wires

theorem Micro.keeps_numbered {s' : Snap} (h : Micro env s s') (hwf : s.Wf) (hs : s.Numbered)
    : s'.Numbered :=
  ⟨h.ledger hwf hs.ledger, h.future hs.future, h.clock hwf hs.ledger hs.future hs.clock,
    h.numbered hwf hs.ledger hs.future hs.clock hs.lines⟩

theorem Snap.Numbered.initial (c : Config) : Snap.Numbered ⟨{ config := c }, none⟩ := by
  refine ⟨Ledger.initial c, ?_, ?_, ?_⟩
  · intro e he
    cases he
  · refine ⟨?_, ?_, ?_, ?_, ?_⟩ <;> simp [wires, Wires.Bounded]
  · refine ⟨?_, ?_, fun p => Window.Sound.initial, fun p => ⟨rfl, Nat.zero_le _⟩⟩
    · have none : ∀ q, (Fabric.lines { config := c }).arrivals q = [] := fun _ => rfl
      constructor <;> simp [wires, none]
    · intro q d hd
      cases hd

theorem numbered_invariant (env : Env) :
    (machine env).Invariant fun σ => Snap.Wf ⟨σ, none⟩ ∧ Snap.Numbered ⟨σ, none⟩ :=
  fabric_invariant (fun c _ => .initial c) fun _ _ hwf hs hm => hm.keeps_numbered hwf hs

theorem numbered_within {σ : Fabric} (h : (machine env).Reachable σ) (hs : Steps env ⟨σ, none⟩ s)
    : s.Wf ∧ s.Numbered :=
  star_preserves (P := fun s => s.Wf ∧ s.Numbered)
    (fun _ _ hs hm => ⟨hm.wf hs.1, hm.keeps_numbered hs.1 hs.2⟩) hs (numbered_invariant env σ h)

theorem next_number {σ : Fabric} (hs : Snap.Numbered ⟨σ, none⟩) (hwf : Snap.Wf ⟨σ, none⟩) {i : Nat}
    {e : Event} (hdue : σ.Due i e) :
    (∀ p f seq, e.kind = .frameArrive p f seq →
        p < σ.numPorts ∧ seq = (σ.ports p).receivedSequence + 1) ∧
      ∀ c, e.kind = .controlArrive c → c.ack = true →
        c.forPort < σ.numPorts ∧ (σ.window c.forPort).acked < c.sequence ∧
          (σ.ports c.forPort).nextSequence - 1 - (ackReplay c.sequence (σ.ports c.forPort).replay
            (σ.ports c.forPort).replayBytes).1.length = c.sequence := by
  obtain ⟨t, k⟩ := e
  constructor
  · rintro p f seq rfl
    obtain ⟨rest, line, -⟩ := lines_popEvent_link hdue rfl (hs.lines.paced.ordered _)
    refine ⟨?_, (hs.lines.landFrame line).1⟩
    have site : (⟨.link p, f⟩ : Site) ∈ σ.total :=
      mem_total_of_event (List.mem_of_getElem? hdue.1) (Multiset.mem_singleton_self _)
    rw [← Snap.total_none] at site
    exact (hwf.sites _ site).fits.1
  · rintro c rfl hack
    obtain ⟨rest, line, -⟩ := lines_popEvent_link hdue rfl (hs.lines.paced.ordered _)
    obtain ⟨news, kept, -⟩ := hs.lines.landAck line hack rfl
    have charged := hs.lines.charged c.forPort
    have small : (σ.ports c.forPort).replayBytes < 2 ^ 64 := by
      have room : (σ.ports c.forPort).replayBytes ≤ σ.config.replayBufferBytes := charged.room
      have cap : σ.config.replayBufferBytes < 2 ^ 32 := hwf.valid.inRange.replay_lt
      omega
    have freed := ackReplay_eq c.sequence _ _ charged.bytes small
    refine ⟨forPort_lt hs.ledger (.inl ⟨_, List.mem_of_getElem? hdue.1, rfl⟩), news, ?_⟩
    have line' : ackReplay c.sequence (σ.ports c.forPort).replay (σ.ports c.forPort).replayBytes = _ :=
      freed
    rw [line']
    exact kept

end ProtoBridge.Pcie
