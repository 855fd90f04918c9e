import ProtoBridge.Pcie.Flow

/-!
# Ordering end to end

A frame may not overtake an earlier one of the same pair of ends unless `CanPass`
allows it. The check is local: a transmitter looks at the frames of its own node.
`Ahead` states the global rule hop by hop: the earlier frame is further along the
common path, or parked in the same node with a smaller order number, or due
earlier on the same link. Every step of the flow keeps it, so at the destination
the earlier frame has arrived first.
-/

namespace ProtoBridge.Pcie

open Lib Fabric

/-- The later frame `g` must stay behind `f`. -/
structure Rival (f g : Frame) : Prop where
  created : f.serial < g.serial
  source : f.source = g.source
  destination : f.destination = g.destination
  blocked : canPass g.header f.header = false

/-- Progress along the path: a link comes before the hand that takes a frame off
it, and that before the node behind it. -/
def Spot.level (f : Frame) : Spot → Nat
  | .link _ _ => 3 * f.hops
  | .hand _ => 3 * f.hops + 1
  | .node _ => 3 * f.hops + 2

/-- At the same level, `f` goes first. -/
def Spot.first (f g : Frame) : Spot → Spot → Prop
  | .node _, .node _ => f.order < g.order
  | .link _ a, .link _ b => Before a b
  | _, _ => False

/-- Frame `f` at `x` is ahead of frame `g` at `y`. -/
def Ahead (x : Spot) (f : Frame) (y : Spot) (g : Frame) : Prop :=
  y.level g < x.level f ∨ y.level g = x.level f ∧ Spot.first f g x y

theorem Ahead.level_le {x y : Spot} {f g : Frame} (h : Ahead x f y g) : y.level g ≤ x.level f :=
  h.elim Nat.le_of_lt fun h => h.1.le

/-- The frame is where its path leads after its hops. -/
def Placed (t : Topo) (f : Frame) : Spot → Prop
  | .node n => t.walk f.source f.destination f.hops = some n ∧ n ≠ f.destination ∧
      f.domain = t.entry f.source f.destination f.hops
  | .link p _ | .hand p => ∃ h n, f.hops = h + 1 ∧ t.walk f.source f.destination h = some n ∧
      n ≠ f.destination ∧ t.route n f.destination = some p ∧ f.ingress = some p

/-- Travelling frames keep to their paths and their order. -/
structure Flow.Sorted (d : Flow) : Prop where
  serial : ∀ x f, d.At x f → f.serial < d.nextOrder
  order : ∀ n f, d.At (.node n) f → f.order < d.nextOrder
  placed : ∀ x f, d.At x f → Placed d.topo f x
  ahead : ∀ x f y g, d.At x f → d.At y g → Rival f g → Ahead x f y g

theorem Rival.irrefl {f g : Frame} (h : f.serial = g.serial) : ¬ Rival f g := by
  intro hr
  exact absurd hr.created (by omega)

/-- `f` and `g` are the same TLP. -/
structure Frame.Same (f g : Frame) : Prop where
  serial : f.serial = g.serial
  header : f.header = g.header
  destination : f.destination = g.destination

theorem Frame.Same.source {f g : Frame} (h : f.Same g) : f.source = g.source := by
  simp only [Frame.source, h.header]

theorem Rival.congr {f f' g g' : Frame} (h : Rival f g) (hf : f.Same f') (hg : g.Same g') :
    Rival f' g' where
  created := hf.serial ▸ hg.serial ▸ h.created
  source := hf.source ▸ hg.source ▸ h.source
  destination := hf.destination ▸ hg.destination ▸ h.destination
  blocked := hf.header ▸ hg.header ▸ h.blocked

/-! ## Steps keep the order -/

namespace Flow.Sorted

variable {d d' : Flow}

theorem restrict (h : d.Sorted) (ht : d'.topo = d.topo) (ho : d'.nextOrder = d.nextOrder)
    (hat : ∀ x f, d'.At x f → d.At x f) : d'.Sorted := by
  refine ⟨?_, ?_, ?_, ?_⟩
  · intro x f hx
    rw [ho]
    exact h.serial x f (hat x f hx)
  · intro n f hx
    rw [ho]
    exact h.order n f (hat _ f hx)
  · intro x f hx
    rw [ht]
    exact h.placed x f (hat x f hx)
  · intro x f y g hx hy
    exact h.ahead x f y g (hat x f hx) (hat y g hy)

/-- One frame `g₀` comes to `y₀`. -/
theorem move (h : d.Sorted) (y₀ : Spot) (g₀ : Frame) (ht : d'.topo = d.topo)
    (ho : d.nextOrder ≤ d'.nextOrder)
    (hat : ∀ x f, d'.At x f → d.At x f ∨ x = y₀ ∧ f = g₀)
    (hserial : g₀.serial < d'.nextOrder) (horder : ∀ n, y₀ = .node n → g₀.order < d'.nextOrder)
    (hplaced : Placed d.topo g₀ y₀)
    (hbehind : ∀ x f, d.At x f → Rival f g₀ → Ahead x f y₀ g₀)
    (hfront : ∀ y g, d.At y g → Rival g₀ g → Ahead y₀ g₀ y g) : d'.Sorted := by
  refine ⟨?_, ?_, ?_, ?_⟩
  · intro x f hx
    rcases hat x f hx with hx | ⟨-, rfl⟩
    · exact Nat.lt_of_lt_of_le (h.serial x f hx) ho
    · exact hserial
  · intro n f hx
    rcases hat _ f hx with hx | ⟨hn, rfl⟩
    · exact Nat.lt_of_lt_of_le (h.order n f hx) ho
    · exact horder n hn.symm
  · intro x f hx
    rw [ht]
    rcases hat x f hx with hx | ⟨rfl, rfl⟩
    · exact h.placed x f hx
    · exact hplaced
  · intro x f y g hx hy hr
    rcases hat x f hx with hx | ⟨rfl, rfl⟩
    · rcases hat y g hy with hy | ⟨rfl, rfl⟩
      · exact h.ahead x f y g hx hy hr
      · exact hbehind x f hx hr
    · rcases hat y g hy with hy | ⟨rfl, rfl⟩
      · exact hfront y g hy hr
      · exact absurd hr (Rival.irrefl rfl)

theorem front (h : d.Sorted) {x₀ y₀ : Spot} {f₀ g₀ : Frame} (hx : d.At x₀ f₀) (hsame : g₀.Same f₀)
    (hup : x₀.level f₀ < y₀.level g₀) : ∀ y g, d.At y g → Rival g₀ g → Ahead y₀ g₀ y g := by
  intro y g hy hr
  have hold := h.ahead x₀ f₀ y g hx hy (hr.congr hsame ⟨rfl, rfl, rfl⟩)
  refine .inl ?_
  rcases hold with hlt | ⟨heq, -⟩
  · exact hlt.trans hup
  · exact heq ▸ hup

theorem create {f : Frame} (h : d.Sorted) (hserial : f.serial = d.nextOrder)
    (horder : f.order = d.nextOrder) (hhops : f.hops = 0) (hdom : f.domain = none)
    (hne : f.source ≠ f.destination) {trace : List Obs} :
    Flow.Sorted
      { d with
        nextOrder := d.nextOrder + 1
        parked := d.parked + {(f.source, f)}
        trace } := by
  refine h.move (.node f.source) f rfl (Nat.le_succ _) ?_ ?_ ?_ ?_ ?_ ?_
  · intro x g hx
    cases x with
    | node n =>
        rcases Multiset.mem_add.mp hx with hx | hx
        · exact .inl hx
        · cases Multiset.mem_singleton.mp hx
          exact .inr ⟨rfl, rfl⟩
    | link p due => exact .inl hx
    | hand p => exact .inl hx
  · show f.serial < d.nextOrder + 1
    omega
  · intro n hn
    show f.order < d.nextOrder + 1
    omega
  · refine ⟨by rw [hhops]; rfl, hne, ?_⟩
    rw [hhops, hdom]
    rfl
  -- an earlier frame is at level 2 or more, and at level 2 it has the smaller number
  · intro x e hx hr
    have hlevel : Spot.level f (.node f.source) = 2 := by simp [Spot.level, hhops]
    cases x with
    | node n =>
        have hlt := h.order n e hx
        rcases Nat.eq_zero_or_pos e.hops with h0 | hpos
        · exact .inr ⟨by simp [Spot.level, hhops, h0], by rw [← horder] at hlt; exact hlt⟩
        · refine .inl ?_
          rw [hlevel]
          simp only [Spot.level]
          omega
    | link | hand =>
        obtain ⟨k, n, hk, -⟩ := h.placed _ e hx
        refine .inl ?_
        rw [hlevel]
        simp only [Spot.level]
        omega
  · intro y g hy hr
    have := h.serial y g hy
    exact absurd hr.created (by omega)

theorem send {n p : Nat} {f : Frame} {due : Option Nat} {m : Multiset (Nat × Frame)} (h : d.Sorted)
    (hm : d.parked = m + {(n, f)}) (hroute : d.topo.route n f.destination = some p)
    (hclear : ∀ g, (n, g) ∈ d.parked → g.order < f.order → g.domain = f.domain →
      canPass f.header g.header = true)
    (hdue : ∀ x ∈ d.flights, x.port = p → Before x.due due) :
    Flow.Sorted { d with parked := m, flights := d.flights + {⟨p, due, onLink p f⟩} } := by
  have hat : d.At (.node n) f := by
    show (n, f) ∈ d.parked
    rw [hm]
    exact Multiset.mem_add.mpr (.inr (Multiset.mem_singleton_self _))
  obtain ⟨hwalk, hne, hdomain⟩ := h.placed _ f hat
  have hsame : (onLink p f).Same f := ⟨rfl, rfl, rfl⟩
  refine h.move (.link p due) (onLink p f) rfl le_rfl ?_ (h.serial _ f hat) ?_ ?_ ?_ ?_
  · intro x g hx
    cases x with
    | node k =>
        refine .inl ?_
        show (k, g) ∈ d.parked
        rw [hm]
        exact Multiset.mem_add.mpr (.inl hx)
    | link q due' =>
        rcases Multiset.mem_add.mp hx with hx | hx
        · exact .inl hx
        · cases Multiset.mem_singleton.mp hx
          exact .inr ⟨rfl, rfl⟩
    | hand q => exact .inl hx
  · intro k hk
    cases hk
  · exact ⟨f.hops, n, rfl, hwalk, hne, hroute, rfl⟩
  · intro x e hx hr
    have hr' : Rival e f := hr.congr ⟨rfl, rfl, rfl⟩ hsame
    have hlevel : Spot.level (onLink p f) (.link p due) = 3 * f.hops + 3 := rfl
    have hold := h.ahead x e _ f hx hat hr'
    have hpath := h.placed x e hx
    cases x with
    | node k =>
        -- an earlier frame in this node would have held `f` back
        by_cases heq : e.hops = f.hops
        · have hrank : e.order < f.order := by
            rcases hold with hlt | ⟨-, hfirst⟩
            · simp only [Spot.level] at hlt
              omega
            · exact hfirst
          obtain ⟨hwalk', -, hdomain'⟩ := hpath
          rw [heq, hr'.source, hr'.destination] at hwalk' hdomain'
          have hkn : k = n := Option.some.inj (hwalk'.symm.trans hwalk)
          subst hkn
          have hpass := hclear e hx hrank (hdomain'.trans hdomain.symm)
          exact absurd (hr'.blocked.symm.trans hpass) (by simp)
        · refine .inl ?_
          rw [hlevel]
          have hle := hold.level_le
          simp only [Spot.level] at hle ⊢
          omega
    | link q due' =>
        obtain ⟨k, n', hk, hwalk', hne', hroute', -⟩ := hpath
        by_cases heq : k = f.hops
        -- on the same link it was sent before
        · rw [heq, hr'.source, hr'.destination] at hwalk'
          have hnn : n' = n := Option.some.inj (hwalk'.symm.trans hwalk)
          rw [hnn, hr'.destination, hroute] at hroute'
          cases hroute'
          refine .inr ⟨?_, hdue _ hx rfl⟩
          rw [hlevel]
          simp only [Spot.level]
          omega
        · refine .inl ?_
          rw [hlevel]
          have hle := hold.level_le
          simp only [Spot.level] at hle ⊢
          omega
    | hand q =>
        obtain ⟨k, n', hk, -⟩ := hpath
        refine .inl ?_
        rw [hlevel]
        have hle := hold.level_le
        simp only [Spot.level] at hle ⊢
        omega
  · refine h.front hat hsame ?_
    simp only [Spot.level, onLink]
    omega

theorem arrive {p t : Nat} {f : Frame} {m : Multiset Flight} (h : d.Sorted) (hhand : d.hand = none)
    (hm : d.flights = m + {⟨p, some t, f⟩})
    (hmin : ∀ x ∈ d.flights, ∀ t', x.due = some t' → t ≤ t') :
    Flow.Sorted { d with flights := m, hand := some (p, f) } := by
  have hat : d.At (.link p (some t)) f := by
    show _ ∈ d.flights
    rw [hm]
    exact Multiset.mem_add.mpr (.inr (Multiset.mem_singleton_self _))
  refine h.move (.hand p) f rfl le_rfl ?_ (h.serial _ f hat) ?_ ?_ ?_ ?_
  · intro x g hx
    cases x with
    | node k => exact .inl hx
    | link q due' =>
        refine .inl ?_
        show _ ∈ d.flights
        rw [hm]
        exact Multiset.mem_add.mpr (.inl hx)
    | hand q =>
        cases hx
        exact .inr ⟨rfl, rfl⟩
  · intro k hk
    cases hk
  · exact h.placed (.link p (some t)) f hat
  · intro x e hx hr
    have hold := h.ahead x e _ f hx hat hr
    cases x with
    | node k =>
        refine .inl ?_
        have hle := hold.level_le
        simp only [Spot.level] at hle ⊢
        omega
    | link q due' =>
        refine .inl ?_
        rcases hold with hlt | ⟨hlev, hfirst⟩
        · simp only [Spot.level] at hlt ⊢
          omega
        · -- the earlier frame of this link would have been due first
          cases due' with
          | none => exact absurd hfirst id
          | some t' => exact absurd (hmin _ hx t' rfl) (Nat.not_le.mpr hfirst)
    | hand q =>
        rw [show d.At (.hand q) e ↔ d.hand = some (q, e) from Iff.rfl, hhand] at hx
        cases hx
  · refine h.front hat ⟨rfl, rfl, rfl⟩ ?_
    simp only [Spot.level]
    omega

theorem forward {p ready : Nat} {f : Frame} (h : d.Sorted) (hhand : d.hand = some (p, f))
    (hne : d.topo.dst p ≠ f.destination) :
    Flow.Sorted
      { d with
        hand := none
        nextOrder := d.nextOrder + 1
        parked := d.parked +
          {(d.topo.dst p, { f with domain := f.ingress, order := d.nextOrder, ready })} } := by
  have hat : d.At (.hand p) f := hhand
  obtain ⟨k, n, hk, hwalk, hnd, hroute, hin⟩ := h.placed _ f hat
  set g : Frame := { f with domain := f.ingress, order := d.nextOrder, ready } with hg
  refine h.move (.node (d.topo.dst p)) g rfl (Nat.le_succ _) ?_ ?_ ?_ ?_ ?_ ?_
  · intro x e hx
    cases x with
    | node j =>
        rcases Multiset.mem_add.mp hx with hx | hx
        · exact .inl hx
        · cases Multiset.mem_singleton.mp hx
          exact .inr ⟨rfl, rfl⟩
    | link q due' => exact .inl hx
    | hand q => cases hx
  · exact Nat.lt_succ_of_lt (h.serial _ f hat)
  · intro j hj
    exact Nat.lt_succ_self _
  · refine ⟨?_, hne, ?_⟩
    · show d.topo.walk f.source f.destination f.hops = _
      rw [hk]
      exact Topo.walk_succ hwalk hnd hroute
    · show f.ingress = d.topo.entry f.source f.destination f.hops
      rw [hk, hin]
      exact (Topo.entry_succ hwalk hroute).symm
  · intro x e hx hr
    have hr' : Rival e f := hr.congr ⟨rfl, rfl, rfl⟩ ⟨rfl, rfl, rfl⟩
    have hold := h.ahead x e _ f hx hat hr'
    have hlevel : Spot.level g (.node (d.topo.dst p)) = 3 * f.hops + 2 := rfl
    cases x with
    | node j =>
        by_cases heq : e.hops = f.hops
        · exact .inr ⟨by rw [hlevel]; simp only [Spot.level]; omega, h.order j e hx⟩
        · refine .inl ?_
          rw [hlevel]
          have hle := hold.level_le
          simp only [Spot.level] at hle ⊢
          omega
    | link q due' =>
        refine .inl ?_
        rw [hlevel]
        have hle := hold.level_le
        simp only [Spot.level] at hle ⊢
        omega
    | hand q =>
        -- only one frame is in hand
        have heq : some (q, e) = some (p, f) := hx.symm.trans hhand
        cases heq
        exact absurd hr' (Rival.irrefl rfl)
  · refine h.front hat ⟨rfl, rfl, rfl⟩ ?_
    simp only [Spot.level, hg]
    omega

theorem not_ahead_of_arrived {p : Nat} {x : Spot} {e g : Frame} (h : d.Sorted)
    (hat : d.At (.hand p) g) (hdst : d.topo.dst p = g.destination) (hx : d.At x e) (hr : Rival e g) :
    ¬ Ahead x e (.hand p) g := by
  obtain ⟨k, n, hk, hwalk, hne, hroute, -⟩ := h.placed _ g hat
  have hend : d.topo.walk g.source g.destination g.hops = some g.destination := by
    rw [hk, ← hdst]
    have := Topo.walk_succ hwalk hne hroute
    rw [hdst] at this ⊢
    exact this
  have hpath := h.placed x e hx
  intro hahead
  have hlt : 3 * g.hops + 1 < x.level e := by
    rcases hahead with hlt | ⟨-, hfirst⟩
    · exact hlt
    · cases x <;> exact absurd hfirst id
  -- its last node lies at or past the destination
  have hpast : ∃ j m, d.topo.walk e.source e.destination j = some m ∧ m ≠ e.destination ∧
      g.hops ≤ j := by
    cases x with
    | node m =>
        refine ⟨e.hops, m, hpath.1, hpath.2.1, ?_⟩
        simp only [Spot.level] at hlt
        omega
    | link | hand =>
        obtain ⟨j, m, hj, hm, hne, -⟩ := hpath
        refine ⟨j, m, hm, hne, ?_⟩
        simp only [Spot.level] at hlt
        omega
  obtain ⟨j, m, hm, hme, hle⟩ := hpast
  rw [hr.source, hr.destination] at hm
  exact hme ((Topo.walk_stuck hend hle hm).trans hr.destination.symm)

end Flow.Sorted

theorem Flow.Step.sorted {d d' : Flow} (h : Flow.Step d d') (hs : d.Sorted) : d'.Sorted := by
  cases h with
  | @build topo hp hf hh =>
      -- construction meets no traffic
      have hnone : ∀ x f, ¬ d.At x f := by
        intro x f hx
        cases x with
        | node n =>
            rw [Flow.At, hp] at hx
            exact Multiset.notMem_zero _ hx
        | link p due =>
            rw [Flow.At, hf] at hx
            exact Multiset.notMem_zero _ hx
        | hand p =>
            rw [Flow.At, hh] at hx
            cases hx
      have hnone' : ∀ x f, ¬ Flow.At { d with topo } x f := by
        intro x f hx
        refine hnone x f ?_
        cases x <;> exact hx
      exact ⟨fun x f hx => absurd hx (hnone' x f), fun n f hx => absurd hx (hnone' _ f),
        fun x f hx => absurd hx (hnone' x f), fun x f y g hx => absurd hx (hnone' x f)⟩
  | note =>
      refine hs.restrict rfl rfl ?_
      intro x f hx
      cases x <;> exact hx
  | create hserial horder hhops hdom hne => exact hs.create hserial horder hhops hdom hne
  | send hm hroute hclear hdue => exact hs.send hm hroute hclear hdue
  | arrive hhand hm hmin => exact hs.arrive hhand hm hmin
  | forward hhand hne => exact hs.forward hhand hne
  | receive =>
      refine hs.restrict rfl rfl ?_
      intro x f hx
      cases x with
      | node n => exact hx
      | link p due => exact hx
      | hand p => cases hx

/-! ## The record of the run -/

/-- The history knows every travelling frame, and receptions obey the order. -/
structure Flow.Recorded (d : Flow) : Prop where
  made : ∀ c, .created c ∈ d.trace → c.serial < d.nextOrder
  unique : ∀ c c', .created c ∈ d.trace → .created c' ∈ d.trace → c.serial = c'.serial → c = c'
  increasing : ∀ pre post c, d.trace = pre ++ .created c :: post →
    ∀ c', .created c' ∈ pre → c'.serial < c.serial
  known : ∀ x f, d.At x f → ∃ c, .created c ∈ d.trace ∧ f.Same c
  arrived : ∀ g, .received g ∈ d.trace → ∃ c, .created c ∈ d.trace ∧ g.Same c
  present : ∀ c, .created c ∈ d.trace → (∃ x f, d.At x f ∧ f.serial = c.serial) ∨
    ∃ g, .received g ∈ d.trace ∧ g.serial = c.serial
  inOrder : ∀ pre post g, d.trace = pre ++ .received g :: post →
    ∀ c, .created c ∈ d.trace → Rival c g → ∃ r, .received r ∈ pre ∧ r.serial = c.serial

namespace Flow.Recorded

variable {d d' : Flow}

theorem Same.trans {f g h : Frame} (h1 : f.Same g) (h2 : g.Same h) : f.Same h :=
  ⟨h1.serial.trans h2.serial, h1.header.trans h2.header, h1.destination.trans h2.destination⟩

theorem carry (h : d.Recorded) (ht : d'.trace = d.trace) (ho : d.nextOrder ≤ d'.nextOrder)
    (hfrom : ∀ x f, d'.At x f → ∃ y g, d.At y g ∧ f.Same g)
    (hto : ∀ x f, d.At x f → ∃ y g, d'.At y g ∧ g.serial = f.serial) : d'.Recorded := by
  refine ⟨?_, by rw [ht]; exact h.unique, by rw [ht]; exact h.increasing, ?_,
    by rw [ht]; exact h.arrived, ?_, by rw [ht]; exact h.inOrder⟩
  · intro c hc
    rw [ht] at hc
    exact Nat.lt_of_lt_of_le (h.made c hc) ho
  · intro x f hx
    obtain ⟨y, g, hy, hfg⟩ := hfrom x f hx
    obtain ⟨c, hc, hgc⟩ := h.known y g hy
    exact ⟨c, ht ▸ hc, Same.trans hfg hgc⟩
  · intro c hc
    rw [ht] at hc ⊢
    rcases h.present c hc with ⟨x, f, hx, hf⟩ | hrec
    · obtain ⟨y, g, hy, hg⟩ := hto x f hx
      exact .inl ⟨y, g, hy, hg.trans hf⟩
    · exact .inr hrec

theorem note {o : Obs} (h : d.Recorded) (hc : ∀ f, o ≠ .created f) (hr : ∀ f, o ≠ .received f) :
    Flow.Recorded { d with trace := d.trace ++ [o] } := by
  have hcreated : ∀ c, .created c ∈ d.trace ++ [o] ↔ .created c ∈ d.trace := by
    intro c
    simp [(hc c).symm]
  have hreceived : ∀ c, .received c ∈ d.trace ++ [o] ↔ .received c ∈ d.trace := by
    intro c
    simp [(hr c).symm]
  have hat : ∀ x f, Flow.At { d with trace := d.trace ++ [o] } x f ↔ d.At x f := by
    intro x f
    cases x <;> rfl
  refine ⟨?_, ?_, ?_, ?_, ?_, ?_, ?_⟩
  · intro c hmem
    exact h.made c ((hcreated c).mp hmem)
  · intro c c' hmem hmem'
    exact h.unique c c' ((hcreated c).mp hmem) ((hcreated c').mp hmem')
  · intro pre post c heq
    rcases snoc_split heq with ⟨-, -, rfl⟩ | ⟨post', heq⟩
    · exact absurd rfl (hc c)
    · exact h.increasing pre post' c heq
  · intro x f hx
    obtain ⟨c, hmem, hsame⟩ := h.known x f ((hat x f).mp hx)
    exact ⟨c, (hcreated c).mpr hmem, hsame⟩
  · intro g hg
    obtain ⟨c, hmem, hsame⟩ := h.arrived g ((hreceived g).mp hg)
    exact ⟨c, (hcreated c).mpr hmem, hsame⟩
  · intro c hmem
    rcases h.present c ((hcreated c).mp hmem) with ⟨x, f, hx, hf⟩ | ⟨g, hg, hs⟩
    · exact .inl ⟨x, f, (hat x f).mpr hx, hf⟩
    · exact .inr ⟨g, (hreceived g).mpr hg, hs⟩
  · intro pre post g heq c hmem
    rcases snoc_split heq with ⟨-, -, rfl⟩ | ⟨post', heq⟩
    · exact absurd rfl (hr g)
    · exact h.inOrder pre post' g heq c ((hcreated c).mp hmem)

theorem create {f : Frame} (h : d.Recorded) (hserial : f.serial = d.nextOrder) :
    Flow.Recorded
      { d with
        nextOrder := d.nextOrder + 1
        parked := d.parked + {(f.source, f)}
        trace := d.trace ++ [.created f] } := by
  set d' : Flow := { d with
    nextOrder := d.nextOrder + 1
    parked := d.parked + {(f.source, f)}
    trace := d.trace ++ [.created f] } with hd'
  have hcreated : ∀ c, .created c ∈ d'.trace ↔ .created c ∈ d.trace ∨ c = f := by
    intro c
    simp [hd']
  have hreceived : ∀ c, .received c ∈ d'.trace ↔ .received c ∈ d.trace := by
    intro c
    simp [hd']
  have hold : ∀ x g, d.At x g → d'.At x g := by
    intro x g hx
    cases x with
    | node n => exact Multiset.mem_add.mpr (.inl hx)
    | link p due => exact hx
    | hand p => exact hx
  refine ⟨?_, ?_, ?_, ?_, ?_, ?_, ?_⟩
  · intro c hmem
    show c.serial < d.nextOrder + 1
    rcases (hcreated c).mp hmem with hmem | rfl
    · exact Nat.lt_succ_of_lt (h.made c hmem)
    · omega
  -- unique
  · intro c c' hmem hmem' heq
    rcases (hcreated c).mp hmem with hc | hc <;> rcases (hcreated c').mp hmem' with hc' | hc'
    · exact h.unique c c' hc hc' heq
    · have := h.made c hc
      rw [heq, hc', hserial] at this
      omega
    · have := h.made c' hc'
      rw [← heq, hc, hserial] at this
      omega
    · rw [hc, hc']
  · intro pre post c heq c' hmem
    rcases snoc_split heq with ⟨-, rfl, hcf⟩ | ⟨post', heq⟩
    · cases hcf
      have := h.made c' hmem
      omega
    · exact h.increasing pre post' c heq c' hmem
  -- known
  · intro x g hx
    have hcase : d.At x g ∨ g = f := by
      cases x with
      | node n =>
          rcases Multiset.mem_add.mp hx with hx | hx
          · exact .inl hx
          · cases Multiset.mem_singleton.mp hx
            exact .inr rfl
      | link p due => exact .inl hx
      | hand p => exact .inl hx
    rcases hcase with hx | rfl
    · obtain ⟨c, hmem, hsame⟩ := h.known x g hx
      exact ⟨c, (hcreated c).mpr (.inl hmem), hsame⟩
    · exact ⟨g, (hcreated g).mpr (.inr rfl), rfl, rfl, rfl⟩
  · intro g hg
    obtain ⟨c, hmem, hsame⟩ := h.arrived g ((hreceived g).mp hg)
    exact ⟨c, (hcreated c).mpr (.inl hmem), hsame⟩
  · intro c hmem
    rcases (hcreated c).mp hmem with hmem | rfl
    · rcases h.present c hmem with ⟨x, g, hx, hg⟩ | ⟨g, hg, hs⟩
      · exact .inl ⟨x, g, hold x g hx, hg⟩
      · exact .inr ⟨g, (hreceived g).mpr hg, hs⟩
    · exact .inl ⟨.node c.source, c,
        Multiset.mem_add.mpr (.inr (Multiset.mem_singleton_self _)), rfl⟩
  -- inOrder
  · intro pre post g heq c hmem hr
    rcases snoc_split heq with ⟨-, -, hcf⟩ | ⟨post', hold'⟩
    · cases hcf
    · rcases (hcreated c).mp hmem with hc | hc
      · exact h.inOrder pre post' g hold' c hc hr
      · -- the new frame is younger than everything received
        obtain ⟨c', hmem', hsame⟩ := h.arrived g (by rw [hold']; simp)
        have hlt := h.made c' hmem'
        have hyounger := hr.created
        rw [hc, hserial, hsame.serial] at hyounger
        omega

/-- A frame is received: everything that had to come first is there. -/
theorem receive {p : Nat} {f : Frame} (h : d.Recorded) (hs : d.Sorted)
    (hhand : d.hand = some (p, f)) (hdst : d.topo.dst p = f.destination) :
    Flow.Recorded { d with hand := none, trace := d.trace ++ [.received f] } := by
  set d' : Flow := { d with hand := none, trace := d.trace ++ [.received f] } with hd'
  have hat : d.At (.hand p) f := hhand
  have hcreated : ∀ c, .created c ∈ d'.trace ↔ .created c ∈ d.trace := by
    intro c
    simp [hd']
  have hreceived : ∀ c, .received c ∈ d'.trace ↔ .received c ∈ d.trace ∨ c = f := by
    intro c
    simp [hd']
  refine ⟨?_, ?_, ?_, ?_, ?_, ?_, ?_⟩
  · intro c hmem
    exact h.made c ((hcreated c).mp hmem)
  · intro c c' hmem hmem'
    exact h.unique c c' ((hcreated c).mp hmem) ((hcreated c').mp hmem')
  · intro pre post c heq c' hmem
    rcases snoc_split heq with ⟨-, -, hcf⟩ | ⟨post', heq⟩
    · cases hcf
    · exact h.increasing pre post' c heq c' hmem
  · intro x g hx
    have hx' : d.At x g := by
      cases x with
      | node n => exact hx
      | link q due => exact hx
      | hand q => cases hx
    obtain ⟨c, hmem, hsame⟩ := h.known x g hx'
    exact ⟨c, (hcreated c).mpr hmem, hsame⟩
  · intro g hg
    rcases (hreceived g).mp hg with hg | rfl
    · obtain ⟨c, hmem, hsame⟩ := h.arrived g hg
      exact ⟨c, (hcreated c).mpr hmem, hsame⟩
    · obtain ⟨c, hmem, hsame⟩ := h.known _ _ hat
      exact ⟨c, (hcreated c).mpr hmem, hsame⟩
  -- present
  · intro c hmem
    rcases h.present c ((hcreated c).mp hmem) with ⟨x, g, hx, hg⟩ | ⟨g, hg, hserial⟩
    · cases x with
      | node n => exact .inl ⟨.node n, g, hx, hg⟩
      | link q due => exact .inl ⟨.link q due, g, hx, hg⟩
      | hand q =>
          have heq : some (q, g) = some (p, f) := hx.symm.trans hhand
          cases heq
          exact .inr ⟨f, (hreceived f).mpr (.inr rfl), hg⟩
    · exact .inr ⟨g, (hreceived g).mpr (.inl hg), hserial⟩
  -- inOrder
  · intro pre post g heq c hmem hr
    have hmem' := (hcreated c).mp hmem
    rcases snoc_split heq with ⟨-, rfl, hgf⟩ | ⟨post', heq⟩
    · cases hgf
      rcases h.present c hmem' with ⟨x, e, hx, he⟩ | hrec
      -- the earlier frame cannot still be travelling: it would be past the end of its path
      · obtain ⟨c', hmemc, hsame⟩ := h.known x e hx
        have hcc : c' = c := h.unique c' c hmemc hmem' (hsame.serial.symm.trans he)
        subst hcc
        have hr' : Rival e f := by
          refine ⟨?_, hsame.source.trans hr.source, hsame.destination.trans hr.destination, ?_⟩
          · rw [hsame.serial]
            exact hr.created
          · rw [hsame.header]
            exact hr.blocked
        exact absurd (hs.ahead x e _ f hx hat hr') (hs.not_ahead_of_arrived hat hdst hx hr')
      · exact hrec
    · exact h.inOrder pre post' g heq c hmem' hr

end Flow.Recorded

/-- Every step keeps the record. -/
theorem Flow.Step.recorded {d d' : Flow} (h : Flow.Step d d') (hs : d.Sorted) (hr : d.Recorded) :
    d'.Recorded := by
  cases h with
  | build =>
      refine hr.carry rfl le_rfl ?_ ?_
      · intro x f hx
        refine ⟨x, f, ?_, rfl, rfl, rfl⟩
        cases x <;> exact hx
      · intro x f hx
        refine ⟨x, f, ?_, rfl⟩
        cases x <;> exact hx
  | note hc hrec => exact hr.note hc hrec
  | create hserial => exact hr.create hserial
  | @send n f p due m hm =>
      have hat : (n, f) ∈ d.parked := by
        rw [hm]
        exact Multiset.mem_add.mpr (.inr (Multiset.mem_singleton_self _))
      refine hr.carry rfl le_rfl ?_ ?_
      · intro x g hx
        cases x with
        | node k =>
            refine ⟨.node k, g, ?_, rfl, rfl, rfl⟩
            show (k, g) ∈ d.parked
            rw [hm]
            exact Multiset.mem_add.mpr (.inl hx)
        | link q due' =>
            rcases Multiset.mem_add.mp hx with hx | hx
            · exact ⟨.link q due', g, hx, rfl, rfl, rfl⟩
            · cases Multiset.mem_singleton.mp hx
              exact ⟨.node n, f, hat, rfl, rfl, rfl⟩
        | hand q => exact ⟨.hand q, g, hx, rfl, rfl, rfl⟩
      · intro x g hx
        cases x with
        | node k =>
            have hx' : (k, g) ∈ m + {(n, f)} := hm ▸ hx
            rcases Multiset.mem_add.mp hx' with hx' | hx'
            · exact ⟨.node k, g, hx', rfl⟩
            · cases Multiset.mem_singleton.mp hx'
              exact ⟨.link p due, onLink p f,
                Multiset.mem_add.mpr (.inr (Multiset.mem_singleton_self _)), rfl⟩
        | link q due' => exact ⟨.link q due', g, Multiset.mem_add.mpr (.inl hx), rfl⟩
        | hand q => exact ⟨.hand q, g, hx, rfl⟩
  | @arrive p t f m hhand hm =>
      have hat : ⟨p, some t, f⟩ ∈ d.flights := by
        rw [hm]
        exact Multiset.mem_add.mpr (.inr (Multiset.mem_singleton_self _))
      refine hr.carry rfl le_rfl ?_ ?_
      · intro x g hx
        cases x with
        | node k => exact ⟨.node k, g, hx, rfl, rfl, rfl⟩
        | link q due' =>
            refine ⟨.link q due', g, ?_, rfl, rfl, rfl⟩
            show _ ∈ d.flights
            rw [hm]
            exact Multiset.mem_add.mpr (.inl hx)
        | hand q =>
            cases hx
            exact ⟨.link p (some t), f, hat, rfl, rfl, rfl⟩
      · intro x g hx
        cases x with
        | node k => exact ⟨.node k, g, hx, rfl⟩
        | link q due' =>
            have hx' : ⟨q, due', g⟩ ∈ m + {⟨p, some t, f⟩} := hm ▸ hx
            rcases Multiset.mem_add.mp hx' with hx' | hx'
            · exact ⟨.link q due', g, hx', rfl⟩
            · cases Multiset.mem_singleton.mp hx'
              exact ⟨.hand p, f, rfl, rfl⟩
        | hand q =>
            rw [Flow.At, hhand] at hx
            cases hx
  | @forward p f ready hhand hne =>
      have hat : d.At (.hand p) f := hhand
      refine hr.carry rfl (Nat.le_succ _) ?_ ?_
      · intro x g hx
        cases x with
        | node k =>
            rcases Multiset.mem_add.mp hx with hx | hx
            · exact ⟨.node k, g, hx, rfl, rfl, rfl⟩
            · cases Multiset.mem_singleton.mp hx
              exact ⟨.hand p, f, hat, rfl, rfl, rfl⟩
        | link q due' => exact ⟨.link q due', g, hx, rfl, rfl, rfl⟩
        | hand q => cases hx
      · intro x g hx
        cases x with
        | node k => exact ⟨.node k, g, Multiset.mem_add.mpr (.inl hx), rfl⟩
        | link q due' => exact ⟨.link q due', g, hx, rfl⟩
        | hand q =>
            have heq : some (q, g) = some (p, f) := hx.symm.trans hhand
            cases heq
            exact ⟨.node (d.topo.dst p), _,
              Multiset.mem_add.mpr (.inr (Multiset.mem_singleton_self _)), rfl⟩
  | receive hhand hdst => exact hr.receive hs hhand hdst

/-! ## Runs -/

/-- What a run maintains about order. -/
structure Snap.InOrder (s : Snap) : Prop where
  ledger : Ledger s.fab s.total
  future : s.fab.Future
  clock : s.fab.wires.Clock
  sorted : s.flow.Sorted
  recorded : s.flow.Recorded

theorem Micro.inOrder {env : Env} {s s' : Snap} (h : Micro env s s') (hwf : s.Wf) (hs : s.InOrder) :
    s'.InOrder := by
  refine ⟨h.ledger hwf hs.ledger, h.future hs.future,
    h.clock hwf hs.ledger hs.future hs.clock, ?_, ?_⟩
  · rcases h.flow hwf hs.clock with heq | hstep
    · rw [heq]
      exact hs.sorted
    · exact hstep.sorted hs.sorted
  · rcases h.flow hwf hs.clock with heq | hstep
    · rw [heq]
      exact hs.recorded
    · exact hstep.recorded hs.sorted hs.recorded

theorem Snap.InOrder.initial (c : Config) : Snap.InOrder ⟨{ config := c }, none⟩ := by
  have htotal : Snap.total ⟨{ config := c }, none⟩ = 0 := by
    simp [Snap.total_none, Fabric.total, live, lost]
  have hnone : ∀ x f, ¬ (Snap.flow ⟨{ config := c }, none⟩).At x f := by
    intro x f hx
    cases x with
    | node n =>
        simp only [Flow.At, Snap.flow, htotal, Multiset.zero_bind] at hx
        exact Multiset.notMem_zero _ hx
    | link p due => exact Multiset.notMem_zero _ hx
    | hand p => cases hx
  refine ⟨Ledger.initial c, ?_, ?_, ?_, ?_⟩
  · intro e he
    cases he
  · refine ⟨?_, ?_, ?_, ?_, ?_⟩ <;> simp [wires, Wires.Bounded]
  · exact ⟨fun x f hx => absurd hx (hnone x f), fun n f hx => absurd hx (hnone _ f),
      fun x f hx => absurd hx (hnone x f), fun x f y g hx => absurd hx (hnone x f)⟩
  · refine ⟨?_, ?_, ?_, fun x f hx => absurd hx (hnone x f), ?_, ?_, ?_⟩ <;> simp [Snap.flow]

/-- **Ordering is preserved end to end.** Take any two TLPs of a run with the same
ends, `f₁` created before `f₂`, where `f₂` may not pass `f₁`. Whenever `f₂` has
been received, `f₁` was received before it. -/
theorem order_preserved (env : Env) (σ : Fabric) (hreach : (machine env).Reachable σ)
    (f₁ f₂ : Frame) (hcreated : ∃ a b c, σ.trace = a ++ .created f₁ :: b ++ .created f₂ :: c)
    (hsource : f₁.source = f₂.source) (hdestination : f₁.destination = f₂.destination)
    (hpass : canPass f₂.header f₁.header = false) (pre post : List Obs) (g₂ : Frame)
    (hreceived : σ.trace = pre ++ .received g₂ :: post) (hserial : g₂.serial = f₂.serial) :
    ∃ g₁, .received g₁ ∈ pre ∧ g₁.serial = f₁.serial ∧ g₁.header = f₁.header := by
  obtain ⟨-, hs⟩ := fabric_invariant (P := Snap.InOrder) (fun c _ => .initial c)
    (fun _ _ hwf hs hm => hm.inOrder hwf hs) σ hreach
  obtain ⟨a, b, c, htrace⟩ := hcreated
  have hr := hs.recorded
  have hmem₁ : .created f₁ ∈ σ.trace := by
    rw [htrace]
    simp
  have hmem₂ : .created f₂ ∈ σ.trace := by
    rw [htrace]
    simp
  have hlt : f₁.serial < f₂.serial := hr.increasing (a ++ .created f₁ :: b) c f₂ htrace f₁ (by simp)
  -- what was received is what was created
  obtain ⟨c₂, hc₂, hsame₂⟩ := hr.arrived g₂ (show .received g₂ ∈ σ.trace by rw [hreceived]; simp)
  have heq₂ : c₂ = f₂ := hr.unique c₂ f₂ hc₂ hmem₂ (hsame₂.serial.symm.trans hserial)
  subst heq₂
  have hrival : Rival f₁ g₂ := by
    refine ⟨by rw [hserial]; exact hlt, hsource.trans hsame₂.source.symm,
      hdestination.trans hsame₂.destination.symm, ?_⟩
    rw [hsame₂.header]
    exact hpass
  obtain ⟨g₁, hg₁, hserial₁⟩ := hr.inOrder pre post g₂ hreceived f₁ hmem₁ hrival
  obtain ⟨c₁, hc₁, hsame₁⟩ := hr.arrived g₁ (show .received g₁ ∈ σ.trace by rw [hreceived]; simp [hg₁])
  have heq₁ : c₁ = f₁ := hr.unique c₁ f₁ hc₁ hmem₁ (hsame₁.serial.symm.trans hserial₁)
  exact ⟨g₁, hg₁, hserial₁, heq₁ ▸ hsame₁.header⟩

/-- One write of two TLPs from endpoint 0 through a switch to endpoint 1. -/
def switchRun : List Act :=
  [.addNode (.endpoint false false), .addNode (.endpoint false false), .addNode .switch,
    .addLink 0 2, .addLink 2 1,
    .submit { read := false, requester := 0, target := 1, bytes := 512 }] ++
  [0, 0, 3, 2, 5, 5, 2, 4, 4, 0, 0, 0, 0, 5, 0, 5, 5, 0, 4, 2, 2, 2, 2, 3, 2, 2, 0, 0].map .fire

/-- Its TLP at byte `offset`, as created. -/
def switchFrame (serial offset : Nat) : Frame where
  header := { type := .write, address := 2 * window + offset, bytes := 256, requester := 0 }
  transaction := 1
  offset := offset
  order := serial
  traffic := .payload
  destination := 1
  ready := 0
  serial := serial

/-- The same TLP when it arrives. -/
def switchArrival (serial offset order ready : Nat) : Frame :=
  { switchFrame serial offset with order, ready, ingress := some 2, domain := some 0, hops := 2 }

theorem switchRun_trace :
    ((machine tickEnv).runs { config := {} } switchRun).map (fun σ => σ.trace.tail) =
      some ([.created (switchFrame 1 0), .created (switchFrame 2 256),
        .received (switchArrival 1 0 3 310), .delivered (switchArrival 1 0 3 310)] ++
        [.received (switchArrival 2 256 4 590)]) := by
  decide +kernel

theorem order_preserved_switchRun : ∃ σ, (machine tickEnv).Reachable σ ∧
    ∃ pre post g₁, σ.trace = pre ++ .received (switchArrival 2 256 4 590) :: post ∧
      .received g₁ ∈ pre ∧ g₁.serial = (switchFrame 1 0).serial := by
  obtain ⟨σ, hreach, htail⟩ := Machine.Reachable.exists_of_runs
    (M := machine tickEnv) ⟨_, by constructor <;> decide, rfl, rfl⟩ switchRun_trace
  cases htrace : σ.trace with
  | nil => simp [htrace] at htail
  | cons o rest =>
      rw [htrace, List.tail_cons] at htail
      have hpre : σ.trace = (o :: [.created (switchFrame 1 0), .created (switchFrame 2 256),
          .received (switchArrival 1 0 3 310), .delivered (switchArrival 1 0 3 310)]) ++
          .received (switchArrival 2 256 4 590) :: [] := by
        rw [htrace, htail]
        rfl
      obtain ⟨g₁, hg₁, hserial, -⟩ := order_preserved tickEnv σ hreach (switchFrame 1 0)
        (switchFrame 2 256) ⟨[o], [], _, by rw [htrace, htail]; rfl⟩ rfl rfl (by decide) _ _ _ hpre rfl
      exact ⟨σ, hreach, _, _, g₁, hpre, hg₁, hserial⟩

end ProtoBridge.Pcie
