import Mathlib.Algebra.Order.BigOperators.Group.Finset
import ProtoBridge.Switch.FailureSearch

/-!
# The tables of the failure-aware routes

A switch that is joined to a destination has ports for it, all of them up and on a nearest way; another switch
has none.
-/

namespace ProtoBridge.Switch

open Lib Cluster

variable {c : Cluster} {a b d k p : Nat}

/-! ## Ports -/

theorem mem_sortUnique {ports : List Nat} : p ∈ sortUnique ports ↔ p ∈ ports := by
  unfold sortUnique
  rw [List.mem_dedup, List.mem_mergeSort]

theorem Cluster.Nearest.unique {j : Nat} (h : c.Nearest d a k) (h' : c.Nearest d a j) : k = j :=
  Nat.le_antisymm (h.least j h'.leads) (h'.least k h.leads)

theorem Cluster.Joined.exists_nearest (h : c.Joined d a) : ∃ k, c.Nearest d a k := by
  classical
  exact ⟨Nat.find h, Nat.find_spec h, fun j hj => Nat.find_min' h hj⟩

/-- A port on a nearest way leads to the destination, or to a switch one step nearer. -/
def NearPort (c : Cluster) (d a k p : Nat) : Prop :=
  c.switchPortIsUp a p = true ∧ (k = 0 ∧ c.peer a p = .endpoint d ∨
    ∃ b q j, c.peer a p = .switch b q ∧ k = j + 1 ∧ c.Nearest d b j)

theorem mem_outputPorts (hc : c.Wf) (hd : d < c.numEndpoints) (ha : a < c.numSwitches)
    (hnear : c.Nearest d a k) :
    p ∈ outputPorts c d (distances c d) a ↔ NearPort c d a k p := by
  have hdist := (distances_eq_some hc hd).mpr hnear
  unfold outputPorts NearPort
  rw [mem_sortUnique, hdist]
  by_cases hzero : k = 0
  · subst hzero
    rw [if_pos rfl, List.mem_filterMap]
    constructor
    · rintro ⟨⟨sw, port⟩, hmem, hsome⟩
      split at hsome
      · rename_i hup
        cases hsome
        obtain ⟨rfl, hup⟩ := hup
        exact ⟨hup, .inl ⟨rfl, ((hc.attached d hd _ _).mp hmem).2.2⟩⟩
      · cases hsome
    · rintro ⟨hup, ⟨-, hpeer⟩ | ⟨b, q, j, -, hj, -⟩⟩
      · have hport := (switchPortIsUp_iff.mp hup).1
        refine ⟨(a, p), (hc.attached d hd a p).mpr ⟨ha, hport, hpeer⟩, ?_⟩
        exact if_pos ⟨rfl, hup⟩
      · omega
  · rw [if_neg (by rwa [Option.some_inj]), List.mem_filterMap]
    constructor
    · rintro ⟨edge, hmem, hsome⟩
      split at hsome
      · rename_i hup
        cases hsome
        obtain ⟨hup, hfound, hcloser⟩ := hup
        obtain ⟨hport, q, hpeer⟩ := mem_adjacency.mp hmem
        obtain ⟨j, hj⟩ := Option.ne_none_iff_exists'.mp hfound
        rw [hj] at hcloser
        exact ⟨hup, .inr ⟨_, q, j, hpeer, (Option.some.inj hcloser).symm, (distances_eq_some hc hd).mp hj⟩⟩
      · cases hsome
    · rintro ⟨hup, ⟨hk, -⟩ | ⟨b, q, j, hpeer, rfl, hnext⟩⟩
      · exact absurd hk hzero
      · have hport := (switchPortIsUp_iff.mp hup).1
        have hj := (distances_eq_some hc hd).mpr hnext
        refine ⟨⟨b, p⟩, mem_adjacency.mpr ⟨hport, q, hpeer⟩, ?_⟩
        rw [if_pos]
        dsimp only
        rw [hj]
        exact ⟨hup, Option.some_ne_none j, rfl⟩

theorem exists_nearPort (hc : c.Wf) (hd : d < c.numEndpoints) (hnear : c.Nearest d a k) :
    ∃ p, NearPort c d a k p := by
  cases hnear.leads with
  | here hattached =>
      obtain ⟨p, hmem, hup⟩ := hattached
      exact ⟨p, hup, .inl ⟨rfl, ((hc.attached d hd a p).mp hmem).2.2⟩⟩
  | @link _ b j hlink hleads =>
      obtain ⟨ha, p, q, hup, hpeer⟩ := hlink
      refine ⟨p, hup, .inr ⟨b, q, j, hpeer, rfl, hleads, fun i hi => ?_⟩⟩
      have hleast := hnear.least (i + 1) (.link ⟨ha, p, q, hup, hpeer⟩ hi)
      omega

/-! ## Tables -/

/-- What the tables of a switch have for the first `n` destinations. -/
structure Tables (c : Cluster) (n a : Nat) (s : NvSwitch) : Prop where
  joined : ∀ d < n, a < c.numSwitches → c.Joined d a →
    s.sprayPortsTable (c.mac d) = some (outputPorts c d (distances c d) a)
  apart : ∀ d < n, ¬ (a < c.numSwitches ∧ c.Joined d a) → s.sprayPortsTable (c.mac d) = none
  static : ∀ d < n, ∀ p, s.macTable (c.mac d) = some p → c.Joined d a
  others : ∀ addr, (∀ d < n, c.mac d ≠ addr) → s.sprayPortsTable addr = none ∧ s.macTable addr = none
  flags : s.sourceBasedRoutingEnabled = false ∧ s.sprayRoutingEnabled = true ∧
    s.failureAwareRoutingEnabled = true

theorem Tables.route {n : Nat} {r : Routed} (h : Tables c n a (r.switches a)) (hc : c.Wf)
    (hn : n < c.numEndpoints) : Tables c (n + 1) a ((routeDestination c r n).switches a) := by
  have hfresh : ∀ d < n, c.mac d ≠ c.mac n := by
    intro d hd heq
    have := hc.macs d (by omega) n hn heq
    omega
  obtain ⟨hspray, hmac⟩ := h.others (c.mac n) hfresh
  show Tables c (n + 1) a (if a < c.numSwitches ∧ distances c n a ≠ none then
    (r.switches a).addRoutes (c.mac n) (outputPorts c n (distances c n) a) else r.switches a)
  split
  · rename_i hfound
    obtain ⟨ha, hdist⟩ := hfound
    have hjoined : c.Joined n a := by
      by_contra hapart
      exact hdist ((distances_eq_none hc hn).mpr hapart)
    obtain ⟨k, hnear⟩ := hjoined.exists_nearest
    obtain ⟨p, hp⟩ := exists_nearPort hc hn hnear
    have hmem := (mem_outputPorts hc hn ha hnear).mpr hp
    obtain ⟨port, ports, hports⟩ : ∃ port ports, outputPorts c n (distances c n) a = port :: ports :=
      List.exists_cons_of_ne_nil (List.ne_nil_of_mem hmem)
    rw [hports]
    have hspray' : ∀ addr, addr ≠ c.mac n →
        ((r.switches a).addRoutes (c.mac n) (port :: ports)).sprayPortsTable addr =
          (r.switches a).sprayPortsTable addr := fun addr hne => Function.update_of_ne hne _ _
    have hmac' : ∀ addr, addr ≠ c.mac n →
        ((r.switches a).addRoutes (c.mac n) (port :: ports)).macTable addr =
          (r.switches a).macTable addr := fun addr hne => Function.update_of_ne hne _ _
    refine ⟨?_, ?_, ?_, ?_, h.flags⟩
    · intro d hd _ hj
      by_cases hlast : d = n
      · rw [hlast, hports]
        exact Function.update_self _ _ _
      · rw [hspray' _ (hfresh d (by omega))]
        exact h.joined d (by omega) ha hj
    · intro d hd hapart
      by_cases hlast : d = n
      · rw [hlast] at hapart
        exact absurd ⟨ha, hjoined⟩ hapart
      · rw [hspray' _ (hfresh d (by omega))]
        exact h.apart d (by omega) hapart
    · intro d hd q hq
      by_cases hlast : d = n
      · rw [hlast]
        exact hjoined
      · rw [hmac' _ (hfresh d (by omega))] at hq
        exact h.static d (by omega) q hq
    · intro addr hother
      have hne : addr ≠ c.mac n := (hother n (Nat.lt_succ_self n)).symm
      rw [hspray' addr hne, hmac' addr hne]
      exact h.others addr fun d hd => hother d (by omega)
  · rename_i hmissing
    have hapart : ¬ (a < c.numSwitches ∧ c.Joined n a) := by
      rintro ⟨ha, hjoined⟩
      refine hmissing ⟨ha, fun hnone => ?_⟩
      exact (distances_eq_none hc hn).mp hnone hjoined
    refine ⟨?_, ?_, ?_, ?_, h.flags⟩
    · intro d hd ha hj
      by_cases hlast : d = n
      · rw [hlast] at hj
        exact absurd ⟨ha, hj⟩ hapart
      · exact h.joined d (by omega) ha hj
    · intro d hd hapart'
      by_cases hlast : d = n
      · rw [hlast]
        exact hspray
      · exact h.apart d (by omega) hapart'
    · intro d hd q hq
      by_cases hlast : d = n
      · rw [hlast, hmac] at hq
        cases hq
      · exact h.static d (by omega) q hq
    · exact fun addr hother => h.others addr fun d hd => hother d (by omega)

/-! ## Unreachable pairs -/

/-- Two endpoints are connected by links that are up. -/
def Cluster.Connected (c : Cluster) (s d : Nat) : Prop := ∃ a, c.AttachedUp s a ∧ c.Joined d a

theorem reachableFrom_iff (hc : c.Wf) (hd : d < c.numEndpoints) {s : Nat} :
    reachableFrom c (distances c d) s = true ↔ c.Connected s d := by
  have hsome : ∀ a, (distances c d a).isSome = true ↔ c.Joined d a := by
    intro a
    rw [← not_iff_not, ← distances_eq_none hc hd, Bool.not_eq_true, Option.isSome_eq_false_iff,
      Option.isNone_iff_eq_none]
  unfold reachableFrom
  simp only [List.any_eq_true, Bool.and_eq_true, hsome]
  constructor
  · rintro ⟨⟨sw, port⟩, hmem, hup, hjoined⟩
    exact ⟨sw, ⟨port, hmem, hup⟩, hjoined⟩
  · rintro ⟨sw, ⟨port, hmem, hup⟩, hjoined⟩
    exact ⟨(sw, port), hmem, hup, hjoined⟩

/-- The sources of a destination that are counted. -/
def countedSources (c : Cluster) (d : Nat) : Finset Nat :=
  (Finset.range c.numEndpoints).filter fun s =>
    c.rank s ≠ c.rank d ∧ reachableFrom c (distances c d) s = false

theorem unreachableSources_eq (c : Cluster) (d : Nat) :
    unreachableSources c (distances c d) d = (countedSources c d).card := by
  unfold unreachableSources countedSources
  induction c.numEndpoints with
  | zero => rfl
  | succ n ih =>
      rw [List.range_succ, List.foldl_append, List.foldl_cons, List.foldl_nil, ih, Finset.range_add_one,
        Finset.filter_insert]
      by_cases hsame : c.rank n = c.rank d
      · rw [if_pos hsame, if_neg fun h => h.1 hsame]
      · rw [if_neg hsame]
        by_cases hreach : reachableFrom c (distances c d) n = true
        · rw [if_pos hreach, if_neg fun h => by simp [hreach] at h]
        · rw [if_neg hreach, if_pos ⟨hsame, Bool.eq_false_of_not_eq_true hreach⟩,
            Finset.card_insert_of_notMem]
          simp

theorem recompute_first (hc : c.Wf) (switches : Nat → NvSwitch) (n : Nat) (hn : n ≤ c.numEndpoints) :
    let r := (List.range n).foldl (routeDestination c)
      { switches := fun sw =>
          { (switches sw).clearRoutingTables with
            sourceBasedRoutingEnabled := false
            sprayRoutingEnabled := true
            failureAwareRoutingEnabled := true }
        unreachableGpuPairs := 0 }
    (∀ a, Tables c n a (r.switches a)) ∧
      r.unreachableGpuPairs = ∑ d ∈ Finset.range n, (countedSources c d).card := by
  induction n with
  | zero =>
      refine ⟨fun a => ⟨?_, ?_, ?_, fun _ _ => ⟨rfl, rfl⟩, rfl, rfl, rfl⟩, rfl⟩
      · exact fun d hd => absurd hd (Nat.not_lt_zero d)
      · exact fun d hd => absurd hd (Nat.not_lt_zero d)
      · exact fun d hd => absurd hd (Nat.not_lt_zero d)
  | succ n ih =>
      obtain ⟨htables, hpairs⟩ := ih (by omega)
      rw [List.range_succ, List.foldl_append]
      refine ⟨fun a => (htables a).route hc (by omega), ?_⟩
      rw [Finset.sum_range_succ, ← hpairs, ← unreachableSources_eq]
      rfl

theorem recompute_tables (hc : c.Wf) (switches : Nat → NvSwitch) (a : Nat) :
    Tables c c.numEndpoints a ((recomputeFailureAwareRoutes c switches).switches a) :=
  (recompute_first hc switches _ (Nat.le_refl _)).1 a

/-- The pairs that are counted. -/
def countedPairs (c : Cluster) : Finset (Nat × Nat) :=
  (Finset.range c.numEndpoints).biUnion fun d => (countedSources c d).image fun s => (s, d)

theorem card_countedPairs (hc : c.Wf) (switches : Nat → NvSwitch) :
    (countedPairs c).card = (recomputeFailureAwareRoutes c switches).unreachableGpuPairs := by
  rw [show (recomputeFailureAwareRoutes c switches).unreachableGpuPairs = _ from
    (recompute_first hc switches _ (Nat.le_refl _)).2]
  unfold countedPairs
  rw [Finset.card_biUnion]
  · refine Finset.sum_congr rfl fun d _ => Finset.card_image_of_injective _ fun s s' heq => ?_
    exact congrArg Prod.fst heq
  · intro d _ d' _ hne
    show Disjoint _ _
    rw [Finset.disjoint_left]
    intro pair hpair hpair'
    obtain ⟨s, -, rfl⟩ := Finset.mem_image.mp hpair
    obtain ⟨s', -, heq⟩ := Finset.mem_image.mp hpair'
    exact hne (congrArg Prod.snd heq).symm

theorem mem_countedPairs (hc : c.Wf) {pair : Nat × Nat} : pair ∈ countedPairs c ↔
    pair.1 < c.numEndpoints ∧ pair.2 < c.numEndpoints ∧ c.rank pair.1 ≠ c.rank pair.2 ∧
      ¬ c.Connected pair.1 pair.2 := by
  obtain ⟨s, d⟩ := pair
  unfold countedPairs countedSources
  simp only [Finset.mem_biUnion, Finset.mem_range, Finset.mem_image, Finset.mem_filter, Prod.mk.injEq]
  constructor
  · rintro ⟨d', hd, s', ⟨hs, hrank, hreach⟩, rfl, rfl⟩
    refine ⟨hs, hd, hrank, fun hconn => ?_⟩
    rw [(reachableFrom_iff hc hd).mpr hconn] at hreach
    cases hreach
  · rintro ⟨hs, hd, hrank, hconn⟩
    refine ⟨d, hd, s, ⟨hs, hrank, ?_⟩, rfl, rfl⟩
    exact Bool.eq_false_of_not_eq_true fun hreach => hconn ((reachableFrom_iff hc hd).mp hreach)

end ProtoBridge.Switch
