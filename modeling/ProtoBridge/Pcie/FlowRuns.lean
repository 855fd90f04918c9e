import ProtoBridge.Pcie.Order

/-!
# Runs of the flow

A run of the fabric is a run of its flow, whose steps neither lose a frame nor make two of one.
-/

namespace ProtoBridge.Pcie

open Lib Fabric Relation

namespace Flow

variable {d d' : Flow}

/-- The serials of the TLPs that were created. -/
def created (trace : List Obs) : List Nat :=
  trace.filterMap fun
    | .created f => some f.serial
    | _ => none

/-- The serials of the frames that were received. -/
def received (trace : List Obs) : List Nat :=
  trace.filterMap fun
    | .received f => some f.serial
    | _ => none

/-- The serials of the frames under way. -/
def travelling (d : Flow) : Multiset Nat :=
  d.parked.map (fun x => x.2.serial) + d.flights.map (fun x => x.frame.serial) +
    d.hand.elim 0 fun x => {x.2.serial}

/-- Each TLP that was created is under way or was received, and it is so once. -/
structure Conserved (d : Flow) : Prop where
  total : (created d.trace : Multiset Nat) = d.travelling + received d.trace
  fresh : ∀ serial ∈ created d.trace, serial < d.nextOrder
  once : (created d.trace).Nodup

theorem Conserved.carry (h : d.Conserved) (hc : created d'.trace = created d.trace)
    (ho : d.nextOrder ≤ d'.nextOrder)
    (ht : d'.travelling + received d'.trace = d.travelling + received d.trace) : d'.Conserved where
  total := by rw [hc, ht, h.total]
  fresh serial hs := (h.fresh serial (hc ▸ hs)).trans_le ho
  once := hc ▸ h.once

theorem Conserved.create {f : Frame} (h : d.Conserved) (hserial : f.serial = d.nextOrder) :
    Conserved { d with
      nextOrder := d.nextOrder + 1
      parked := d.parked + {(f.source, f)}
      trace := d.trace ++ [.created f] } := by
  have hcreated : created (d.trace ++ [.created f]) = created d.trace ++ [d.nextOrder] := by
    simp [created, hserial]
  refine ⟨?_, ?_, ?_⟩
  · rw [hcreated, ← Multiset.coe_add, h.total]
    simp only [travelling, received, Multiset.map_add, Multiset.map_singleton, hserial,
      Multiset.coe_singleton, List.filterMap_append, List.filterMap_cons, List.filterMap_nil,
      List.append_nil]
    ac_rfl
  · rw [hcreated]
    intro serial hs
    rcases List.mem_append.mp hs with hs | hs
    · exact Nat.lt_succ_of_lt (h.fresh serial hs)
    · rw [List.mem_singleton.mp hs]
      exact Nat.lt_succ_self _
  · rw [hcreated]
    exact List.concat_eq_append ▸ h.once.concat fun hs => absurd (h.fresh _ hs) (lt_irrefl _)

/-- **Every step keeps the frames.** -/
theorem Step.conserved (h : Step d d') (hd : d.Conserved) : d'.Conserved := by
  cases h with
  | build => exact hd.carry rfl le_rfl rfl
  | @note o hc hr =>
      cases o with
      | created f => exact absurd rfl (hc f)
      | received f => exact absurd rfl (hr f)
      | _ => exact hd.carry (by simp [created]) le_rfl (by simp [travelling, received])
  | create hserial => exact hd.create hserial
  | @send n f p due m hm =>
      refine hd.carry rfl le_rfl ?_
      simp only [travelling, hm, Multiset.map_add, Multiset.map_singleton, onLink]
      ac_rfl
  | @arrive p t f m hhand hm =>
      refine hd.carry rfl le_rfl ?_
      simp only [travelling, hm, hhand, Multiset.map_add, Multiset.map_singleton, Option.elim]
      ac_rfl
  | @forward p f ready hhand =>
      refine hd.carry rfl (Nat.le_succ _) ?_
      simp only [travelling, hhand, Multiset.map_add, Multiset.map_singleton, Option.elim]
      ac_rfl
  | @receive p f hhand =>
      refine hd.carry (by simp [created]) le_rfl ?_
      simp only [travelling, received, hhand, Option.elim, List.filterMap_append,
        List.filterMap_cons, List.filterMap_nil, ← Multiset.coe_add, Multiset.coe_singleton]
      ac_rfl

end Flow

/-- What a run maintains about its frames. -/
structure Snap.Flows (s : Snap) : Prop where
  inOrder : s.InOrder
  run : ∃ c, ReflTransGen Flow.Step (Snap.flow ⟨{ config := c }, none⟩) s.flow

theorem Micro.flows {env : Env} {s s' : Snap} (h : Micro env s s') (hwf : s.Wf) (hs : s.Flows) :
    s'.Flows := by
  refine ⟨h.inOrder hwf hs.inOrder, ?_⟩
  obtain ⟨c, hrun⟩ := hs.run
  rcases h.flow hwf hs.inOrder.clock with heq | hstep
  · exact ⟨c, heq ▸ hrun⟩
  · exact ⟨c, hrun.tail hstep⟩

theorem Snap.Flows.conserved {s : Snap} (h : s.Flows) : s.flow.Conserved := by
  obtain ⟨c, hrun⟩ := h.run
  refine star_preserves (fun _ _ hd hstep => hstep.conserved hd) hrun ⟨?_, ?_, ?_⟩
  · simp [Snap.flow, Flow.created, Flow.received, Flow.travelling, Snap.total_none, Fabric.total,
      live, lost, wires]
  · simp [Snap.flow, Flow.created]
  · simp [Snap.flow, Flow.created]

theorem fabric_flows (env : Env) : (machine env).Invariant fun σ => Snap.Flows ⟨σ, none⟩ := by
  intro σ hreach
  exact (fabric_invariant (P := Snap.Flows) (fun c _ => ⟨.initial c, c, .refl⟩)
    (fun _ _ hwf hs hm => hm.flows hwf hs) σ hreach).2

/-- **The fabric refines its flow over whole runs.** What travels in a reachable fabric comes from an
empty one by steps of the flow. -/
theorem fabric_refines_flow (env : Env) : (machine env).Invariant fun σ =>
    ∃ c, ReflTransGen Flow.Step (Snap.flow ⟨{ config := c }, none⟩) (Snap.flow ⟨σ, none⟩) :=
  fun σ hreach => (fabric_flows env σ hreach).run

/-- **No TLP is lost, and none is received twice.** The TLPs that were created are, once each, those
under way and those received, and one that is received is the one that was created. -/
theorem tlps_conserved (env : Env) : (machine env).Invariant fun σ =>
    (Flow.created σ.trace).Nodup ∧
    (Flow.created σ.trace : Multiset Nat) =
      (Snap.flow ⟨σ, none⟩).travelling + Flow.received σ.trace ∧
    ∀ g, .received g ∈ σ.trace → ∃ f, .created f ∈ σ.trace ∧ g.Same f := by
  intro σ hreach
  have h := fabric_flows env σ hreach
  exact ⟨h.conserved.once, h.conserved.total, h.inOrder.recorded.arrived⟩

end ProtoBridge.Pcie
