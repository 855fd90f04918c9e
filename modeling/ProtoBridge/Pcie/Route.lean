import ProtoBridge.Pcie.Steps

/-!
# Links and routes

`Topo.Wf` is what `AddLink` guarantees about the ports of a fabric: they come in
opposite pairs between distinct nodes, each node lists exactly its own, and no
two lead to the same neighbour. Routing answers with ports of the asking node.
-/

namespace ProtoBridge.Pcie

open Fabric

/-- The ports of a fabric are consistent. -/
structure Fabric.Topo.Wf (t : Topo) : Prop where
  mem_ports : ∀ n p, p ∈ t.ports n ↔ p < t.numPorts ∧ t.src p = n
  nodup : ∀ n, (t.ports n).Nodup
  src_lt : ∀ p, p < t.numPorts → t.src p < t.numNodes
  rev_lt : ∀ p, p < t.numPorts → t.reverse p < t.numPorts
  rev_rev : ∀ p, p < t.numPorts → t.reverse (t.reverse p) = p
  rev_src : ∀ p, p < t.numPorts → t.src (t.reverse p) = t.dst p
  rev_dst : ∀ p, p < t.numPorts → t.dst (t.reverse p) = t.src p
  irrefl : ∀ p, p < t.numPorts → t.src p ≠ t.dst p
  simple : ∀ p q, p < t.numPorts → q < t.numPorts → t.src p = t.src q → t.dst p = t.dst q → p = q

namespace Fabric.Topo.Wf

variable {t : Topo} (h : t.Wf)

include h

theorem dst_lt {p : Nat} (hp : p < t.numPorts) : t.dst p < t.numNodes := by
  rw [← h.rev_src p hp]
  exact h.src_lt _ (h.rev_lt p hp)

end Fabric.Topo.Wf

/-! ## The search stays at the source -/

section Search

variable {t : Topo} {src target : Nat}

/-- Every hop recorded so far is a port of the source. -/
def HopsFrom (t : Topo) (src : Nat) (first : Nat → Option Nat) : Prop :=
  ∀ m q, first m = some q → q ∈ t.ports src

theorem scanPorts_hops (target : Nat) {node : Nat} : ∀ (ps : List Nat) (first : Nat → Option Nat) (q : List Nat),
    (∀ p ∈ ps, p ∈ t.ports node) → HopsFrom t src first →
    match t.scanPorts src target node ps first q with
    | .ok (first', _) => HopsFrom t src first'
    | .error hop => ∀ p, hop = some p → p ∈ t.ports src := by
  intro ps
  induction ps with
  | nil => intro first q _ hfirst; exact hfirst
  | cons p ps ih =>
      intro first q hps hfirst
      have hhop : ∀ x, (if node = src then some p else first node) = some x → x ∈ t.ports src := by
        intro x hx
        split at hx
        · rename_i heq
          cases hx
          exact heq ▸ hps p List.mem_cons_self
        · exact hfirst _ _ hx
      have hps' : ∀ x ∈ ps, x ∈ t.ports node := fun x hx => hps x (List.mem_cons_of_mem p hx)
      simp only [Topo.scanPorts]
      by_cases hseen : t.dst p = src ∨ (first (t.dst p)).isSome
      · simp only [hseen, ↓reduceIte]
        exact ih first q hps' hfirst
      · simp only [hseen, ↓reduceIte]
        by_cases htarget : t.dst p = target
        · simp only [htarget, ↓reduceIte]
          exact hhop
        · simp only [htarget, ↓reduceIte]
          refine ih _ _ hps' fun m x hx => ?_
          by_cases hm : m = t.dst p
          · subst hm
            rw [Function.update_self] at hx
            exact hhop x hx
          · rw [Function.update_of_ne hm] at hx
            exact hfirst m x hx

theorem search_hops : ∀ (fuel : Nat) (first : Nat → Option Nat) (q : List Nat) (p : Nat),
    HopsFrom t src first → t.search src target fuel first q = some p → p ∈ t.ports src := by
  intro fuel
  induction fuel with
  | zero => intro first q p _ h; cases h
  | succ fuel ih =>
      intro first q p hfirst h
      cases q with
      | nil => cases h
      | cons node q =>
          have hscan := scanPorts_hops target (t.ports node) first q (fun _ hx => hx) hfirst
          simp only [Topo.search] at h
          cases hs : t.scanPorts src target node (t.ports node) first q with
          | error hop =>
              rw [hs] at h hscan
              exact hscan p h
          | ok r =>
              rw [hs] at h hscan
              exact ih r.1 r.2 p hscan h

theorem Fabric.Topo.route_mem {p : Nat} (h : t.route src target = some p) : p ∈ t.ports src :=
  search_hops _ _ _ p (fun _ _ h => by cases h) h

end Search

end ProtoBridge.Pcie
