import ProtoBridge.Pcie.Routing
import ProtoBridge.Pcie.Steady

/-!
# The cache of `Route`

`Router` is a fabric with the cache `routes`: an answer is stored when it is first
asked for, and `AddLink` forgets all of them. No other action of the fabric
touches a link (`exec_topo`), so what is stored stays what a new search finds.
-/

namespace ProtoBridge.Pcie

open Lib Fabric

/-! ## Construction -/

theorem addNode_topo {σ σ' : Fabric} {k : NodeKind} (h : σ.topo.Wf) (added : σ.addNode k = .ok σ') :
    σ'.topo.ports = σ.topo.ports ∧ σ'.topo.dst = σ.topo.dst ∧
      σ'.topo.numNodes = σ.topo.numNodes + 1 := by
  obtain ⟨-, rfl⟩ := addNode_spec added
  refine ⟨funext fun n => ?_, rfl, rfl⟩
  by_cases new : n = σ.numNodes
  · subst new
    have bare : σ.topo.ports σ.numNodes = [] := h.ports_eq_nil le_rfl
    rw [bare]
    show (Function.update σ.nodes σ.numNodes (newNode σ.config k) σ.numNodes).ports = []
    rw [Function.update_self]
    cases k <;> rfl
  · show (Function.update σ.nodes σ.numNodes (newNode σ.config k) n).ports = (σ.nodes n).ports
    rw [Function.update_of_ne new]

/-! ## The cache -/

/-- A fabric with the answers its `Route` remembers. -/
structure Router where
  fab : Fabric
  routes : Nat × Nat → Option Nat := fun _ => none

namespace Router

/-- `Route`: a remembered answer, or the search, whose answer is remembered. -/
def route (r : Router) (src target : Nat) : Except Abort (Nat × Router) :=
  match r.routes (src, target) with
  | some p => .ok (p, r)
  | none =>
      match r.fab.topo.route src target with
      | some p => .ok (p, { r with routes := Function.update r.routes (src, target) (some p) })
      | none => .error .noRoute

/-- The fabric acts, or `Route` is called. -/
inductive Act
  | fabric (a : Fabric.Act)
  | ask (src target : Nat)

/-- `routes.clear()` of `AddLink`. -/
def keep (r : Router) : Fabric.Act → Nat × Nat → Option Nat
  | .addLink _ _ => fun _ => none
  | _ => r.routes

def exec (env : Env) (r : Router) : Act → Except Abort Router
  | .fabric a => do
      let fab ← r.fab.exec env a
      return ⟨fab, r.keep a⟩
  | .ask src target => do
      let (_, r) ← r.route src target
      return r

def enabled (r : Router) : Act → Prop
  | .fabric a => r.fab.enabled a
  | .ask _ _ => True

instance (r : Router) : (a : Act) → Decidable (r.enabled a)
  | .fabric a => inferInstanceAs (Decidable (r.fab.enabled a))
  | .ask _ _ => .isTrue trivial

/-- Any run of a fabric, with calls of `Route` at any point of it. -/
def machine (env : Env) : Machine Router Act Abort where
  init r := (Pcie.machine env).init r.fab ∧ r.routes = fun _ => none
  enabled := enabled
  exec := exec env

instance (env : Env) (r : Router) (a : Act) : Decidable ((machine env).enabled r a) :=
  inferInstanceAs (Decidable (r.enabled a))

/-- Every remembered answer is what a new search finds. -/
def Fresh (r : Router) : Prop :=
  ∀ src target p, r.routes (src, target) = some p → r.fab.topo.route src target = some p

theorem Fresh.route {r r' : Router} (h : r.Fresh) {src target p : Nat}
    (asked : r.route src target = .ok (p, r')) : r'.fab = r.fab ∧ r'.Fresh := by
  unfold Router.route at asked
  cases known : r.routes (src, target) with
  | some q =>
      rw [known] at asked
      cases asked
      exact ⟨rfl, h⟩
  | none =>
      rw [known] at asked
      cases found : r.fab.topo.route src target with
      | none => rw [found] at asked; cases asked
      | some q =>
          rw [found] at asked
          cases asked
          refine ⟨rfl, fun s g x hx => ?_⟩
          dsimp only at hx
          by_cases same : (s, g) = (src, target)
          · cases same
            rw [Function.update_self] at hx
            cases hx
            exact found
          · rw [Function.update_of_ne same] at hx
            exact h s g x hx

theorem Fresh.answer {r : Router} (h : r.Fresh) (src target : Nat) :
    (r.route src target).map Prod.fst = r.fab.route src target := by
  unfold Router.route Fabric.route
  cases known : r.routes (src, target) with
  | some p => rw [h src target p known]; rfl
  | none => cases r.fab.topo.route src target <;> rfl

theorem Fresh.exec {env : Env} {r r' : Router} {a : Act} (wf : r.fab.topo.Wf) (h : r.Fresh)
    (ran : r.exec env a = .ok r') : r'.Fresh := by
  cases a with
  | ask src target =>
      obtain ⟨⟨p, q⟩, asked, done⟩ := bind_eq_ok.1 ran
      cases done
      exact (h.route asked).2
  | fabric a =>
      obtain ⟨fab, acted, done⟩ := bind_eq_ok.1 ran
      cases done
      intro src target p hp
      cases a with
      | addLink x y => cases hp
      | addNode k =>
          obtain ⟨ports, dst, more⟩ := addNode_topo wf acted
          exact route_congr ports dst (by omega) (h src target p hp)
      | submit q =>
          have same : fab.topo = r.fab.topo :=
            (exec_topo env r.fab (.submit q) (by simp) (by simp)).get acted
          rw [same]
          exact h src target p hp
      | advance t =>
          have same : fab.topo = r.fab.topo :=
            (exec_topo env r.fab (.advance t) (by simp) (by simp)).get acted
          rw [same]
          exact h src target p hp
      | fire i =>
          have same : fab.topo = r.fab.topo :=
            (exec_topo env r.fab (.fire i) (by simp) (by simp)).get acted
          rw [same]
          exact h src target p hp

theorem reachable_topo {env : Env} {σ : Fabric} (h : (Pcie.machine env).Reachable σ) :
    σ.topo.Wf :=
  (fabric_invariant (P := fun _ => True) (fun _ _ => trivial) (fun _ _ _ _ _ => trivial) σ h).1.topo

theorem reachable_fresh {env : Env} {r : Router} (h : (machine env).Reachable r) :
    (Pcie.machine env).Reachable r.fab ∧ r.Fresh := by
  induction h with
  | init start =>
      refine ⟨.init start.1, fun s g p hp => ?_⟩
      rw [start.2] at hp
      cases hp
  | @step r a r' _ en ran ih =>
      obtain ⟨reach, fresh⟩ := ih
      have wf : r.fab.topo.Wf := reachable_topo reach
      refine ⟨?_, fresh.exec wf ran⟩
      cases a with
      | ask src target =>
          obtain ⟨⟨p, q⟩, asked, done⟩ := bind_eq_ok.1 ran
          cases done
          rw [(fresh.route asked).1]
          exact reach
      | fabric a =>
          obtain ⟨fab, acted, done⟩ := bind_eq_ok.1 ran
          cases done
          exact .step reach en acted

/-! ## Forwarding -/

/-- A frame for `target` is forwarded from `here`, each node asking `Route`: the nodes it visits. -/
def forward (r : Router) (target fuel here : Nat) : Except Abort (List Nat × Router) :=
  if here = target then .ok ([here], r)
  else
    match fuel with
    | 0 => .error .pumpFuel
    | fuel + 1 => do
        let (p, r) ← r.route here target
        let (path, r) ← r.forward target fuel (r.fab.topo.dst p)
        return (here :: path, r)

/-- The way of a frame: a path of links to its target on which every node is nearer than those
before it. -/
structure Arrives (t : Topo) (src target : Nat) (path : List Nat) : Prop where
  head : path.head? = some src
  last : path.getLast? = some target
  links : path.IsChain t.graph.Adj
  length : path.length = t.graph.dist src target + 1
  nearer : ∀ n ∈ path, t.graph.dist n target ≤ t.graph.dist src target
  nodup : path.Nodup

theorem Arrives.cons {t : Topo} {src next target : Nat} {path : List Nat}
    (h : Arrives t next target path) (adj : t.graph.Adj src next)
    (step : t.graph.dist next target + 1 = t.graph.dist src target) :
    Arrives t src target (src :: path) := by
  obtain ⟨rest, rfl⟩ : ∃ rest, path = next :: rest := by
    have head := h.head
    cases path with
    | nil => cases head
    | cons x rest =>
        cases head
        exact ⟨rest, rfl⟩
  constructor
  · rfl
  · rw [List.getLast?_cons_cons]
    exact h.last
  · exact List.isChain_cons_cons.2 ⟨adj, h.links⟩
  · have length := h.length
    rw [List.length_cons]
    omega
  · intro n hn
    rcases List.mem_cons.1 hn with rfl | later
    · exact le_rfl
    · have near := h.nearer n later
      omega
  · refine List.nodup_cons.2 ⟨fun again => ?_, h.nodup⟩
    have near := h.nearer src again
    omega

theorem forward_target {r : Router} {target fuel : Nat} :
    r.forward target fuel target = .ok ([target], r) := by
  unfold Router.forward
  rw [if_pos rfl]

/-- Every hop comes one step nearer, so the frame arrives after as many hops as it is far. -/
theorem Fresh.forward {target : Nat} (fuel : Nat) : ∀ {r : Router} {here : Nat}, r.Fresh →
    r.fab.topo.Wf → r.fab.topo.graph.Reachable here target →
    r.fab.topo.graph.dist here target ≤ fuel →
    ∃ path r', r.forward target fuel here = .ok (path, r') ∧
      Arrives r.fab.topo here target path := by
  have there : ∀ (t : Topo), Arrives t target target [target] := by
    intro t
    constructor <;> simp
  induction fuel with
  | zero =>
      intro r here fresh wf reach enough
      obtain rfl := (reach.dist_eq_zero_iff).1 (Nat.le_zero.1 enough)
      exact ⟨_, _, forward_target, there _⟩
  | succ fuel ih =>
      intro r here fresh wf reach enough
      by_cases arrived : here = target
      · subst arrived
        exact ⟨_, _, forward_target, there _⟩
      · obtain ⟨p, found, begins⟩ := route_begins wf arrived reach
        obtain ⟨r', asked⟩ : ∃ r', r.route here target = .ok (p, r') := by
          have answer := fresh.answer here target
          rw [route_eq_ok.2 found] at answer
          cases result : r.route here target with
          | error e => rw [result] at answer; cases answer
          | ok a =>
              rw [result] at answer
              cases answer
              exact ⟨a.2, rfl⟩
        obtain ⟨same, fresh'⟩ := fresh.route asked
        have near := begins.dist
        obtain ⟨path, r'', rest, arrives⟩ := @ih r' (r.fab.topo.dst p) fresh'
          (same ▸ wf) (same ▸ begins.reach) (by rw [same]; omega)
        rw [same] at arrives
        have adj : r.fab.topo.graph.Adj here (r.fab.topo.dst p) :=
          (graph_adj wf).2 ⟨p, begins.mem, rfl⟩
        refine ⟨here :: path, r'', ?_, arrives.cons adj near⟩
        unfold Router.forward
        rw [if_neg arrived]
        show (r.route here target >>= _) = _
        rw [asked]
        show (r'.forward target fuel (r'.fab.topo.dst p) >>= _) = _
        rw [same, rest]
        rfl

/-- **Routing reaches every target.** `Route` answers with the first port of a shortest path, and
with what a new search answers; a frame forwarded by `Route` at every node arrives over a shortest
path, on which no node lies twice. -/
theorem routing_reaches_target (env : Env) {r : Router} (h : (machine env).Reachable r) :
    (∀ src target, (r.route src target).map Prod.fst = r.fab.route src target) ∧
      ∀ src target, src ≠ target → r.fab.topo.graph.Reachable src target →
        (∃ p, (r.route src target).map Prod.fst = .ok p ∧ p ∈ r.fab.topo.ports src ∧
          r.fab.topo.graph.Reachable (r.fab.topo.dst p) target ∧
          r.fab.topo.graph.dist (r.fab.topo.dst p) target + 1 =
            r.fab.topo.graph.dist src target) ∧
        ∀ fuel, r.fab.topo.graph.dist src target ≤ fuel →
          ∃ path r', r.forward target fuel src = .ok (path, r') ∧
            path.head? = some src ∧ path.getLast? = some target ∧
            path.IsChain r.fab.topo.graph.Adj ∧
            path.length = r.fab.topo.graph.dist src target + 1 ∧ path.Nodup := by
  obtain ⟨reach, fresh⟩ := reachable_fresh h
  have wf := reachable_topo reach
  refine ⟨fresh.answer, fun src target ne connected => ⟨?_, fun fuel enough => ?_⟩⟩
  · obtain ⟨p, found, begins⟩ := route_begins wf ne connected
    exact ⟨p, (fresh.answer src target).trans (route_eq_ok.2 found), begins.mem, begins.reach,
      begins.dist⟩
  · obtain ⟨path, r', forwarded, arrives⟩ := fresh.forward fuel wf connected enough
    exact ⟨path, r', forwarded, arrives.head, arrives.last, arrives.links, arrives.length,
      arrives.nodup⟩

/-! ## A square of switches -/

/-- Two ways from one endpoint to the other; the first is asked for, then a shorter one is built. -/
def squareRun : List Act :=
  [.fabric (.addNode (.endpoint true true)), .fabric (.addNode .switch),
    .fabric (.addNode .switch), .fabric (.addNode (.endpoint true true)),
    .fabric (.addLink 0 1), .fabric (.addLink 1 2), .fabric (.addLink 2 3), .ask 0 3,
    .fabric (.addLink 0 2), .ask 0 3, .ask 3 0]

theorem squareRun_links :
    ((machine tickEnv).runs ⟨{ config := {} }, fun _ => none⟩ squareRun).map
      (fun r => (r.fab.topo.ports 0, r.fab.topo.dst 6, r.fab.topo.ports 2, r.fab.topo.dst 4,
        r.routes (0, 3))) = some ([0, 6], 2, [3, 4, 7], 3, some 6) := by
  decide +kernel

theorem routing_reaches_target_squareRun :
    ∃ r, (machine tickEnv).Reachable r ∧ (r.route 0 3).map Prod.fst = .ok 6 ∧
      ∃ path r', r.forward 3 (r.fab.topo.graph.dist 0 3) 0 = .ok (path, r') ∧
        path.getLast? = some 3 ∧ path.Nodup := by
  obtain ⟨r, hreach, links⟩ := Machine.Reachable.exists_of_runs (M := machine tickEnv)
    ⟨⟨_, by constructor <;> decide, rfl, rfl⟩, rfl⟩ squareRun_links
  simp only [Prod.mk.injEq] at links
  obtain ⟨ports0, dst6, ports2, dst4, known⟩ := links
  obtain ⟨-, reaches⟩ := routing_reaches_target tickEnv hreach
  have wf := reachable_topo (reachable_fresh hreach).1
  have near : r.fab.topo.graph.Adj 0 2 := (graph_adj wf).2 ⟨6, by simp [ports0], dst6⟩
  have far : r.fab.topo.graph.Adj 2 3 := (graph_adj wf).2 ⟨4, by simp [ports2], dst4⟩
  obtain ⟨-, arrives⟩ := reaches 0 3 (by decide) (near.reachable.trans far.reachable)
  obtain ⟨path, r', forwarded, -, last, -, -, nodup⟩ := arrives _ le_rfl
  refine ⟨r, hreach, ?_, path, r', forwarded, last, nodup⟩
  unfold Router.route
  rw [known]
  rfl

end Router

end ProtoBridge.Pcie
