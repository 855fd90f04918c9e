import Mathlib.Data.Fintype.Basic
import Mathlib.Tactic.FinCases
import ProtoBridge.Pcie.Wf

/-!
# Credit conservation

The credits of a directed port are in one of five places: the sender's pool, a
frame on the link or in the buffer behind it, the receiver's pending returns, an
UpdateFC queued on the reverse direction, or that UpdateFC on the wire. `Ledger`
balances them; every step moves credits from one place to the next. A frame or
an UpdateFC whose arrival lies past the simulation horizon is discarded with its
credits, so the balance carries a term for those.
-/

namespace ProtoBridge.Pcie

open Lib Fabric
open Function (update_of_ne update_self)

/-- The credits of pool `c` that one TLP occupies. -/
def Header.credits (h : Header) (c : Fin 6) : Nat :=
  if c = creditClass h.type then 1 else if c = dataClass h.type then h.dataCredits else 0

/-- The DLLP a pending closure holds. -/
def EventKind.dllps : EventKind → Multiset Control
  | .controlArrive c => {c}
  | _ => 0

/-- Credits of pool `c` held by the frames that came in through port `p`. -/
def heldBy (m : Multiset Site) (p : Nat) (c : Fin 6) : Nat :=
  (m.map fun x => if x.frame.ingress = some p then x.frame.header.credits c else 0).sum

/-- Credits of pool `c` on their way back to port `p`. -/
def returning (m : Multiset Control) (p : Nat) (c : Fin 6) : Nat :=
  (m.map fun d => if d.ack = false ∧ d.forPort = p then d.credits c else 0).sum

namespace Fabric

/-- DLLPs queued or on the wire. -/
def dllps (σ : Fabric) : Multiset Control :=
  ∑ p ∈ Finset.range σ.numPorts, ((σ.ports p).control : Multiset Control) +
    (σ.events.map fun e => e.kind.dllps).sum

/-- DLLPs whose arrival was discarded at the horizon. -/
def lostDllps (σ : Fabric) : Multiset Control := (σ.dropped.map EventKind.dllps).sum

/-- All DLLPs sent and not yet received. -/
def allDllps (σ : Fabric) : Multiset Control := σ.dllps + σ.lostDllps

/-- Where the credits of port `p`, pool `c` are. -/
def creditSum (σ : Fabric) (p : Nat) (c : Fin 6) : Nat :=
  (σ.ports p).available c + (σ.ports p).pendingReturn c + returning σ.dllps p c + heldBy σ.live p c

/-- The credits of port `p`, pool `c` that went past the horizon. -/
def lostCredit (σ : Fabric) (p : Nat) (c : Fin 6) : Nat :=
  returning σ.lostDllps p c + heldBy σ.lost p c

end Fabric

/-! ## Sums over frames and DLLPs -/

@[simp] theorem heldBy_add (a b : Multiset Site) (p : Nat) (c : Fin 6) :
    heldBy (a + b) p c = heldBy a p c + heldBy b p c := by
  simp [heldBy]

@[simp] theorem heldBy_zero (p : Nat) (c : Fin 6) : heldBy 0 p c = 0 := rfl

@[simp] theorem heldBy_singleton (x : Site) (p : Nat) (c : Fin 6) :
    heldBy {x} p c = if x.frame.ingress = some p then x.frame.header.credits c else 0 := by
  simp [heldBy]

@[simp] theorem returning_add (a b : Multiset Control) (p : Nat) (c : Fin 6) :
    returning (a + b) p c = returning a p c + returning b p c := by
  simp [returning]

@[simp] theorem returning_zero (p : Nat) (c : Fin 6) : returning 0 p c = 0 := rfl

@[simp] theorem returning_singleton (d : Control) (p : Nat) (c : Fin 6) :
    returning {d} p c = if d.ack = false ∧ d.forPort = p then d.credits c else 0 := by
  simp [returning]

variable {p : Nat} {c : Fin 6} {σ : Fabric}

theorem returning_eq_zero {m : Multiset Control} (h : ∀ d ∈ m, d.forPort ≠ p)
    : returning m p c = 0 := by
  refine Multiset.sum_eq_zero fun v hv => ?_
  obtain ⟨d, hd, rfl⟩ := Multiset.mem_map.mp hv
  rw [if_neg fun hc => h d hd hc.2]

/-! ## Pool arithmetic -/

theorem creditClass_ne_dataClass (ty : TlpType) : creditClass ty ≠ dataClass ty := by
  cases ty <;> decide

variable {pool : Fin 6 → Nat} {h : Header} {env : Env}

theorem addCredits_apply (hlt : ∀ c, pool c + h.credits c < 2 ^ 32)
    : addCredits pool h c = pool c + h.credits c := by
  have hne := creditClass_ne_dataClass h.type
  have hc := hlt (creditClass h.type)
  have hd := hlt (dataClass h.type)
  simp only [Header.credits, hne.symm, ↓reduceIte] at hc hd
  by_cases h1 : c = dataClass h.type
  · subst h1
    simp [addCredits, Header.credits, hne.symm, wadd_eq hd]
  · by_cases h2 : c = creditClass h.type
    · subst h2
      simp [addCredits, Header.credits, h1, wadd_eq hc]
    · simp [addCredits, Header.credits, h1, h2]

theorem subCredits_apply (hle : ∀ c, h.credits c ≤ pool c) (hlt : ∀ c, pool c < 2 ^ 32)
    : subCredits pool h c + h.credits c = pool c := by
  have hne := creditClass_ne_dataClass h.type
  have hc := hle (creditClass h.type)
  have hd := hle (dataClass h.type)
  simp only [Header.credits, hne.symm, ↓reduceIte] at hc hd
  by_cases h1 : c = dataClass h.type
  · subst h1
    simp only [subCredits, Header.credits, hne.symm, ↓reduceIte, update_self,
      wsub_eq hd (hlt _)]
    omega
  · by_cases h2 : c = creditClass h.type
    · subst h2
      simp only [subCredits, Header.credits, ↓reduceIte, update_of_ne h1,
        update_self, wsub_eq hc (hlt _)]
      omega
    · simp [subCredits, Header.credits, h1, h2]

theorem Fabric.credits_le_of_eligible {f : Frame} (h : σ.eligible p f = true) (c : Fin 6)
    : f.header.credits c ≤ (σ.ports p).available c := by
  simp only [eligible, hasCredit, Bool.and_eq_true, bne_iff_ne, decide_eq_true_eq] at h
  obtain ⟨⟨-, hhead, hdata⟩, -⟩ := h
  unfold Header.credits
  split
  · rename_i hc
    rw [hc]
    exact Nat.one_le_iff_ne_zero.mpr hhead
  · split
    · rename_i hc
      rw [hc]
      exact hdata
    · exact Nat.zero_le _

/-! ## Balances of the DLLPs -/

namespace Fabric

variable {σ : Fabric}

variable {g : Port → Port}

theorem allDllps_modPort (hp : p < σ.numPorts) :
    (σ.modPort p g).allDllps + (σ.ports p).control =
      σ.allDllps + ((g (σ.ports p)).control : Multiset Control) := by
  have h := sum_update_balance (f := σ.ports) (a := g (σ.ports p))
    (fun _ port => (port.control : Multiset Control)) (Finset.mem_range.mpr hp)
  exact balance_frame (balance_frame h _) _

theorem allDllps_modPort_same (h : (g (σ.ports p)).control = (σ.ports p).control) :
    (σ.modPort p g).allDllps = σ.allDllps := by
  have hsum := sum_update_same (s := Finset.range σ.numPorts) (f := σ.ports)
    (fun _ port => (port.control : Multiset Control))
    (show ((g (σ.ports p)).control : Multiset Control) = (σ.ports p).control by rw [h])
  simp only [allDllps, dllps, lostDllps, modPort]
  rw [hsum]

theorem allDllps_schedule (σ : Fabric) (d : Nat) (k : EventKind) :
    (σ.schedule d k).allDllps = σ.allDllps + k.dllps := by
  simp only [allDllps, dllps, lostDllps, schedule]
  by_cases hd : d < timeMax - σ.now
  · simp only [hd, ↓reduceIte, List.map_append, List.map_cons, List.map_nil, List.sum_append,
      List.sum_cons, List.sum_nil, add_zero]
    ac_rfl
  · simp only [hd, ↓reduceIte, List.map_append, List.map_cons, List.map_nil, List.sum_append,
      List.sum_cons, List.sum_nil, add_zero]
    ac_rfl

theorem allDllps_popEvent {i : Nat} {e : Event} (h : σ.Due i e) :
    (σ.popEvent i e).allDllps + e.kind.dllps = σ.allDllps := by
  have hsum := sum_eraseIdx_add (fun e : Event => e.kind.dllps) h.1
  simp only [allDllps, dllps, lostDllps, popEvent]
  rw [add_right_comm, add_assoc (∑ _ ∈ _, _), hsum]

theorem allDllps_cancel {is : EventKind → Bool} (h : ∀ k, is k = true → k.dllps = 0)
    : (σ.cancel is).allDllps = σ.allDllps := by
  have hsum := sum_filter_of_zero (fun e : Event => e.kind.dllps) (fun e => !is e.kind)
    (l := σ.events) (fun e _ he => h e.kind (by simpa using he))
  simp only [allDllps, dllps, lostDllps, cancel, hsum]

end Fabric

/-! ## The ledger -/

/-- The ledger of a fabric whose frames are the bag `m`. -/
structure Ledger (σ : Fabric) (m : Multiset Site) : Prop where
  control_in : ∀ p, (σ.ports p).control ≠ [] → p < σ.numPorts
  ack_in : ∀ p, (σ.ports p).ackCount ≠ 0 → p < σ.numPorts
  fc_in : ∀ e ∈ σ.events, ∀ p, e.kind = .fcEvent p → p < σ.numPorts
  addressed : ∀ d ∈ σ.allDllps, d.forPort < σ.numPorts
  balance : ∀ p < σ.numPorts, ∀ c, (σ.ports p).available c + (σ.ports p).pendingReturn c +
    returning σ.allDllps p c + heldBy m p c = σ.config.credits c

namespace Ledger

variable {σ σ' : Fabric} {m m' : Multiset Site}

theorem of_eq (h : Ledger σ m) (hp : σ'.ports = σ.ports) (he : σ'.events = σ.events)
    (hd : σ'.dropped = σ.dropped) (hn : σ'.numPorts = σ.numPorts) (hc : σ'.config = σ.config) :
    Ledger σ' m := by
  have hall : σ'.allDllps = σ.allDllps := by
    simp only [allDllps, dllps, lostDllps, hp, he, hd, hn]
  refine ⟨?_, ?_, ?_, ?_, ?_⟩
  · rw [hp, hn]; exact h.control_in
  · rw [hp, hn]; exact h.ack_in
  · rw [he, hn]; exact h.fc_in
  · rw [hall, hn]; exact h.addressed
  · rw [hp, hn, hall, hc]; exact h.balance

theorem of_held (h : Ledger σ m) (hm : ∀ p c, heldBy m' p c = heldBy m p c) : Ledger σ m' :=
  ⟨h.control_in, h.ack_in, h.fc_in, h.addressed, fun p hp c => by
    rw [hm]; exact h.balance p hp c⟩

variable {p : Nat}

theorem modPort (h : Ledger σ m) {g : Port → Port}
    (hav : (g (σ.ports p)).available = (σ.ports p).available)
    (hpend : (g (σ.ports p)).pendingReturn = (σ.ports p).pendingReturn)
    (hctl : (g (σ.ports p)).control = (σ.ports p).control)
    (hack : (g (σ.ports p)).ackCount ≠ 0 → p < σ.numPorts) : Ledger (σ.modPort p g) m := by
  have hall : (σ.modPort p g).allDllps = σ.allDllps := allDllps_modPort_same hctl
  refine ⟨fun q hq => ?_, fun q hq => ?_, h.fc_in, hall ▸ h.addressed, fun q hq c => ?_⟩
  · by_cases heq : q = p
    · subst heq
      rw [modPort_ports, update_self, hctl] at hq
      exact h.control_in q hq
    · rw [modPort_ports, update_of_ne heq] at hq
      exact h.control_in q hq
  · by_cases heq : q = p
    · subst heq
      rw [modPort_ports, update_self] at hq
      exact hack hq
    · rw [modPort_ports, update_of_ne heq] at hq
      exact h.ack_in q hq
  · rw [hall]
    have hbal := h.balance q hq c
    by_cases heq : q = p
    · subst heq
      rw [modPort_ports, update_self, hav, hpend]
      exact hbal
    · rw [modPort_ports, update_of_ne heq]
      exact hbal

theorem schedule (h : Ledger σ m) (d : Nat) {k : EventKind} (hk : k.dllps = 0)
    (hfc : ∀ p, k = .fcEvent p → p < σ.numPorts) : Ledger (σ.schedule d k) m := by
  have hall : (σ.schedule d k).allDllps = σ.allDllps := by
    rw [allDllps_schedule, hk, add_zero]
  refine ⟨h.control_in, h.ack_in, fun e he p hp => ?_, hall ▸ h.addressed, fun p hp c => ?_⟩
  · rcases mem_schedule he with he | rfl
    · exact h.fc_in e he p hp
    · exact hfc p hp
  · rw [hall]
    exact h.balance p hp c

variable {i : Nat} {x : Site} {pending : Fin 6 → Nat} {a b : Fin 6} {d : Control}

theorem popEvent (h : Ledger σ m) {e : Event} (hdue : σ.Due i e) (hk : e.kind.dllps = 0)
    : Ledger (σ.popEvent i e) m := by
  have hall : (σ.popEvent i e).allDllps = σ.allDllps := by
    rw [← allDllps_popEvent hdue, hk, add_zero]
  refine ⟨h.control_in, h.ack_in, fun e' he => h.fc_in e' (List.mem_of_mem_eraseIdx he),
    hall ▸ h.addressed, fun p hp c => ?_⟩
  rw [hall]
  exact h.balance p hp c

theorem cancel (h : Ledger σ m) {is : EventKind → Bool} (hk : ∀ k, is k = true → k.dllps = 0) :
    Ledger (σ.cancel is) m := by
  have hall : (σ.cancel is).allDllps = σ.allDllps := allDllps_cancel hk
  refine ⟨h.control_in, h.ack_in, fun e he => h.fc_in e (List.mem_of_mem_filter he),
    hall ▸ h.addressed, fun p hp c => ?_⟩
  rw [hall]
  exact h.balance p hp c

theorem countTlp (h : Ledger σ m) (seq : Nat) (hp : p < σ.numPorts) :
    Ledger (σ.countTlp p seq) m := by
  unfold Fabric.countTlp
  exact h.modPort rfl rfl rfl fun _ => hp

theorem takeAck (h : Ledger σ m) (d : Control) : Ledger (σ.takeAck d) m := by
  unfold Fabric.takeAck
  exact h.modPort rfl rfl rfl (h.ack_in _)

theorem enqueue (h : Ledger σ m) (p : Nat) (f : Frame) : Ledger (σ.enqueue p f) m := by
  unfold Fabric.enqueue
  exact h.modPort rfl rfl rfl (h.ack_in p)

theorem launch (h : Ledger σ m) (calls p : Nat) (f : Frame) : Ledger (σ.launch calls p f) m := by
  have hobs : Ledger ({ σ with nextOrder := σ.nextOrder + 1, calls }.observe (.created f)) m :=
    h.of_eq rfl rfl rfl rfl rfl
  exact hobs.enqueue p f

theorem le_credits (h : Ledger σ m) (hp : p < σ.numPorts) (c : Fin 6) :
    (σ.ports p).available c ≤ σ.config.credits c :=
  by have := h.balance p hp c; omega

/-- A buffer drains: the credits of its frame become a pending return. -/
theorem returnCredit (h : Ledger σ (m + {x})) (hv : σ.config.Valid)
    (hin : ∀ p, x.frame.ingress = some p → p < σ.numPorts) :
    Ledger (σ.returnCredit x.frame).1 m := by
  unfold Fabric.returnCredit
  cases hx : x.frame.ingress with
  | none =>
      refine h.of_held fun p c => ?_
      rw [heldBy_add, heldBy_singleton, if_neg (by simp [hx]), add_zero]
  | some p =>
      have hp := hin p hx
      have hpend : ∀ c, addCredits (σ.ports p).pendingReturn x.frame.header c =
          (σ.ports p).pendingReturn c + x.frame.header.credits c := by
        refine fun c => addCredits_apply fun c => ?_
        have hbal := h.balance p hp c
        rw [heldBy_add, heldBy_singleton, if_pos hx] at hbal
        have := hv.credits_le c
        omega
      have hmod : Ledger (σ.modPort p fun port =>
          { port with pendingReturn := addCredits port.pendingReturn x.frame.header }) m := by
        have hall : (σ.modPort p fun port =>
            { port with pendingReturn := addCredits port.pendingReturn x.frame.header }).allDllps =
              σ.allDllps := allDllps_modPort_same rfl
        refine ⟨fun q hq => h.control_in q ?_, fun q hq => h.ack_in q ?_, h.fc_in,
          hall ▸ h.addressed, fun q hq c => ?_⟩
        · rwa [modPort_field Port.control rfl] at hq
        · rwa [modPort_field Port.ackCount rfl] at hq
        · have hbal := h.balance q hq c
          rw [heldBy_add, heldBy_singleton] at hbal
          rw [hall]
          by_cases heq : q = p
          · subst heq
            rw [if_pos hx] at hbal
            simp only [modPort_ports, update_self, hpend]
            rw [modPort_config]
            omega
          · rw [if_neg (by rw [hx]; simpa using Ne.symm heq)] at hbal
            rw [modPort_ports, update_of_ne heq, modPort_config]
            omega
      dsimp only
      split
      · exact hmod
      · exact hmod.schedule _ rfl fun q hq => by cases hq; exact hp

theorem returning_fcControl {q : Nat} (hab : a ≠ b) :
    returning (fcControl p pending a b : List Control) q c =
      if p = q ∧ (c = a ∨ c = b) then pending c else 0 := by
  unfold fcControl
  split
  · rename_i h0
    rw [Multiset.coe_nil, returning_zero]
    split
    · rename_i hc
      rcases hc.2 with rfl | rfl
      · exact h0.1.symm
      · exact h0.2.symm
    · rfl
  · rw [Multiset.coe_singleton, returning_singleton]
    by_cases hpq : p = q
    · by_cases hb : c = b
      · simp [hpq, hb]
      · by_cases ha : c = a
        · simp [hpq, ha, hab]
        · simp [hpq, ha, hb]
    · simp [hpq]

theorem forPort_of_mem_fcControl (h : d ∈ fcControl p pending a b) : d.forPort = p := by
  unfold fcControl at h
  split at h
  · cases h
  · rw [List.mem_singleton.mp h]

/-- The UpdateFC timer turns pending returns into DLLPs. -/
theorem flushReturn (h : Ledger σ m) (ht : σ.topo.Wf) (hp : p < σ.numPorts) :
    Ledger (σ.flushReturn p) m := by
  set pending := (σ.ports p).pendingReturn with hpending
  set out := fcControl p pending 0 1 ++ fcControl p pending 2 3 ++ fcControl p pending 4 5 with hout
  set τ := σ.modPort p fun port => { port with pendingReturn := fun _ => 0 } with hτ
  have hrev : (τ.ports p).reverse = (σ.ports p).reverse := by simp [hτ]
  have hr : (σ.ports p).reverse < σ.numPorts := ht.rev_lt p hp
  have hflush : σ.flushReturn p = τ.modPort (σ.ports p).reverse fun port =>
      { port with control := port.control ++ out } := by
    simp only [Fabric.flushReturn]
    rw [← hτ, hrev]
  have hall : (σ.flushReturn p).allDllps = σ.allDllps + (out : Multiset Control) := by
    have hbal := allDllps_modPort (σ := τ) (p := (σ.ports p).reverse)
      (g := fun port => { port with control := port.control ++ out }) hr
    have hτall : τ.allDllps = σ.allDllps := allDllps_modPort_same rfl
    rw [← hflush, hτall, ← Multiset.coe_add, add_comm (_ : Multiset Control) (out : Multiset Control),
      ← add_assoc] at hbal
    exact add_right_cancel hbal
  have hsum : ∀ q c, returning (out : Multiset Control) q c = if p = q then pending c else 0 := by
    intro q c
    rw [hout, ← Multiset.coe_add, ← Multiset.coe_add, returning_add, returning_add,
      returning_fcControl (by decide), returning_fcControl (by decide),
      returning_fcControl (by decide)]
    by_cases hpq : p = q
    · simp only [hpq, true_and, ↓reduceIte]
      fin_cases c <;> simp
    · simp [hpq]
  have hav : ∀ q, ((σ.flushReturn p).ports q).available = (σ.ports q).available := fun q => by
    rw [hflush, modPort_field Port.available rfl, hτ, modPort_field Port.available rfl]
  have hcount : ∀ q, ((σ.flushReturn p).ports q).ackCount = (σ.ports q).ackCount := fun q => by
    rw [hflush, modPort_field Port.ackCount rfl, hτ, modPort_field Port.ackCount rfl]
  have hpend : ∀ q, ((σ.flushReturn p).ports q).pendingReturn = if q = p then fun _ => 0
      else (σ.ports q).pendingReturn := fun q => by
    rw [hflush, modPort_field Port.pendingReturn rfl, hτ, modPort_ports]
    by_cases hqp : q = p
    · rw [hqp, update_self, if_pos rfl]
    · rw [update_of_ne hqp, if_neg hqp]
  refine ⟨fun q hq => ?_, fun q hq => h.ack_in q (hcount q ▸ hq), ?_, ?_, ?_⟩
  · rw [hflush] at hq ⊢
    by_cases heq : q = (σ.ports p).reverse
    · exact heq ▸ hr
    · rw [modPort_ports, update_of_ne heq, hτ, modPort_field Port.control rfl] at hq
      exact h.control_in q hq
  · rw [hflush]
    exact h.fc_in
  · rw [hall]
    intro d hd
    rcases Multiset.mem_add.mp hd with hd | hd
    · rw [hflush]
      exact h.addressed d hd
    · have hfor : d.forPort = p := by
        rw [hout, Multiset.mem_coe, List.mem_append, List.mem_append] at hd
        rcases hd with (hd | hd) | hd <;> exact forPort_of_mem_fcControl hd
      rw [hflush, hfor]
      exact hp
  · intro q hq c
    have hbal := h.balance q (by rwa [hflush] at hq) c
    rw [hall, returning_add, hsum, hav, hpend, hflush]
    show _ = σ.config.credits c
    by_cases hqp : q = p
    · subst hqp
      simp only [↓reduceIte, hpending]
      omega
    · simp only [hqp, Ne.symm hqp, ↓reduceIte]
      omega

/-- An ACK joins the reverse direction; it carries no credits. -/
theorem pushAck (h : Ledger σ m) (ht : σ.topo.Wf) {p : Nat} (hack : (σ.ports p).ackCount ≠ 0) :
    Ledger (σ.pushAck p) m := by
  have hp := h.ack_in p hack
  set ack : Control := { ack := true, forPort := p, sequence := (σ.ports p).receivedSequence } with hA
  set τ := σ.modPort p fun port => { port with ackCount := 0 } with hτ
  have hr : (σ.ports p).reverse < σ.numPorts := ht.rev_lt p hp
  have hpush : σ.pushAck p = τ.modPort (σ.ports p).reverse fun port =>
      { port with control := port.control ++ [ack] } := by
    simp only [Fabric.pushAck]
    rw [← hτ, show (τ.ports p).reverse = (σ.ports p).reverse by simp [hτ]]
  have hall : (σ.pushAck p).allDllps = σ.allDllps + {ack} := by
    have hbal := allDllps_modPort (σ := τ) (p := (σ.ports p).reverse)
      (g := fun port => { port with control := port.control ++ [ack] }) hr
    have hτall : τ.allDllps = σ.allDllps := allDllps_modPort_same rfl
    rw [← hpush, hτall, ← Multiset.coe_add, add_comm (_ : Multiset Control) ([ack] : Multiset Control),
      ← add_assoc] at hbal
    exact add_right_cancel hbal
  refine ⟨fun q hq => ?_, fun q hq => ?_, ?_, ?_, fun q hq c => ?_⟩
  · rw [hpush] at hq ⊢
    by_cases heq : q = (σ.ports p).reverse
    · exact heq ▸ hr
    · rw [modPort_ports, update_of_ne heq, hτ, modPort_field Port.control rfl] at hq
      exact h.control_in q hq
  · rw [hpush] at hq ⊢
    rw [modPort_field Port.ackCount rfl, hτ, modPort_ports] at hq
    by_cases heq : q = p
    · exact heq ▸ hp
    · rw [update_of_ne heq] at hq
      exact h.ack_in q hq
  · rw [hpush]
    exact h.fc_in
  · rw [hall]
    intro d hd
    rcases Multiset.mem_add.mp hd with hd | hd
    · rw [hpush]
      exact h.addressed d hd
    · rw [Multiset.mem_singleton.mp hd, hpush]
      exact hp
  · have hbal := h.balance q (by rwa [hpush] at hq) c
    rw [hall, returning_add, returning_singleton, if_neg (by simp [hA]), add_zero, hpush,
      modPort_field Port.available rfl, modPort_field Port.pendingReturn rfl, hτ,
      modPort_field Port.available rfl, modPort_field Port.pendingReturn rfl]
    exact hbal

theorem sendControl (h : Ledger σ m) {env : Env} {p : Nat} {d : Control} {rest : List Control}
    (hctl : (σ.ports p).control = d :: rest) : Ledger (σ.sendControl env p d rest) m := by
  have hp : p < σ.numPorts := h.control_in p (by simp [hctl])
  set τ := σ.modPort p fun port => { port with control := rest, busy := true } with hτ
  have hτall : τ.allDllps + {d} = σ.allDllps := by
    have hbal := allDllps_modPort (σ := σ)
      (g := fun port => { port with control := rest, busy := true }) hp
    rw [hctl, ← Multiset.cons_coe, ← Multiset.singleton_add, ← add_assoc] at hbal
    exact add_right_cancel hbal
  have hall : (σ.sendControl env p d rest).allDllps = σ.allDllps := by
    simp only [Fabric.sendControl]
    rw [← hτ, allDllps_schedule, allDllps_schedule, ← hτall]
    simp [EventKind.dllps]
  have hports : (σ.sendControl env p d rest).ports = τ.ports := rfl
  refine ⟨fun q hq => ?_, fun q hq => ?_, fun e he q hq => ?_, hall ▸ h.addressed, fun q hq c => ?_⟩
  · rw [hports] at hq
    by_cases heq : q = p
    · exact heq ▸ hp
    · rw [hτ, modPort_ports, update_of_ne heq] at hq
      exact h.control_in q hq
  · rw [hports, hτ, modPort_field Port.ackCount rfl] at hq
    exact h.ack_in q hq
  · rcases mem_schedule he with he | rfl
    · rcases mem_schedule he with he | rfl
      · exact h.fc_in e he q hq
      · cases hq
    · cases hq
  · rw [hall, hports, hτ, modPort_field Port.available rfl, modPort_field Port.pendingReturn rfl]
    exact h.balance q hq c

theorem takeCredit (h : Ledger σ m) (hv : σ.config.Valid) {t : Nat}
    (hdue : σ.Due i ⟨t, .controlArrive d⟩) (hd : d.ack = false) :
    Ledger ((σ.popEvent i ⟨t, .controlArrive d⟩).takeCredit d) m := by
  set τ := σ.popEvent i ⟨t, .controlArrive d⟩ with hτ
  have hall : τ.allDllps + {d} = σ.allDllps := allDllps_popEvent hdue
  have htake : (τ.takeCredit d).allDllps = τ.allDllps := allDllps_modPort_same rfl
  have hdin : d ∈ σ.allDllps := hall ▸ Multiset.mem_add.mpr (.inr (Multiset.mem_singleton_self d))
  have hp := h.addressed d hdin
  have hret : ∀ q c, returning σ.allDllps q c =
      returning τ.allDllps q c + if d.forPort = q then d.credits c else 0 := by
    intro q c
    rw [← hall, returning_add, returning_singleton]
    simp [hd]
  refine ⟨fun q hq => ?_, fun q hq => ?_, fun e he => h.fc_in e (List.mem_of_mem_eraseIdx he),
    fun x hx => ?_, fun q hq c => ?_⟩
  · rw [Fabric.takeCredit, modPort_field Port.control rfl] at hq
    exact h.control_in q hq
  · rw [Fabric.takeCredit, modPort_field Port.ackCount rfl] at hq
    exact h.ack_in q hq
  · rw [htake] at hx
    exact h.addressed x (hall ▸ Multiset.mem_add.mpr (.inl hx))
  · have hbal := h.balance q hq c
    have hret' := hret q c
    rw [htake, Fabric.takeCredit, modPort_field Port.pendingReturn rfl, modPort_ports]
    show _ + (σ.ports q).pendingReturn c + _ + _ = σ.config.credits c
    by_cases heq : q = d.forPort
    · subst heq
      rw [if_pos rfl] at hret'
      have hsum : wadd 32 ((σ.ports d.forPort).available c) (d.credits c) =
          (σ.ports d.forPort).available c + d.credits c := by
        refine wadd_eq ?_
        have := hv.credits_le c
        omega
      rw [update_self]
      show wadd 32 ((σ.ports d.forPort).available c) (d.credits c) + _ + _ + _ = _
      omega
    · rw [if_neg (Ne.symm heq)] at hret'
      rw [update_of_ne heq]
      show (σ.ports q).available c + _ + _ + _ = _
      omega

theorem charge (h : Ledger σ m) (hv : σ.config.Valid) (wire : Nat) (hp : p < σ.numPorts)
    (hx : x.frame.ingress = some p) (hle : ∀ c, x.frame.header.credits c ≤ (σ.ports p).available c)
    :
    Ledger (σ.modPort p (transmitted x.frame.header wire)) (m + {x}) := by
  have hall : (σ.modPort p (transmitted x.frame.header wire)).allDllps = σ.allDllps :=
    allDllps_modPort_same rfl
  refine ⟨fun q hq => ?_, fun q hq => ?_, h.fc_in, hall ▸ h.addressed, fun q hq c => ?_⟩
  · rw [modPort_field Port.control rfl] at hq
    exact h.control_in q hq
  · rw [modPort_field Port.ackCount rfl] at hq
    exact h.ack_in q hq
  · have hbal := h.balance q hq c
    rw [hall, modPort_field Port.pendingReturn rfl, modPort_ports, modPort_config, heldBy_add,
      heldBy_singleton]
    by_cases heq : q = p
    · subst heq
      have hsub : subCredits (σ.ports q).available x.frame.header c + x.frame.header.credits c =
          (σ.ports q).available c := by
        refine subCredits_apply hle fun c => ?_
        have hle' := h.le_credits hq c
        have := hv.credits_le c
        omega
      rw [update_self, if_pos hx]
      show subCredits (σ.ports q).available x.frame.header c + _ + _ + _ = _
      omega
    · rw [update_of_ne heq, if_neg (by rw [hx]; simpa using Ne.symm heq)]
      omega

end Ledger

theorem Fabric.returnCredit_available (σ : Fabric) (f : Frame) (p : Nat) :
    ((σ.returnCredit f).1.ports p).available = (σ.ports p).available :=
  returnCredit_keeps (fun σ => (σ.ports p).available)
    (fun _ _ _ => modPort_field Port.available rfl p) (fun _ _ _ => rfl) σ f

@[simp] theorem Fabric.returnCredit_config (σ : Fabric) (f : Frame) :
    (σ.returnCredit f).1.config = σ.config :=
  congrArg Topo.config (topo_returnCredit σ f)

theorem Site.Ok.ingress_lt {t : Topo} {x : Site} (h : x.Ok t) (hp : x.frame.ingress = some p)
    : p < t.numPorts := by
  obtain ⟨-, -, -, -, hfits⟩ := h
  obtain ⟨place, f⟩ := x
  change f.ingress = some p at hp
  cases place with
  | queue q => exact (hfits.2.1.ingress p hp).1
  | waiting n => exact (hfits.2.ingress p hp).1
  | link q =>
      obtain ⟨hq, hin, -⟩ := hfits
      rw [show f.ingress = some q from hin] at hp
      cases hp
      exact hq
  | memory ty n =>
      cases ty with
      | read =>
          rw [show f.ingress = none from hfits.2.2] at hp
          cases hp
      | write | completion =>
          obtain ⟨-, -, q, hin, hq, -⟩ := hfits
          rw [show f.ingress = some q from hin] at hp
          cases hp
          exact hq
  | answer n k =>
      rw [show f.ingress = none from hfits.2.2.1] at hp
      cases hp

/-! ## Every step balances -/

theorem Ledger.sendFrame {env : Env} {σ : Fabric} {h : Option (Nat × Frame)} {p i : Nat} {f : Frame}
    (hwf : Snap.Wf ⟨σ, h⟩) (hl : Ledger σ (Snap.total ⟨σ, h⟩))
    (hi : (σ.ports p).queue[i]? = some f) (hel : σ.eligible p f = true) :
    Ledger (σ.sendFrame env p i f) (Snap.total ⟨σ.sendFrame env p i f, h⟩) := by
  have hmem := List.mem_of_getElem? hi
  have hok := hwf.queue_ok hmem
  have hp : p < σ.numPorts := hok.fits.1
  have hv : σ.config.Valid := hwf.valid
  -- the bag without the frame
  obtain ⟨rest, hrest⟩ := Multiset.exists_cons_of_mem
    (Snap.mem_total (s := ⟨σ, h⟩) (mem_total_of_queue hp hmem))
  rw [← Multiset.singleton_add, add_comm] at hrest
  have hbal : Snap.total ⟨σ.sendFrame env p i f, h⟩ = rest + {⟨.link p, onLink p f⟩} := by
    have hsend := balance_frame (total_sendFrame env hp hi) (handSites h)
    have hsplit : Snap.total ⟨σ.sendFrame env p i f, h⟩ + {⟨.queue p, f⟩} =
        rest + {⟨.queue p, f⟩} + {⟨.link p, onLink p f⟩} := by
      rw [← hrest]
      exact hsend
    rw [add_right_comm] at hsplit
    exact add_right_cancel hsplit
  rw [hrest] at hl
  have herase : Ledger (σ.modPort p fun port => { port with queue := port.queue.eraseIdx i })
      (rest + {⟨.queue p, f⟩}) := hl.modPort rfl rfl rfl (hl.ack_in p)
  have hdet : Ledger (σ.detached p i f) rest :=
    herase.returnCredit (x := ⟨.queue p, f⟩) hv fun q hq => hok.ingress_lt hq
  have hconfig : (σ.detached p i f).config = σ.config := returnCredit_config ..
  have hnum : (σ.detached p i f).numPorts = σ.numPorts := returnCredit_numPorts ..
  have hav : ((σ.detached p i f).ports p).available = (σ.ports p).available :=
    (returnCredit_available ..).trans (modPort_field Port.available rfl p)
  have hcharge := hdet.charge (x := ⟨.link p, onLink p f⟩)
    (hconfig ▸ hv) (f.size + tlpLinkBytes) (hnum ▸ hp) rfl (fun c => by
      rw [hav]
      exact credits_le_of_eligible hel c)
  rw [hbal, sendFrame_eq]
  exact (hcharge.schedule _ rfl fun q hq => by cases hq).schedule _ rfl fun q hq => by cases hq

/-- New links start with full pools. -/
theorem Ledger.addLink {σ σ' : Fabric} {a b : Nat} (hwf : Snap.Wf ⟨σ, none⟩)
    (hl : Ledger σ (Snap.total ⟨σ, none⟩)) (h : σ.addLink a b = .ok σ') :
    Ledger σ' (Snap.total ⟨σ', none⟩) := by
  obtain ⟨hg, heq⟩ := addLink_spec h
  have hzero := (hwf.unused hg.unused).1
  rw [Snap.total_none] at hzero hl
  rw [Snap.total_none, total_addLink h, hzero]
  rw [hzero] at hl
  have hports : σ'.ports = linkPorts σ a b := by rw [heq]; rfl
  have hnum : σ'.numPorts = σ.numPorts + 2 := by rw [heq]; rfl
  have hevents : σ'.events = σ.events := by rw [heq]; rfl
  have hold : ∀ p, p < σ.numPorts → σ'.ports p = σ.ports p := by
    intro p hp
    rw [hports, linkPorts, update_of_ne (by omega), update_of_ne (by omega)]
  have hout : ∀ p, σ.numPorts + 2 ≤ p → σ'.ports p = σ.ports p := by
    intro p hp
    rw [hports, linkPorts, update_of_ne (by omega), update_of_ne (by omega)]
  have hnew : ∀ p, p = σ.numPorts ∨ p = σ.numPorts + 1 → (σ'.ports p).available = σ.config.credits ∧
      (σ'.ports p).pendingReturn = (fun _ => 0) ∧ (σ'.ports p).control = [] := by
    rintro p (rfl | rfl) <;> simp [hports, linkPorts]
  have hall : σ'.allDllps = σ.allDllps := by
    simp only [allDllps, dllps, lostDllps, hnum, hevents, Finset.sum_range_succ,
      (hnew σ.numPorts (.inl rfl)).2.2, (hnew (σ.numPorts + 1) (.inr rfl)).2.2]
    rw [Finset.sum_congr rfl fun p hp => by rw [hold p (Finset.mem_range.mp hp)],
      show σ'.dropped = σ.dropped by rw [heq]; rfl]
    simp
  refine ⟨fun p hp => ?_, fun p hp => ?_, ?_, ?_, fun p hp c => ?_⟩
  · rw [hnum]
    by_cases hlt : p < σ.numPorts + 2
    · exact hlt
    · rw [hout p (by omega)] at hp
      exact Nat.lt_add_right 2 (hl.control_in p hp)
  · rw [hnum]
    by_cases hlt : p < σ.numPorts + 2
    · exact hlt
    · rw [hout p (by omega)] at hp
      exact Nat.lt_add_right 2 (hl.ack_in p hp)
  · rw [hevents, hnum]
    exact fun e he p hp => Nat.lt_add_right 2 (hl.fc_in e he p hp)
  · rw [hall, hnum]
    exact fun d hd => Nat.lt_add_right 2 (hl.addressed d hd)
  · have hcfg : σ'.config = σ.config := by rw [heq]; rfl
    rw [hall, hcfg]
    by_cases hlt : p < σ.numPorts
    · rw [hold p hlt]
      exact hl.balance p hlt c
    · have hp' : p = σ.numPorts ∨ p = σ.numPorts + 1 := by omega
      obtain ⟨hav, hpend, -⟩ := hnew p hp'
      have hret : returning σ.allDllps p c = 0 := returning_eq_zero fun d hd => by
        have := hl.addressed d hd
        omega
      rw [hav, hpend, hret]
      rfl

theorem Ledger.issueFrame {n bytes tag : Nat} {op : Transfer} (hl : Ledger σ (Snap.total ⟨σ, none⟩))
    (hp : p < σ.numPorts) :
    Ledger (Fabric.issueFrame env σ n op p bytes tag)
      (Snap.total ⟨Fabric.issueFrame env σ n op p bytes tag, none⟩) := by
  rw [Snap.total_none] at hl ⊢
  rw [total_issueFrame hp, issueFrame_eq]
  refine Ledger.of_held ((hl.launch _ p _).of_eq rfl rfl rfl rfl rfl) fun q c => ?_
  have hnew : (requestFrame env σ n op bytes tag).ingress = none := rfl
  simp [hnew]

/-- The ledger balances over every atomic step. -/
theorem Micro.ledger {s s' : Snap} (h : Micro env s s') (hwf : s.Wf) (hl : Ledger s.fab s.total)
    : Ledger s'.fab s'.total := by
  have hv : s.fab.config.Valid := hwf.valid
  cases h with
  | addNode h =>
      obtain ⟨-, heq⟩ := addNode_spec h
      rw [Snap.total_none] at hl ⊢
      rw [total_addNode h, heq]
      exact hl.of_eq rfl rfl rfl rfl rfl
  | addLink h => exact hl.addLink hwf h
  | enter =>
      rw [Snap.total_none] at hl ⊢
      rw [total_enter, enter_eq]
      exact hl.of_eq rfl rfl rfl rfl rfl
  | advance => exact hl.of_eq rfl rfl rfl rfl rfl
  | popBusy hdue =>
      rw [Snap.total_none] at hl ⊢
      rw [total_modPort_same (by rfl), total_popEvent_same hdue rfl]
      dsimp only
      exact (hl.popEvent hdue rfl).modPort rfl rfl rfl (hl.ack_in _)
  | popCredit hdue hd =>
      rw [Snap.total_none] at hl ⊢
      rw [total_takeCredit, total_popEvent_same hdue rfl]
      exact hl.takeCredit hv hdue hd
  | @popAckDllp σ i t d hdue hd =>
      rw [Snap.total_none] at hl ⊢
      rw [total_takeAck, total_popEvent_same hdue rfl]
      have hall : (σ.popEvent i ⟨t, .controlArrive d⟩).allDllps + {d} = σ.allDllps :=
        allDllps_popEvent hdue
      -- an ACK returns no credits
      have hpop : Ledger (σ.popEvent i ⟨t, .controlArrive d⟩) σ.total := by
        refine ⟨hl.control_in, hl.ack_in, fun e he => hl.fc_in e (List.mem_of_mem_eraseIdx he),
          fun x hx => hl.addressed x (hall ▸ Multiset.mem_add.mpr (.inl hx)), fun q hq c => ?_⟩
        have hbal := hl.balance q hq c
        have hret : returning σ.allDllps q c =
            returning (σ.popEvent i ⟨t, .controlArrive d⟩).allDllps q c := by
          rw [← hall, returning_add, returning_singleton, if_neg (by simp [hd]), add_zero]
        rw [← hret]
        exact hbal
      exact hpop.takeAck d
  | @popFrame σ i t p f seq hdue =>
      have hok := hwf.event_ok hdue (Multiset.mem_singleton_self _)
      -- the frame goes from the link to the hand
      have hbag : Snap.total ⟨(σ.popEvent i ⟨t, .frameArrive p f seq⟩).countTlp p seq, some (p, f)⟩ =
          Snap.total ⟨σ, none⟩ := by
        rw [Snap.total_none, Snap.total_some, total_countTlp]
        exact total_popEvent hdue
      rw [hbag]
      exact (hl.popEvent hdue rfl).countTlp seq hok.fits.1
  | @popFc σ i t p hdue =>
      rw [Snap.total_none] at hl ⊢
      rw [total_flushReturn, total_popEvent_same hdue rfl]
      exact (hl.popEvent hdue rfl).flushReturn hwf.topo
        (hl.fc_in _ (List.mem_of_getElem? hdue.1) p rfl)
  | popAckTimer hdue | popWake hdue | popCallback hdue =>
      rw [Snap.total_none] at hl ⊢
      rw [total_popEvent_same hdue rfl]
      exact hl.popEvent hdue rfl
  | @popRead σ i t n f hdue =>
      have hok := hwf.event_ok hdue (Multiset.mem_singleton_self _)
      have hn : n < σ.numNodes := by
        have hdest : n = f.destination := hok.fits.1
        rw [hdest]
        exact hok.destination_lt
      have hbal := total_popRead hn hdue
      -- a request at its target has returned its credits
      refine Ledger.of_held ((hl.popEvent hdue rfl).of_eq rfl rfl rfl rfl rfl) fun q c => ?_
      have hheld := congrArg (fun m => heldBy m q c) hbal
      simp only [heldBy_add, heldBy_singleton, Snap.total_none] at hheld ⊢
      omega
  | @popWrite σ i t n f op hdue hop =>
      have hok := hwf.event_ok hdue (Multiset.mem_singleton_self _)
      have hpop := hl.popEvent hdue rfl
      rw [Snap.total_none] at hpop ⊢
      rw [← total_popEvent hdue] at hpop
      rw [total_landWrite]
      -- the credits come back with the write
      exact (hpop.returnCredit (x := ⟨.memory .write n, f⟩) hv fun q hq => hok.ingress_lt hq).of_eq
        rfl rfl rfl rfl rfl
  | @popCompletion σ i t n f r hdue =>
      have hok := hwf.event_ok hdue (Multiset.mem_singleton_self _)
      have hpop := hl.popEvent hdue rfl
      rw [Snap.total_none] at hpop ⊢
      rw [← total_popEvent hdue] at hpop
      rw [total_acceptPiece]
      exact Ledger.returnCredit (x := ⟨.memory .completion n, f⟩)
        (hpop.of_eq rfl rfl rfl rfl rfl) hv fun q hq => hok.ingress_lt hq
  | retire =>
      rw [Snap.total_none] at hl ⊢
      rw [total_retireRead]
      exact hl.of_eq rfl rfl rfl rfl rfl
  | cancelAck =>
      simp only [Snap.total, total_cancel fun _ => sites_of_isAck] at hl ⊢
      exact hl.cancel fun k hk => by cases k <;> first | rfl | cases hk
  | pushAck hack =>
      simp only [Snap.total, total_pushAck] at hl ⊢
      exact hl.pushAck hwf.topo hack
  | armAck =>
      simp only [Snap.total, total_schedule, EventKind.sites, add_zero] at hl ⊢
      exact hl.schedule _ rfl fun q hq => by cases hq
  | sendControl _ hctl =>
      simp only [Snap.total, total_sendControl] at hl ⊢
      exact hl.sendControl hctl
  | sendFrame _ _ hi hel => exact Ledger.sendFrame hwf hl hi hel
  | armWake =>
      simp only [Snap.total, total_armWake] at hl ⊢
      unfold Fabric.armWake
      split
      · exact hl
      · exact (hl.cancel fun k hk => by cases k <;> first | rfl | cases hk).schedule _ rfl
          fun q hq => by cases hq
  | @forward σ p f hd =>
      have hok := hwf.hand_ok
      have hlt : (σ.ports p).dst < σ.numNodes := hwf.topo.dst_lt hok.fits.1
      -- at a switch the frame keeps its credits
      refine Ledger.of_held (hl.of_eq rfl rfl rfl rfl rfl) fun q c => ?_
      rw [Snap.total_none, Snap.total_some, total_forward hlt]
      simp [atNode]
  | @holdRead σ p f calls delay _ ht =>
      have hok := hwf.hand_ok
      rw [Snap.total_some] at hl
      have hret := Ledger.returnCredit (σ := σ.observe (.received f)) (x := ⟨.link p, f⟩)
        (hl.of_eq rfl rfl rfl rfl rfl) hv fun q hq => hok.ingress_lt hq
      have hcalls : Ledger { ((σ.observe (.received f)).returnCredit f).1 with calls } σ.total :=
        hret.of_eq rfl rfl rfl rfl rfl
      refine Ledger.of_held (hcalls.schedule delay rfl fun q hq => by cases hq) fun q c => ?_
      rw [Snap.total_none, total_schedule, total_calls, total_returnCredit, total_observe]
      simp [EventKind.sites]
  | @holdWrite σ p f calls delay _ ht | @holdCompletion σ p f calls delay _ ht =>
      have hcalls : Ledger { σ.observe (.received f) with calls } (Snap.total ⟨σ, some (p, f)⟩) :=
        hl.of_eq rfl rfl rfl rfl rfl
      refine Ledger.of_held (hcalls.schedule delay rfl fun q hq => by cases hq) fun q c => ?_
      rw [Snap.total_none, total_schedule, total_calls, total_observe, Snap.total_some]
      simp [EventKind.sites]
  | @assign σ n i f p hi hr _ _ =>
      have hn := (hwf.waiting_ok (List.mem_of_getElem? hi)).fits.1
      have hp := ((hwf.topo.mem_ports n p).mp (Topo.route_mem hr)).1
      have henq : Ledger (σ.enqueue p f) (Snap.total ⟨σ, none⟩) := hl.enqueue p f
      refine Ledger.of_held (henq.of_eq rfl rfl rfl rfl rfl) fun q c => ?_
      have hheld := congrArg (fun m => heldBy m q c) (total_assign hn hp hi)
      simp only [heldBy_add, heldBy_singleton, Snap.total_none] at hheld ⊢
      omega
  | @respond σ n response others op p hr hroute _ _ _ =>
      -- neither the request nor the new completion holds credits
      have hmem : response ∈ (σ.nodes n).responses := by rw [hr]; exact List.mem_cons_self
      have hn := hwf.stores.responses n (List.ne_nil_of_mem hmem)
      have hp := ((hwf.topo.mem_ports n p).mp (Topo.route_mem hroute)).1
      have hin : response.request.ingress = none := (hwf.response_ok hmem).fits.2.2.1
      have hlaunch : Ledger (σ.launch σ.calls p (σ.completionFrame n response op))
          (Snap.total ⟨σ, none⟩) := hl.launch _ p _
      refine Ledger.of_held (hlaunch.of_eq rfl rfl rfl rfl rfl) fun q c => ?_
      have hheld := congrArg (fun m => heldBy m q c) (total_respond op hn hp hr)
      have hans : heldBy (answerSites n (response.next + completionBytes σ.config response)
          response.request) q c = 0 := by
        unfold answerSites
        split <;> simp [hin]
      simp only [heldBy_add, heldBy_singleton, hans, hin, Snap.total_none] at hheld ⊢
      have hnew : (σ.completionFrame n response op).ingress = none := rfl
      simpa [hnew] using hheld
  | @issueWrite σ n op id p hi hrd =>
      have hp := ((hwf.topo.mem_ports n p).mp (Topo.route_mem hi.route)).1
      exact Ledger.issueFrame hl hp
  | @issueRead σ n op id p hi hrd =>
      have hp := ((hwf.topo.mem_ports n p).mp (Topo.route_mem hi.route)).1
      rw [Snap.total_none, ← total_openRead σ n op (requestBytes σ.config op)
        (freeTag (σ.nodes n).reads σ.config.tags 0), ← Snap.total_none] at hl
      exact Ledger.issueFrame (σ := σ.openRead n op (requestBytes σ.config op)
        (freeTag (σ.nodes n).reads σ.config.tags 0)) (hl.of_eq rfl rfl rfl rfl rfl) hp
  | popTransfer =>
      rw [Snap.total_none] at hl ⊢
      rw [total_popTransfer]
      exact hl.of_eq rfl rfl rfl rfl rfl
  | @finish σ id op hop =>
      rw [Snap.total_none] at hl ⊢
      rw [total_finish]
      unfold Fabric.finish
      rw [hop]
      dsimp only
      split
      · exact hl
      · have herase : Ledger (σ.setTransfer id none) σ.total := hl.of_eq rfl rfl rfl rfl rfl
        split
        · have hobs : Ledger ((σ.setTransfer id none).observe (.scheduled id)) σ.total :=
            hl.of_eq rfl rfl rfl rfl rfl
          exact hobs.schedule _ rfl fun q hq => by cases hq
        · exact herase
  | pumping =>
      rw [Snap.total_none] at hl ⊢
      rw [total_modNode_same (by rfl) (by rfl)]
      exact hl.of_eq rfl rfl rfl rfl rfl

theorem Ledger.initial (c : Config) :
    Ledger { config := c } (Snap.total ⟨{ config := c }, none⟩) := by
  refine ⟨?_, ?_, ?_, ?_, ?_⟩ <;> simp [allDllps, dllps, lostDllps]

/-- The balance of `Ledger` is the sum of the claimable credits and the lost ones. -/
theorem Ledger.creditSum (h : Ledger σ (Snap.total ⟨σ, none⟩)) (hp : p < σ.numPorts) (c : Fin 6) :
    σ.creditSum p c + σ.lostCredit p c = σ.config.credits c := by
  have hbal := h.balance p hp c
  rw [Snap.total_none, Fabric.total, allDllps, heldBy_add, returning_add] at hbal
  simp only [Fabric.creditSum, lostCredit]
  omega

theorem Ledger.no_overflow {m : Multiset Site} (h : Ledger σ m) (hv : σ.config.Valid)
    : ¬ Fails .creditOverflow σ := by
  rintro ⟨i, t, d, hdue, hd, k, hover⟩
  have htake := h.takeCredit hv hdue hd
  have hdin : d ∈ σ.allDllps :=
    allDllps_popEvent hdue ▸ Multiset.mem_add.mpr (.inr (Multiset.mem_singleton_self d))
  have hle := htake.le_credits (h.addressed d hdin) k
  rw [Fabric.takeCredit, modPort_ports, update_self] at hle
  exact absurd hover (Nat.not_lt.mpr hle)

/-- **Credit conservation.** In every reachable state the credits of a directed
port that are in its pool, pending return, on their way back or held by live
frames, together with those discarded at the horizon, make up its configured
capacity; the transmitter never takes credits it does not have; and an UpdateFC
never overflows a pool. -/
theorem credits_conserved (env : Env) :
    (∀ σ, (machine env).Reachable σ → ∀ p < σ.numPorts, ∀ c,
      σ.creditSum p c + σ.lostCredit p c = σ.config.credits c) ∧
    (∀ (σ : Fabric) (p i : Nat) (f : Frame), σ.pick p = some i →
      (σ.ports p).queue[i]? = some f → ∀ c, f.header.credits c ≤ (σ.ports p).available c) ∧
    ¬ (machine env).Aborts .creditOverflow := by
  have hinit : ∀ c : Config, c.Valid →
      Ledger { config := c } (Snap.total ⟨{ config := c }, none⟩) := fun c _ => Ledger.initial c
  have hstep : ∀ s s' : Snap, s.Wf → Ledger s.fab s.total → Micro env s s' →
      Ledger s'.fab s'.total := fun _ _ hwf hl hm => hm.ledger hwf hl
  refine ⟨fun σ hreach p hp c => ?_, fun σ p i f hpick hf c => ?_, ?_⟩
  · exact Ledger.creditSum (fabric_invariant hinit hstep σ hreach).2 hp c
  · obtain ⟨g, hg, hel⟩ := pick_spec hpick
    rw [hf] at hg
    cases hg
    exact credits_le_of_eligible hel c
  · exact fabric_no_abort hinit hstep fun s hwf hl => hl.no_overflow hwf.valid

/-- Two endpoints, one link, one write whose arrival lies past the horizon. -/
def horizonRun : List Act :=
  [.addNode (.endpoint false false), .addNode (.endpoint false false), .addLink 0 1,
    .submit { read := false, requester := 0, target := 1, bytes := 16 }]

theorem horizonRun_credits :
    ((machine tickEnv).runs { config := { linkLatency := timeMax } } horizonRun).map
      (fun σ => (σ.numPorts, σ.creditSum 0 0, σ.lostCredit 0 0, σ.config.credits 0)) =
      some (2, 31, 1, 32) := by
  decide +kernel

theorem credits_conserved_horizonRun : ∃ σ, (machine tickEnv).Reachable σ ∧ 0 < σ.numPorts ∧
    σ.creditSum 0 0 + σ.lostCredit 0 0 = σ.config.credits 0 := by
  obtain ⟨σ, hreach, hvals⟩ := Machine.Reachable.exists_of_runs
    (M := machine tickEnv) ⟨_, by constructor <;> decide, rfl, rfl⟩ horizonRun_credits
  simp only [Prod.mk.injEq] at hvals
  have hp : 0 < σ.numPorts := by omega
  exact ⟨σ, hreach, hp, (credits_conserved tickEnv).1 σ hreach 0 hp 0⟩

/-- Without the discarded credits the balance fails. -/
theorem credits_lost_at_horizon : ¬ ∀ (env : Env) (σ : Fabric), (machine env).Reachable σ →
    ∀ p < σ.numPorts, ∀ c, σ.creditSum p c = σ.config.credits c := by
  intro hall
  obtain ⟨σ, hreach, hvals⟩ := Machine.Reachable.exists_of_runs
    (M := machine tickEnv) ⟨_, by constructor <;> decide, rfl, rfl⟩ horizonRun_credits
  simp only [Prod.mk.injEq] at hvals
  have := hall tickEnv σ hreach 0 (by omega) 0
  omega

end ProtoBridge.Pcie
