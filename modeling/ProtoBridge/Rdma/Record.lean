import ProtoBridge.Lib.History
import ProtoBridge.Rdma.Books

/-!
# The history of the ledger

What the history of a run says about a work agrees with the map: a work that is there
was submitted, its flags are those recorded, and a submitted work that is gone was
acknowledged. These are the facts through which the theorems about whole runs speak of
states.
-/

namespace ProtoBridge.Rdma

open Lib Relation

namespace View

variable {C : View → Nat → Prop} {v v' : View} {id : Nat} {w w' : Work} {key : QpKey}

/-- History and map agree. -/
structure Recorded (v : View) : Prop where
  ids : ∀ t, .submitted t ∈ v.log → 0 < t.id ∧ t.id < v.nextId
  live : ∀ id w, v.work id = some w → .submitted w.time ∈ v.log
  same : ∀ t w, .submitted t ∈ v.log → v.work t.id = some w → w.time = t
  acked : ∀ id w, v.work id = some w → (w.acked = true ↔ .acked id ∈ v.log)
  failed : ∀ id w, v.work id = some w → (w.failed = true ↔ .failed id ∈ v.log)
  reserved : ∀ id w, v.work id = some w →
    (w.reserved = true ↔ .reserved w.key id ∈ v.log)
  gone : ∀ t, .submitted t ∈ v.log → v.work t.id = none → .acked t.id ∈ v.log
  known : ∀ id key, .acked id ∈ v.log ∨ .failed id ∈ v.log ∨ .reserved key id ∈ v.log →
    id < v.nextId

theorem recorded_silent (hv : Recorded v) (es : List Event) (hnext : v'.nextId = v.nextId)
    (hw : v'.work = v.work) (hlog : v'.log = v.log ++ es)
    (hes : ∀ e ∈ es, (∀ t, e ≠ .submitted t) ∧ (∀ id, e ≠ .acked id) ∧ (∀ id, e ≠ .failed id) ∧
      ∀ key id, e ≠ .reserved key id) : Recorded v' := by
  have hsub : ∀ t, .submitted t ∈ v'.log ↔ .submitted t ∈ v.log := by
    intro t
    rw [hlog, List.mem_append, or_iff_left]
    exact fun h => (hes _ h).1 t rfl
  have hack : ∀ id, .acked id ∈ v'.log ↔ .acked id ∈ v.log := by
    intro id
    rw [hlog, List.mem_append, or_iff_left]
    exact fun h => (hes _ h).2.1 id rfl
  have hfail : ∀ id, .failed id ∈ v'.log ↔ .failed id ∈ v.log := by
    intro id
    rw [hlog, List.mem_append, or_iff_left]
    exact fun h => (hes _ h).2.2.1 id rfl
  have hres : ∀ key id, .reserved key id ∈ v'.log ↔ .reserved key id ∈ v.log := by
    intro key id
    rw [hlog, List.mem_append, or_iff_left]
    exact fun h => (hes _ h).2.2.2 key id rfl
  obtain ⟨h1, h2, h3, h4, h5, h6, h7, h8⟩ := hv
  constructor <;> simpa only [hsub, hack, hfail, hres, hw, hnext]

theorem recorded_add (hn : Numbered v) (hv : Recorded v) {w₀ : Work}
    (hid : w₀.time.id = v.nextId) (hflags : w₀.acked = false ∧ w₀.failed = false ∧
      w₀.reserved = false ∧ w₀.executed = false) (hnext : v'.nextId = v.nextId + 1)
    (hw : v'.work = Function.update v.work v.nextId (some w₀))
    (hlog : v'.log = v.log ++ [.submitted w₀.time]) : Recorded v' := by
  -- nothing is on record about a number that was not handed out yet
  have hfresh : ∀ key, .acked v.nextId ∉ v.log ∧ .failed v.nextId ∉ v.log ∧
      .reserved key v.nextId ∉ v.log := by
    intro key
    refine ⟨fun h => ?_, fun h => ?_, fun h => ?_⟩
    · exact absurd (hv.known _ key (.inl h)) (lt_irrefl _)
    · exact absurd (hv.known _ key (.inr (.inl h))) (lt_irrefl _)
    · exact absurd (hv.known _ key (.inr (.inr h))) (lt_irrefl _)
  have hpos := hn.pos
  obtain ⟨hids, hlive, hsame, hacked, hfailed, hreserved, hgone, hknown⟩ := hv
  constructor <;> simp only [hw, hlog, hnext, List.mem_append, List.mem_singleton] <;>
    grind [Function.update_apply]

theorem recorded_flag (hn : Numbered v) (hv : Recorded v) {j : Nat} {u u' : Work} {e : Event}
    (hu : v.work j = some u) (htime : u'.time = u.time) (hnext : v'.nextId = v.nextId)
    (hw : v'.work = Function.update v.work j (some u')) (hlog : v'.log = v.log ++ [e])
    (hsub : ∀ t, e ≠ .submitted t) (hacked : u'.acked = true ↔ u.acked = true ∨ e = .acked j)
    (hfailed : u'.failed = true ↔ u.failed = true ∨ e = .failed j)
    (hreserved : u'.reserved = true ↔ u.reserved = true ∨ e = .reserved u.key j)
    (honly : ∀ i key, e = .acked i ∨ e = .failed i ∨ e = .reserved key i → i = j) :
    Recorded v' := by
  have hkey : u'.key = u.key := by
    simp only [Work.key, htime]
  have hlt := (hn.works j u hu).2.2.1
  have hj := (hn.works j u hu).1
  obtain ⟨hids, hlive, hsame, hacked₀, hfailed₀, hreserved₀, hgone, hknown⟩ := hv
  constructor <;> simp only [hw, hlog, hnext, List.mem_append, List.mem_singleton] <;>
    grind [Function.update_apply]

theorem recorded_observe (hv : Recorded v) {through : Nat} {ids : List Nat}
    (hnext : v'.nextId = v.nextId)
    (hw : v'.work = fun id => if id ∈ v.covered key through then none else v.work id)
    (hlog : v'.log = v.log ++ [.observed key through ids]) : Recorded v' := by
  have hcov : ∀ id ∈ v.covered key through, .acked id ∈ v.log := by
    intro id hid
    obtain ⟨-, w, hw, -, hacked⟩ := mem_covered.mp hid
    exact (hv.acked id w hw).mp hacked
  obtain ⟨hids, hlive, hsame, hacked, hfailed, hreserved, hgone, hknown⟩ := hv
  constructor <;> simp only [hw, hlog, hnext, List.mem_append, List.mem_singleton] <;> grind

theorem recorded_step (hb : Books v) (hv : Recorded v) (h : Micro C v v') : Recorded v' := by
  have hn := hb.numbered
  cases h with
  | addData _ _ hid _ _ hflags | addSignal _ hid _ _ hflags =>
      exact recorded_add hn hv hid hflags rfl rfl rfl
  | reserve key j rest u hid hu hslot hcredit hfence =>
      obtain ⟨hukey, -⟩ := hb.placed.head hid hu
      exact recorded_flag hn hv hu (by rfl) rfl rfl rfl (by simp) (by simp) (by simp)
        (by simp [hukey]) (by simp)
  | execute _ _ _ _ _ hu | refuse _ _ _ _ _ hu | fail _ _ hu | ack _ _ hu =>
      exact recorded_flag hn hv hu (by rfl) rfl rfl rfl (by simp) (by simp) (by simp) (by simp)
        (by simp)
  | signal | fence | quieted => exact recorded_silent hv [_] rfl rfl rfl (by simp)
  | observe key i through ids hdue hdone hi => exact recorded_observe hv rfl rfl rfl
  | finish w rest hw =>
      by_cases hlast : v.remaining w.time.requestId - 1 = 0
      · refine recorded_silent hv [_] rfl rfl (if_pos hlast) (by simp)
      · refine recorded_silent hv [] rfl rfl ?_ (by simp)
        simp [hlast]
  | _ => exact recorded_silent hv [] rfl rfl (List.append_nil _).symm (by simp)

end View

namespace Submission

/-- `ledger_invariant`, with the history at hand. -/
theorem history_invariant {C : View → Nat → Prop} {K : Submission → Act → Prop}
    (hK : ∀ σ a, K σ a → MeetsCopy C σ a) {P : View → Prop}
    (hinit : ∀ c : Config, c.validate = .ok () → P (idle c).ledger)
    (hstep : ∀ v v', v.Books → v.Recorded → P v → Micro C v v' → P v') :
    (submissionMachine.restrict K).Invariant fun σ =>
      σ.ledger.Books ∧ σ.ledger.Recorded ∧ P σ.ledger := by
  refine ledger_invariant (P := fun v => v.Recorded ∧ P v) hK ?_ ?_
  · intro c hc
    refine ⟨?_, hinit c hc⟩
    constructor <;> simp [idle, ledger, view]
  · rintro v v' hb ⟨hr, hp⟩ h
    exact ⟨View.recorded_step hb hr h, hstep v v' hb hr hp h⟩

theorem run_invariant {P : View → Prop}
    (hinit : ∀ c : Config, c.validate = .ok () → P (idle c).ledger)
    (hstep : ∀ v v', v.Books → v.Recorded → P v → Micro (fun _ _ => True) v v' → P v') :
    submissionMachine.Invariant fun σ => σ.ledger.Books ∧ σ.ledger.Recorded ∧ P σ.ledger := by
  intro σ hreach
  refine history_invariant (K := fun _ _ => True) ?_ hinit hstep σ (hreach.restrict fun _ _ => trivial)
  intro σ a _
  cases a <;> simp [MeetsCopy]

/-- **Every run is a run of the ledger.** Whatever the calls and events, the ledger of a reachable state
comes from that of an idle one by ledger steps. -/
theorem submission_refines_ledger : submissionMachine.Invariant fun σ => ∃ c : Config,
    c.validate = .ok () ∧ Chain (fun _ _ => True) (idle c).ledger σ.ledger := by
  intro σ hreach
  refine (run_invariant (P := fun v => ∃ c : Config, c.validate = .ok () ∧
    Chain (fun _ _ => True) (idle c).ledger v) (fun c hc => ⟨c, hc, .refl⟩) ?_ σ hreach).2.2
  rintro v v' - - ⟨c, hc, hrun⟩ hstep
  exact ⟨c, hc, hrun.tail hstep⟩

end Submission

end ProtoBridge.Rdma
