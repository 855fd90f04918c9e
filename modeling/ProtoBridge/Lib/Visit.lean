import Mathlib.Data.List.Forall2
import Mathlib.Order.Basic

/-!
# Loops that answer

A loop that visits items in order. A visit moves the state on and gives an answer or none.
`turn` is the state in which the loop comes to an item, and `answered` reads the list of
answers off it: one for each item that is due at its turn, in order, and no others.
-/

namespace ProtoBridge.Lib.Visit

variable {κ σ ρ : Type*} {step : κ → σ → σ × Option ρ} {ks : List κ} {s : σ}

/-- The loop. -/
def visit (step : κ → σ → σ × Option ρ) : List κ → σ → σ × List ρ
  | [], s => (s, [])
  | k :: ks, s =>
      let (s, r) := step k s
      let (s, rs) := visit step ks s
      (s, r.toList ++ rs)

/-- The state in which the loop comes to its `i`-th item: it has visited those before. -/
def turn (step : κ → σ → σ × Option ρ) (ks : List κ) (s : σ) (i : Nat) : σ :=
  (visit step (ks.take i) s).1

theorem turn_succ (k : κ) (i : Nat) :
    turn step (k :: ks) s (i + 1) = turn step ks (step k s).1 i := rfl

theorem turn_nil (i : Nat) : turn step [] s i = s := by
  rw [turn, List.take_nil]
  rfl

theorem turn_next {i : Nat} (h : i < ks.length) :
    turn step ks s (i + 1) = (step ks[i] (turn step ks s i)).1 := by
  induction ks generalizing s i with
  | nil => exact absurd h (Nat.not_lt_zero i)
  | cons k ks ih =>
      cases i with
      | zero =>
          rw [turn_succ]
          cases ks <;> rfl
      | succ i =>
          rw [turn_succ, turn_succ]
          exact ih (Nat.lt_of_succ_lt_succ h)

theorem turn_past {i : Nat} (h : ks.length ≤ i) : turn step ks s i = (visit step ks s).1 := by
  rw [turn, List.take_of_length_le h]

theorem turn_invariant {I : σ → Prop} (keeps : ∀ k ∈ ks, ∀ s, I s → I (step k s).1) (hs : I s)
    (i : Nat) : I (turn step ks s i) := by
  induction ks generalizing s i with
  | nil =>
      rw [turn_nil]
      exact hs
  | cons k ks ih =>
      cases i with
      | zero => exact hs
      | succ i =>
          rw [turn_succ]
          exact ih (fun k hk => keeps k (List.mem_cons_of_mem _ hk))
            (keeps k List.mem_cons_self s hs) i

/-- The answers are those of the items that are due at their turns, in order. -/
def Answered (due : σ → κ → Prop) (gives : σ → κ → ρ → σ → Prop) (turn : Nat → σ) (ks : List κ)
    (rs : List ρ) : Prop :=
  ∃ is : List Nat, is.Pairwise (· < ·) ∧
    (∀ i, i ∈ is ↔ ∃ h : i < ks.length, due (turn i) ks[i]) ∧
    List.Forall₂ (fun i r => ∃ h : i < ks.length, gives (turn i) ks[i] r (turn (i + 1))) is rs

variable {due : σ → κ → Prop} {gives : σ → κ → ρ → σ → Prop}

theorem Answered.tail {turn : Nat → σ} {k : κ} {rs : List ρ}
    (h : Answered due gives (fun i => turn (i + 1)) ks rs) :
    ∃ is : List Nat, is.Pairwise (· < ·) ∧ (∀ i ∈ is, 0 < i) ∧
      (∀ i, i ∈ is ↔ 0 < i ∧ ∃ h : i < (k :: ks).length, due (turn i) (k :: ks)[i]) ∧
      List.Forall₂ (fun i r => ∃ h : i < (k :: ks).length,
        gives (turn i) (k :: ks)[i] r (turn (i + 1))) is rs := by
  obtain ⟨is, rising, mem, all⟩ := h
  have later : ∀ i, i ∈ is.map (· + 1) ↔
      0 < i ∧ ∃ h : i < (k :: ks).length, due (turn i) (k :: ks)[i] := by
    intro i
    rw [List.mem_map]
    constructor
    · rintro ⟨j, hj, rfl⟩
      obtain ⟨hlt, hdue⟩ := (mem j).mp hj
      exact ⟨Nat.succ_pos j, Nat.succ_lt_succ hlt, hdue⟩
    · rintro ⟨pos, hlt, hdue⟩
      obtain ⟨j, rfl⟩ := Nat.exists_eq_succ_of_ne_zero (Nat.ne_of_gt pos)
      exact ⟨j, (mem j).mpr ⟨Nat.lt_of_succ_lt_succ hlt, hdue⟩, rfl⟩
  refine ⟨is.map (· + 1), ?_, fun i hi => ((later i).mp hi).1, later, ?_⟩
  · rw [List.pairwise_map]
    exact rising.imp Nat.succ_lt_succ
  · rw [List.forall₂_map_left_iff]
    exact all.imp fun _ _ ⟨hlt, hgives⟩ => ⟨Nat.succ_lt_succ hlt, hgives⟩

theorem answered {I : σ → Prop} (keeps : ∀ k ∈ ks, ∀ s, I s → I (step k s).1)
    (gave : ∀ k ∈ ks, ∀ s, I s → ∀ r, (step k s).2 = some r →
      due s k ∧ gives s k r (step k s).1)
    (silent : ∀ k ∈ ks, ∀ s, I s → (step k s).2 = none → ¬ due s k) (hs : I s) :
    Answered due gives (turn step ks s) ks (visit step ks s).2 := by
  induction ks generalizing s with
  | nil =>
      refine ⟨[], .nil, fun i => ⟨fun hi => (by cases hi), ?_⟩, .nil⟩
      rintro ⟨hlt, -⟩
      exact absurd hlt (Nat.not_lt_zero i)
  | cons k ks ih =>
      have rest : Answered due gives (fun i => turn step (k :: ks) s (i + 1)) ks
          (visit step ks (step k s).1).2 :=
        ih (fun k hk => keeps k (List.mem_cons_of_mem _ hk))
          (fun k hk => gave k (List.mem_cons_of_mem _ hk))
          (fun k hk => silent k (List.mem_cons_of_mem _ hk)) (keeps k List.mem_cons_self s hs)
      obtain ⟨is, rising, pos, mem, all⟩ := Answered.tail (k := k) rest
      show Answered due gives _ _ ((step k s).2.toList ++ (visit step ks (step k s).1).2)
      cases answer : (step k s).2 with
      | none =>
          have notDue := silent k List.mem_cons_self s hs answer
          refine ⟨is, rising, fun i => (mem i).trans ⟨And.right, fun both => ⟨?_, both⟩⟩, all⟩
          rcases Nat.eq_zero_or_pos i with rfl | later
          · exact absurd both.2 notDue
          · exact later
      | some r =>
          obtain ⟨hdue, hgives⟩ := gave k List.mem_cons_self s hs r answer
          refine ⟨0 :: is, List.pairwise_cons.mpr ⟨pos, rising⟩, fun i => ?_,
            .cons ⟨Nat.succ_pos _, hgives⟩ all⟩
          rw [List.mem_cons, mem]
          constructor
          · rintro (rfl | ⟨-, both⟩)
            · exact ⟨Nat.succ_pos _, hdue⟩
            · exact both
          · intro both
            rcases Nat.eq_zero_or_pos i with rfl | later
            · exact .inl rfl
            · exact .inr ⟨later, both⟩

end ProtoBridge.Lib.Visit
