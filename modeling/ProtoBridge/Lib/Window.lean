import Mathlib.Algebra.Order.Group.Nat
import Mathlib.Data.List.Basic

/-!
# Numbered items under cumulative acknowledgement

A sender numbers its items and keeps each of them until an acknowledgement covers
it. The receiver names the last number it has seen; several items may share one
acknowledgement. Items and acknowledgements travel on two lines that deliver in
order. `Sound` is what the four operations keep.
-/

namespace ProtoBridge.Lib

/-- Sender, receiver and the two lines between them. An item is kept with its size. -/
@[ext]
structure Window where
  next : Nat := 1
  kept : List (Nat × Nat) := []
  flight : List Nat := []
  received : Nat := 0
  pending : Nat := 0
  acks : List Nat := []

namespace Window

/-- The last number the sender knows to be received. -/
def acked (w : Window) : Nat := w.next - 1 - w.kept.length

/-- The sender sends one more item. -/
def send (w : Window) (size : Nat) : Window :=
  { w with next := w.next + 1, kept := w.kept ++ [(w.next, size)], flight := w.flight ++ [w.next] }

/-- The first item on the line arrives under number `n`. -/
def arrive (w : Window) (n : Nat) : Window :=
  { w with flight := w.flight.tail, received := n, pending := w.pending + 1 }

/-- The receiver acknowledges all it has received. -/
def acknowledge (w : Window) : Window :=
  { w with acks := w.acks ++ [w.received], pending := 0 }

/-- The first acknowledgement on the line arrives, for all numbers up to `a`. -/
def learn (w : Window) (a : Nat) : Window :=
  { w with acks := w.acks.tail, kept := w.kept.dropWhile fun x => x.1 ≤ a }

/-- Nothing is skipped or repeated: the line holds the numbers between the receiver and the sender,
the kept items are those after the last acknowledgement the sender has got, the acknowledgements
under way rise from there, and the last of them leaves `pending` items out. -/
structure Sound (w : Window) : Prop where
  behind : w.received < w.next
  flight : w.flight = List.range' (w.received + 1) (w.next - 1 - w.received)
  length : w.kept.length < w.next
  kept : w.kept.map Prod.fst = List.range' (w.acked + 1) w.kept.length
  acks : (w.acked :: w.acks).Pairwise (· < ·)
  pending : w.acks.getLast?.getD w.acked + w.pending = w.received

theorem dropWhile_kept {kept : List (Nat × Nat)} {s a : Nat}
    (h : kept.map Prod.fst = List.range' (s + 1) kept.length) (hs : s ≤ a) :
    (kept.dropWhile fun x => x.1 ≤ a) = kept.drop (a - s) := by
  induction kept generalizing s with
  | nil => simp
  | cons x kept ih =>
      rw [List.map_cons, List.length_cons, List.range'_succ, List.cons.injEq] at h
      obtain ⟨first, rest⟩ := h
      by_cases done : a = s
      · subst done
        rw [List.dropWhile_cons_of_neg (by simp [first]), Nat.sub_self, List.drop_zero]
      · have covered : x.1 ≤ a := by omega
        rw [List.dropWhile_cons_of_pos (by simpa using covered), ih rest (by omega)]
        rw [show a - s = (a - (s + 1)) + 1 by omega, List.drop_succ_cons]

namespace Sound

variable {w : Window} {n a : Nat} {rest : List Nat}

theorem initial : Sound {} := by
  constructor <;> simp [Window.acked]

theorem acked_add (h : w.Sound) : w.acked + w.kept.length + 1 = w.next := by
  have length := h.length
  unfold Window.acked
  omega

theorem mem_acks (h : w.Sound) (ha : a ∈ w.acks) : w.acked < a ∧ a ≤ w.received := by
  refine ⟨List.rel_of_pairwise_cons h.acks ha, ?_⟩
  obtain ⟨init, last, eq⟩ : ∃ init last, w.acks = init ++ [last] := by
    have ne : w.acks ≠ [] := List.ne_nil_of_mem ha
    exact ⟨w.acks.dropLast, w.acks.getLast ne, (List.dropLast_append_getLast ne).symm⟩
  have pending := h.pending
  have rising := (List.pairwise_cons.1 h.acks).2
  rw [eq] at pending rising ha
  rw [List.getLast?_concat, Option.getD_some] at pending
  rcases List.mem_append.1 ha with early | late
  · have := (List.pairwise_append.1 rising).2.2 a early last (List.mem_singleton_self _)
    omega
  · obtain rfl := List.mem_singleton.1 late
    omega

theorem send (h : w.Sound) (size : Nat) : (w.send size).Sound := by
  have behind := h.behind
  have total := h.acked_add
  have same : (w.send size).acked = w.acked := by
    simp only [Window.acked, Window.send, List.length_append, List.length_singleton] at total ⊢
    omega
  constructor
  · show w.received < w.next + 1
    omega
  · show w.flight ++ [w.next] = List.range' (w.received + 1) (w.next + 1 - 1 - w.received)
    rw [h.flight, show w.next + 1 - 1 - w.received = (w.next - 1 - w.received) + 1 by omega,
      List.range'_concat, Nat.one_mul, show w.received + 1 + (w.next - 1 - w.received) = w.next by omega]
  · show (w.kept ++ [(w.next, size)]).length < w.next + 1
    have length := h.length
    rw [List.length_append, List.length_singleton]
    omega
  · rw [same]
    show (w.kept ++ [(w.next, size)]).map Prod.fst =
      List.range' (w.acked + 1) (w.kept ++ [(w.next, size)]).length
    rw [List.map_append, h.kept, List.length_append, List.length_singleton, List.range'_concat,
      Nat.one_mul, show w.acked + 1 + w.kept.length = w.next by omega]
    rfl
  · rw [same]
    exact h.acks
  · rw [same]
    exact h.pending

theorem first (h : w.Sound) (line : w.flight = n :: rest) : n = w.received + 1 := by
  have flight := h.flight
  rw [line] at flight
  cases count : w.next - 1 - w.received with
  | zero =>
      rw [count] at flight
      cases flight
  | succ k =>
      rw [count, List.range'_succ] at flight
      exact (List.cons.inj flight).1

theorem arrive (h : w.Sound) (line : w.flight = n :: rest) : (w.arrive n).Sound := by
  have flight := h.flight
  have next : n = w.received + 1 := h.first line
  subst next
  have more : w.received + 1 < w.next := by
    by_contra none
    have behind := h.behind
    rw [show w.next - 1 - w.received = 0 by omega, line] at flight
    cases flight
  constructor
  · exact more
  · show w.flight.tail = List.range' (w.received + 1 + 1) (w.next - 1 - (w.received + 1))
    rw [flight, show w.next - 1 - w.received = (w.next - 1 - (w.received + 1)) + 1 by omega,
      List.range'_succ]
    rfl
  · exact h.length
  · exact h.kept
  · exact h.acks
  · show w.acks.getLast?.getD w.acked + (w.pending + 1) = w.received + 1
    rw [← Nat.add_assoc, h.pending]

theorem acknowledge (h : w.Sound) (some : w.pending ≠ 0) : w.acknowledge.Sound := by
  have news : ∀ a ∈ w.acked :: w.acks, a < w.received := by
    have pending := h.pending
    have upto : ∀ a ∈ w.acked :: w.acks, a ≤ w.acks.getLast?.getD w.acked := by
      intro a ha
      cases last : w.acks.getLast? with
      | none =>
          rw [List.getLast?_eq_none_iff] at last
          rw [last, List.mem_singleton] at ha
          exact ha.le
      | some b =>
          have bounds := h.mem_acks (List.mem_of_getLast? last)
          rw [Option.getD_some]
          rcases List.mem_cons.1 ha with rfl | late
          · exact bounds.1.le
          · obtain ⟨init, eq⟩ := List.getLast?_eq_some_iff.1 last
            have rising := (List.pairwise_cons.1 h.acks).2
            rw [eq] at rising late
            rcases List.mem_append.1 late with early | late
            · exact ((List.pairwise_append.1 rising).2.2 a early b (List.mem_singleton_self _)).le
            · exact (List.mem_singleton.1 late).le
    intro a ha
    have := upto a ha
    omega
  constructor
  · exact h.behind
  · exact h.flight
  · exact h.length
  · exact h.kept
  · show (w.acked :: (w.acks ++ [w.received])).Pairwise (· < ·)
    rw [← List.cons_append, List.pairwise_append]
    refine ⟨h.acks, List.pairwise_singleton _ _, fun a ha b hb => ?_⟩
    rw [List.mem_singleton.1 hb]
    exact news a ha
  · show (w.acks ++ [w.received]).getLast?.getD _ + 0 = w.received
    rw [List.getLast?_concat]
    rfl

theorem acked_learn (h : w.Sound) (line : w.acks = a :: rest) :
    (w.learn a).acked = a ∧ (w.learn a).kept = w.kept.drop (a - w.acked) := by
  have bounds := h.mem_acks (a := a) (by rw [line]; exact List.mem_cons_self)
  have total := h.acked_add
  have behind := h.behind
  have kept : (w.learn a).kept = w.kept.drop (a - w.acked) := dropWhile_kept h.kept bounds.1.le
  refine ⟨?_, kept⟩
  unfold Window.acked
  rw [kept, List.length_drop]
  show w.next - 1 - (w.kept.length - (a - w.acked)) = a
  omega

theorem learn (h : w.Sound) (line : w.acks = a :: rest) : (w.learn a).Sound := by
  have bounds := h.mem_acks (a := a) (by rw [line]; exact List.mem_cons_self)
  have total := h.acked_add
  obtain ⟨acked, kept⟩ := h.acked_learn line
  have rising := h.acks
  rw [line] at rising
  constructor
  · exact h.behind
  · exact h.flight
  · rw [kept, List.length_drop]
    show w.kept.length - _ < w.next
    omega
  · rw [acked, kept, List.map_drop, h.kept, List.length_drop]
    rw [List.drop_range']
    congr 1
    omega
  · rw [acked]
    show (a :: w.acks.tail).Pairwise (· < ·)
    rw [line]
    exact (List.pairwise_cons.1 rising).2
  · rw [acked]
    show w.acks.tail.getLast?.getD a + w.pending = w.received
    have pending := h.pending
    rw [line] at pending ⊢
    cases rest with
    | nil => exact pending
    | cons b rest => exact pending

end Sound

/-! ## Records of numbers -/

theorem le_last {acks : List Nat} {m : Nat} (rising : (0 :: acks).Pairwise (· < ·))
    (last : acks.getLast?.getD 0 = m) : ∀ a ∈ 0 :: acks, a ≤ m := by
  intro a ha
  rcases List.mem_cons.1 ha with rfl | ha
  · exact Nat.zero_le m
  · cases eq : acks.getLast? with
    | none =>
        rw [List.getLast?_eq_none_iff.1 eq] at ha
        cases ha
    | some b =>
        rw [eq, Option.getD_some] at last
        subst last
        obtain ⟨init, rfl⟩ := List.getLast?_eq_some_iff.1 eq
        rcases List.mem_append.1 ha with early | late
        · exact ((List.pairwise_append.1 (List.pairwise_cons.1 rising).2).2.2 a early b
            (List.mem_singleton_self _)).le
        · exact (List.mem_singleton.1 late).le

theorem uncovered_eq {acks : List Nat} {m n : Nat} (rising : (0 :: acks).Pairwise (· < ·))
    (last : acks.getLast?.getD 0 = m) (hm : m ≤ n) :
    ((List.range' 1 n).filter fun k => ∀ a ∈ acks, a < k) = List.range' (m + 1) (n - m) := by
  have covers : ∀ k, 1 ≤ k → ((∀ a ∈ acks, a < k) ↔ m < k) := by
    intro k hk
    constructor
    · intro h
      cases eq : acks.getLast? with
      | none =>
          rw [eq, Option.getD_none] at last
          omega
      | some b =>
          rw [eq, Option.getD_some] at last
          exact last ▸ h b (List.mem_of_getLast? eq)
    · intro h a ha
      have top := le_last rising last a (List.mem_cons_of_mem 0 ha)
      omega
  have split : List.range' 1 n = List.range' 1 m ++ List.range' (m + 1) (n - m) := by
    have append := @List.range'_append_1 1 m (n - m)
    rw [Nat.add_comm 1 m, show m + (n - m) = n by omega] at append
    exact append.symm
  rw [split, List.filter_append]
  have low : ((List.range' 1 m).filter fun k => ∀ a ∈ acks, a < k) = [] := by
    rw [List.filter_eq_nil_iff]
    intro k hk
    rw [List.mem_range'_1] at hk
    rw [decide_eq_true_eq, covers k hk.1]
    omega
  have high : ((List.range' (m + 1) (n - m)).filter fun k => ∀ a ∈ acks, a < k) =
      List.range' (m + 1) (n - m) := by
    rw [List.filter_eq_self]
    intro k hk
    rw [List.mem_range'_1] at hk
    rw [decide_eq_true_eq, covers k (by omega)]
    omega
  rw [low, high, List.nil_append]

end Window

end ProtoBridge.Lib
