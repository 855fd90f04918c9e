import Mathlib.Algebra.BigOperators.Group.List.Basic
import Mathlib.Tactic.Ring

/-!
# Forwarding by a quantum

A forwarder of a flow of a known length sends on what is ready in pieces of one quantum. The rest below
a quantum is held back until more is ready, or all of the flow is. So what is sent on never exceeds what
is ready, and when all is ready all is sent on.
-/

namespace ProtoBridge.Lib

/-- The pieces of at most so many rounds, `sent` being what has been sent on before. -/
def piecesWithin (quantum total ready : Nat) : Nat → Nat → List Nat
  | 0, _ => []
  | rounds + 1, sent =>
      if sent < ready then
        let remaining := ready - sent
        if remaining < quantum ∧ ready < total then []
        else
          min remaining quantum ::
            piecesWithin quantum total ready rounds (sent + min remaining quantum)
      else []

/-- The pieces that are sent on when so much is ready. A piece is not empty, so these are rounds
enough. -/
def pieces (quantum total ready sent : Nat) : List Nat :=
  piecesWithin quantum total ready (ready - sent) sent

variable {quantum total ready rounds sent piece : Nat}

theorem sum_piecesWithin_le (hsent : sent ≤ ready) :
    sent + (piecesWithin quantum total ready rounds sent).sum ≤ ready := by
  induction rounds generalizing sent with
  | zero => exact hsent
  | succ rounds ih =>
      unfold piecesWithin
      dsimp only
      split
      · split
        · exact hsent
        · rw [List.sum_cons, ← Nat.add_assoc]
          exact ih (by omega)
      · exact hsent

theorem sum_pieces_le (hsent : sent ≤ ready) :
    sent + (pieces quantum total ready sent).sum ≤ ready :=
  sum_piecesWithin_le hsent

theorem sum_piecesWithin_eq (hquantum : 0 < quantum) (hready : total ≤ ready) (hsent : sent ≤ ready)
    (hrounds : ready - sent ≤ rounds) :
    sent + (piecesWithin quantum total ready rounds sent).sum = ready := by
  induction rounds generalizing sent with
  | zero =>
      show sent + 0 = ready
      omega
  | succ rounds ih =>
      unfold piecesWithin
      dsimp only
      split
      · rw [if_neg (by omega), List.sum_cons, ← Nat.add_assoc]
        exact ih (by omega) (by omega)
      · show sent + 0 = ready
        omega

theorem sum_pieces_eq (hquantum : 0 < quantum) (hready : total ≤ ready) (hsent : sent ≤ ready) :
    sent + (pieces quantum total ready sent).sum = ready :=
  sum_piecesWithin_eq hquantum hready hsent le_rfl

end ProtoBridge.Lib
