import Mathlib.Data.UInt

/-!
# Numbers as bytes

A number in a fixed count of bytes, the most significant first, and a reader that takes such
numbers off the front of a string of bytes.
-/

namespace ProtoBridge.Lib

/-- The lowest `width` bytes of a number, the most significant first. -/
def bytesOf : Nat → Nat → List UInt8
  | 0, _ => []
  | width + 1, n => bytesOf width (n / 256) ++ [UInt8.ofNat n]

/-- The number some bytes spell. -/
def ofBytes (bytes : List UInt8) : Nat := bytes.foldl (fun n byte => n * 256 + byte.toNat) 0

/-- Take a number of `width` bytes off the front. -/
def readBytes (width : Nat) (bytes : List UInt8) : Option (Nat × List UInt8) :=
  if width ≤ bytes.length then some (ofBytes (bytes.take width), bytes.drop width) else none

@[simp] theorem length_bytesOf (width n : Nat) : (bytesOf width n).length = width := by
  induction width generalizing n with
  | zero => rfl
  | succ width ih => rw [bytesOf, List.length_append, ih, List.length_singleton]

@[simp] theorem ofBytes_bytesOf (width n : Nat) : ofBytes (bytesOf width n) = n % 256 ^ width := by
  induction width generalizing n with
  | zero => exact (Nat.mod_one n).symm
  | succ width ih =>
      rw [bytesOf, ofBytes, List.foldl_append]
      change ofBytes (bytesOf width (n / 256)) * 256 + (UInt8.ofNat n).toNat = _
      have digits : n % 256 ^ (width + 1) = n % 256 + 256 * (n / 256 % 256 ^ width) := by
        rw [Nat.pow_succ', Nat.mod_mul]
      have last : (UInt8.ofNat n).toNat = n % 256 := UInt8.toNat_ofNat'
      rw [ih, last, digits]
      omega

theorem readBytes_append (width n : Nat) (rest : List UInt8) :
    readBytes width (bytesOf width n ++ rest) = some (n % 256 ^ width, rest) := by
  rw [readBytes, if_pos (by simp), List.take_left' (length_bytesOf width n),
    List.drop_left' (length_bytesOf width n), ofBytes_bytesOf]

theorem readBytes_bind {α : Type} (width n : Nat) (rest : List UInt8)
    (next : Nat × List UInt8 → Option α) :
    (readBytes width (bytesOf width n ++ rest) >>= next) = next (n % 256 ^ width, rest) := by
  rw [readBytes_append]
  rfl

end ProtoBridge.Lib
