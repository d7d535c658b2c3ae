import Mathlib.Data.Nat.Bitwise
import Mathlib.Tactic.Common
import Mathlib.Tactic.Ring

/-!
The bits of a byte string, the highest of each byte first, and the numbers they write.
-/

namespace Dyx3.Lib

def byteBits (b : UInt8) : List Bool := (List.range 8).map fun i => b.toNat.testBit (7 - i)

def bits (data : List UInt8) : List Bool := data.flatMap byteBits

/-- The number with the bits, the highest first. -/
def number (bits : List Bool) : ℕ := bits.foldl (fun n bit => 2 * n + bit.toNat) 0

theorem length_byteBits (b : UInt8) : (byteBits b).length = 8 := rfl

theorem bits_cons (b : UInt8) (data : List UInt8) : bits (b :: data) = byteBits b ++ bits data := rfl

theorem bits_append (xs ys : List UInt8) : bits (xs ++ ys) = bits xs ++ bits ys := List.flatMap_append

theorem length_bits (data : List UInt8) : (bits data).length = 8 * data.length := by
  induction data with
  | nil => rfl
  | cons b data ih =>
    rw [bits_cons, List.length_append, ih, length_byteBits, List.length_cons]
    ring

theorem bits_drop (data : List UInt8) (n : ℕ) : bits (data.drop n) = (bits data).drop (8 * n) := by
  induction n generalizing data with
  | zero => rfl
  | succ n ih =>
    cases data with
    | nil => simp [bits]
    | cons b data =>
      rw [List.drop_succ_cons, ih, bits_cons, Nat.mul_succ, Nat.add_comm, ← List.drop_drop]
      rw [← length_byteBits b, List.drop_left]

theorem bits_take (data : List UInt8) (n : ℕ) : bits (data.take n) = (bits data).take (8 * n) := by
  have whole : bits (data.take n) ++ (bits data).drop (8 * n) = bits data := by
    rw [← bits_drop, ← bits_append, List.take_append_drop]
  rcases Nat.le_total data.length n with short | long
  · rw [List.take_of_length_le short, List.take_of_length_le (by rw [length_bits]; omega)]
  · have length : (bits (data.take n)).length = 8 * n := by rw [length_bits, List.length_take, min_eq_left long]
    conv_rhs => rw [← whole, ← length, List.take_left]

theorem bits_zeros (n : ℕ) : bits (List.replicate n 0) = List.replicate (8 * n) false := by
  induction n with
  | zero => rfl
  | succ n ih =>
    rw [List.replicate_succ, bits_cons, ih, Nat.mul_succ, Nat.add_comm, ← List.replicate_append_replicate]
    rfl

theorem number_fold (bits : List Bool) (n : ℕ) :
    bits.foldl (fun n bit => 2 * n + bit.toNat) n = n * 2 ^ bits.length + number bits := by
  induction bits generalizing n with
  | nil => simp [number]
  | cons bit bits ih =>
    rw [number, List.foldl_cons, List.foldl_cons, ih, ih (2 * 0 + bit.toNat), List.length_cons]
    ring

theorem number_append (xs ys : List Bool) : number (xs ++ ys) = number xs * 2 ^ ys.length + number ys := by
  rw [number, List.foldl_append, number_fold]
  rfl

theorem number_lt (bits : List Bool) : number bits < 2 ^ bits.length := by
  induction bits with
  | nil => exact Nat.one_pos
  | cons bit bits ih =>
    have small := bit.toNat_lt
    have head : (2 * 0 + bit.toNat) * 2 ^ bits.length ≤ 1 * 2 ^ bits.length := Nat.mul_le_mul_right _ (by omega)
    rw [number, List.foldl_cons, number_fold, List.length_cons, pow_succ]
    omega

theorem number_byte (b : UInt8) : number (byteBits b) = b.toNat := by
  have all : ∀ n < 256, number ((List.range 8).map fun i => n.testBit (7 - i)) = n := by decide +kernel
  exact all b.toNat (UInt8.toNat_lt b)

/-- A byte string writes its number in base 256. -/
theorem number_concat (data : List UInt8) (b : UInt8) : number (bits (data ++ [b])) = number (bits data) * 256 + b.toNat := by
  rw [bits_append, number_append, length_bits, show bits [b] = byteBits b from List.flatMap_singleton .., number_byte]
  rfl

end Dyx3.Lib
