import Mathlib.Algebra.CharP.Two
import Mathlib.Algebra.Field.ZMod
import Mathlib.Algebra.Polynomial.Div
import Mathlib.Data.Nat.Bitwise
import Mathlib.Data.ZMod.Basic

/-!
Polynomials over GF(2) written as numbers, the coefficients as bits: addition is exclusive or and multiplication by a power of `X`
is a shift. The remainder of a long division is found with shifts and exclusive ors.
-/

namespace Dyx3.Lib.Gf2

open Polynomial

/-- The polynomial with the bits of a number. -/
noncomputable def poly (n : ℕ) : (ZMod 2)[X] := ∑ i ∈ Finset.range n, if n.testBit i then X ^ i else 0

theorem testBit_lt {n i : ℕ} (bit : n.testBit i = true) : i < n :=
  lt_of_lt_of_le Nat.lt_two_pow_self (Nat.ge_two_pow_of_testBit bit)

theorem coeff_poly (n i : ℕ) : (poly n).coeff i = if n.testBit i then 1 else 0 := by
  have terms : ∀ j, (if n.testBit j then X ^ j else (0 : (ZMod 2)[X])).coeff i = if j = i then (if n.testBit i then 1 else 0) else 0 := by
    intro j
    by_cases same : j = i
    · subst same
      rw [if_pos rfl, apply_ite (fun p => coeff p j), coeff_X_pow_self, coeff_zero]
    · rw [if_neg same, apply_ite (fun p => coeff p i), coeff_X_pow, if_neg (Ne.symm same), coeff_zero, ite_self]
  rw [poly, finsetSum_coeff, Finset.sum_congr rfl fun j _ => terms j, Finset.sum_ite_eq']
  by_cases bit : n.testBit i
  · rw [if_pos (Finset.mem_range.mpr (testBit_lt bit))]
  · rw [if_neg bit, ite_self]

theorem poly_injective : Function.Injective poly := by
  intro m n same
  refine Nat.eq_of_testBit_eq fun i => ?_
  have coeffs := congrArg (fun p => p.coeff i) same
  simp only [coeff_poly] at coeffs
  cases left : m.testBit i <;> cases right : n.testBit i <;> simp only [left, right] at coeffs ⊢
  · exact absurd coeffs (by decide)
  · exact absurd coeffs (by decide)

theorem poly_zero : poly 0 = 0 := Finset.sum_range_zero _

theorem poly_xor (m n : ℕ) : poly (m ^^^ n) = poly m + poly n := by
  ext i
  rw [coeff_add, coeff_poly, coeff_poly, coeff_poly, Nat.testBit_xor]
  cases m.testBit i <;> cases n.testBit i <;> decide

theorem poly_shiftLeft (n k : ℕ) : poly (n <<< k) = poly n * X ^ k := by
  ext i
  rw [coeff_mul_X_pow', coeff_poly, Nat.testBit_shiftLeft]
  by_cases le : k ≤ i
  · simp only [le, if_true, coeff_poly, decide_true, Bool.true_and]
  · simp [le]

theorem degree_poly {n k : ℕ} (small : n < 2 ^ k) : (poly n).degree < k := by
  rw [degree_lt_iff_coeff_zero]
  intro i large
  have high := Nat.testBit_lt_two_pow (lt_of_lt_of_le small (Nat.pow_le_pow_right (by decide) large))
  rw [coeff_poly, high]
  rfl

/-- A number with the highest bit `k`. -/
theorem poly_monic {n k : ℕ} (top : n.testBit k = true) (small : n < 2 ^ (k + 1)) : (poly n).Monic ∧ (poly n).degree = k := by
  have lead : (poly n).coeff k = 1 := by rw [coeff_poly, top]; rfl
  have low : (poly n).degree ≤ k := Order.lt_succ_iff.mp (degree_poly small)
  exact ⟨monic_of_degree_le k low lead, degree_eq_of_le_of_coeff_ne_zero low (by rw [lead]; exact one_ne_zero)⟩

/-! ### Remainders -/

section

variable {g k : ℕ} (top : g.testBit k = true) (small : g < 2 ^ (k + 1))

include top small

theorem remainder_unique {r : ℕ} {f : (ZMod 2)[X]} (low : r < 2 ^ k) (same : poly g ∣ f - poly r) : poly r = f %ₘ poly g := by
  obtain ⟨monic, degree⟩ := poly_monic top small
  obtain ⟨q, factor⟩ := same
  have sum : poly r + poly g * q = f := by rw [← factor, add_sub_cancel]
  exact (div_modByMonic_unique q (poly r) monic ⟨sum, by rw [degree]; exact degree_poly low⟩).2.symm

end

/-- One bit more of the dividend behind the remainder so far. -/
def divide (g k r : ℕ) (bit : Bool) : ℕ :=
  let r := r <<< 1 ^^^ bit.toNat
  if r.testBit k then r ^^^ g else r

/-- The dividend with the bits, the highest first. -/
noncomputable def ofBits (bits : List Bool) : (ZMod 2)[X] := bits.foldl (fun p bit => p * X + poly bit.toNat) 0

theorem divide_lt {g k r : ℕ} (top : g.testBit k = true) (small : g < 2 ^ (k + 1)) (low : r < 2 ^ k) (bit : Bool) : divide g k r bit < 2 ^ k := by
  have bound : r <<< 1 ^^^ bit.toNat < 2 ^ (k + 1) := by
    refine Nat.xor_lt_two_pow ?_ ?_
    · rw [Nat.shiftLeft_eq, pow_one, pow_succ]
      omega
    · exact lt_of_lt_of_le bit.toNat_lt (by rw [pow_succ]; have := Nat.two_pow_pos k; omega)
  have below : ∀ {n}, n < 2 ^ (k + 1) → n.testBit k = false → n < 2 ^ k := by
    intro n less none
    refine Nat.lt_pow_two_of_testBit n fun i large => ?_
    rcases large.eq_or_lt with rfl | above
    · exact none
    · exact Nat.testBit_lt_two_pow (lt_of_lt_of_le less (Nat.pow_le_pow_right (by decide) above))
  unfold divide
  dsimp only
  split
  · rename_i set
    exact below (Nat.xor_lt_two_pow bound small) (by rw [Nat.testBit_xor, set, top]; rfl)
  · rename_i clear
    exact below bound (by simpa using clear)

theorem poly_divide (g k r : ℕ) (bit : Bool) : poly g ∣ poly r * X + poly bit.toNat - poly (divide g k r bit) := by
  have shifted : poly (r <<< 1 ^^^ bit.toNat) = poly r * X + poly bit.toNat := by
    rw [poly_xor, poly_shiftLeft, pow_one]
  unfold divide
  dsimp only
  split
  · refine ⟨1, ?_⟩
    rw [poly_xor, shifted, mul_one, sub_add_cancel_left, CharTwo.neg_eq]
  · rw [shifted, sub_self]
    exact dvd_zero _

/-- The long division of the bits gives the remainder. -/
theorem division_remainder {g k : ℕ} (top : g.testBit k = true) (small : g < 2 ^ (k + 1)) (bits : List Bool) :
    poly (bits.foldl (divide g k) 0) = ofBits bits %ₘ poly g := by
  have run : bits.foldl (divide g k) 0 < 2 ^ k ∧ poly g ∣ ofBits bits - poly (bits.foldl (divide g k) 0) := by
    induction bits using List.reverseRecOn with
    | nil => exact ⟨Nat.two_pow_pos k, by rw [ofBits, List.foldl_nil, List.foldl_nil, poly_zero, sub_self]; exact dvd_zero _⟩
    | append_singleton bits bit ih =>
      obtain ⟨low, same⟩ := ih
      rw [ofBits, List.foldl_append, List.foldl_append]
      refine ⟨divide_lt top small low bit, ?_⟩
      have next := dvd_add (dvd_mul_of_dvd_left same X) (poly_divide g k (bits.foldl (divide g k) 0) bit)
      convert next using 1
      simp only [List.foldl_cons, List.foldl_nil, ofBits]
      ring
  exact remainder_unique top small run.1 run.2

end Dyx3.Lib.Gf2
