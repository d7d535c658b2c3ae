import Mathlib.Data.Nat.Log
import Mathlib.Tactic.Ring
import Mathlib.Tactic.Linarith

/-!
IEEE 754 binary64 by its bits, as far as reading and printing decimals needs it: the value of a finite number,
the correctly rounded value of a fraction, and the shortest digits that round back.

All magnitudes are counted in units of `2 ^ -1074`, the smallest positive value, so they are naturals.
-/

namespace Dyx3.Lib

/-- A sign bit and the 63 bits below it, read as a number: the exponent field times `2 ^ 52` plus the fraction. -/
@[ext] structure Double where
  neg : Bool
  code : ℕ
  inRange : code < 2 ^ 63
  deriving DecidableEq

namespace Double

/-- The exponent of the smallest positive value, negated. -/
def minExp : ℕ := 1074

/-- The code of the infinities; the finite numbers are below it. -/
def infCode : ℕ := 2047 * 2 ^ 52

def isFinite (x : Double) : Bool := x.code < infCode

/-- The magnitude of a code. -/
def units (c : ℕ) : ℕ :=
  let s := c / 2 ^ 52 - 1
  (c - s * 2 ^ 52) * 2 ^ s

/-- The greatest code whose magnitude is at most `n`. -/
def down (n : ℕ) : ℕ :=
  let s := n.log2 - 52
  s * 2 ^ 52 + n / 2 ^ s

/-- The code nearest to `num / den`, to even in a tie. -/
def nearest (num den : ℕ) : ℕ :=
  let lo := down (num / den)
  let mid := units lo + units (lo + 1)
  if 2 * num < den * mid then lo
  else if den * mid < 2 * num then lo + 1
  else if lo % 2 = 0 then lo else lo + 1

/-- The correctly rounded value of `± num / den` units. -/
def ofFraction (neg : Bool) (num den : ℕ) : Double :=
  { neg, code := min (nearest num den) infCode
    inRange := lt_of_le_of_lt (min_le_right _ _) (by decide) }

/-- The correctly rounded value of `± n * 10 ^ k`. -/
def ofDecimal (neg : Bool) (n : ℕ) (k : ℤ) : Double :=
  ofFraction neg (n * 10 ^ k.toNat * 2 ^ minExp) (10 ^ (-k).toNat)

@[simp] theorem ofDecimal_neg (neg : Bool) (n : ℕ) (k : ℤ) : (ofDecimal neg n k).neg = neg := rfl

theorem ofDecimal_code (neg : Bool) (n : ℕ) (k : ℤ) :
    (ofDecimal neg n k).code = min (nearest (n * 10 ^ k.toNat * 2 ^ minExp) (10 ^ (-k).toNat)) infCode := rfl

theorem units_small {c : ℕ} (small : c < 2 ^ 53) : units c = c := by
  have field : c / 2 ^ 52 - 1 = 0 := by omega
  simp only [units, field, Nat.zero_mul, Nat.sub_zero, pow_zero, Nat.mul_one]

/-- A code in the binade `s`: its significand has 53 bits. -/
theorem units_binade {s m : ℕ} (low : 2 ^ 52 ≤ m) (high : m < 2 ^ 53) : units (s * 2 ^ 52 + m) = m * 2 ^ s := by
  have field : (s * 2 ^ 52 + m) / 2 ^ 52 - 1 = s := by omega
  simp only [units, field, Nat.add_sub_cancel_left]

/-- Every code is below `2 ^ 52` or in a binade. -/
theorem code_cases (c : ℕ) : c < 2 ^ 52 ∨ ∃ s m, c = s * 2 ^ 52 + m ∧ 2 ^ 52 ≤ m ∧ m < 2 ^ 53 := by
  by_cases small : c < 2 ^ 52
  · exact .inl small
  · exact .inr ⟨c / 2 ^ 52 - 1, c - (c / 2 ^ 52 - 1) * 2 ^ 52, by omega, by omega, by omega⟩

theorem units_lt (c : ℕ) : units c < units (c + 1) := by
  rcases code_cases c with small | ⟨s, m, rfl, low, high⟩
  · rw [units_small (by omega), units_small (by omega)]
    exact Nat.lt_succ_self c
  · rw [units_binade low high]
    have positive : 0 < 2 ^ s := Nat.two_pow_pos s
    rcases Nat.lt_or_ge (m + 1) (2 ^ 53) with inside | last
    · rw [Nat.add_assoc, units_binade (by omega) inside]
      exact Nat.mul_lt_mul_of_pos_right (Nat.lt_succ_self m) positive
    · have edge : m + 1 = 2 ^ 53 := by omega
      have next : s * 2 ^ 52 + m + 1 = (s + 1) * 2 ^ 52 + 2 ^ 52 := by omega
      rw [next, units_binade le_rfl (by decide), pow_succ]
      calc m * 2 ^ s < 2 ^ 53 * 2 ^ s := Nat.mul_lt_mul_of_pos_right high positive
        _ = 2 ^ 52 * (2 ^ s * 2) := by ring

theorem log2_binade {s m : ℕ} (low : 2 ^ 52 ≤ m) (high : m < 2 ^ 53) : (m * 2 ^ s).log2 = s + 52 := by
  have positive : m * 2 ^ s ≠ 0 := by
    have : 0 < m * 2 ^ s := Nat.mul_pos (by omega) (Nat.two_pow_pos s)
    omega
  rw [Nat.log2_eq_iff positive]
  constructor
  · calc 2 ^ (s + 52) = 2 ^ 52 * 2 ^ s := by ring
      _ ≤ m * 2 ^ s := Nat.mul_le_mul_right _ low
  · calc m * 2 ^ s < 2 ^ 53 * 2 ^ s := Nat.mul_lt_mul_of_pos_right high (Nat.two_pow_pos s)
      _ = 2 ^ (s + 52 + 1) := by ring

theorem down_units (c : ℕ) : down (units c) = c := by
  rcases code_cases c with small | ⟨s, m, rfl, low, high⟩
  · rw [units_small (by omega)]
    have shift : c.log2 - 52 = 0 := by
      rcases Nat.eq_zero_or_pos c with rfl | positive
      · rfl
      · have : c.log2 < 52 := (Nat.log2_lt positive.ne').mpr small
        omega
    simp [down, shift]
  · rw [units_binade low high, down, log2_binade low high, Nat.add_sub_cancel, Nat.mul_div_cancel _ (Nat.two_pow_pos s)]

theorem nearest_exact (c : ℕ) {den : ℕ} (positive : 0 < den) : nearest (units c * den) den = c := by
  have above := units_lt c
  have below : 2 * (units c * den) < den * (units c + units (c + 1)) := by
    calc 2 * (units c * den) = den * (units c + units c) := by ring
      _ < den * (units c + units (c + 1)) := Nat.mul_lt_mul_of_pos_left (by omega) positive
  simp only [nearest, Nat.mul_div_cancel _ positive, down_units, if_pos below]

theorem units_strictMono : StrictMono units := strictMono_nat_of_lt_succ units_lt

theorem units_down_le (n : ℕ) : units (down n) ≤ n := by
  rcases Nat.lt_or_ge n (2 ^ 53) with small | large
  · have shift : n.log2 - 52 = 0 := by
      rcases Nat.eq_zero_or_pos n with rfl | positive
      · rfl
      · have : n.log2 < 53 := (Nat.log2_lt positive.ne').mpr small
        omega
    rw [down, shift, Nat.zero_mul, Nat.zero_add, pow_zero, Nat.div_one, units_small small]
  · have positive : n ≠ 0 := by omega
    have exponent : 53 ≤ n.log2 := (Nat.le_log2 positive).mpr large
    obtain ⟨low, high⟩ := (Nat.log2_eq_iff positive).mp (rfl : n.log2 = n.log2)
    have scale : 2 ^ n.log2 = 2 ^ 52 * 2 ^ (n.log2 - 52) := by
      rw [← pow_add]
      congr 1
      omega
    have atLeast : 2 ^ 52 ≤ n / 2 ^ (n.log2 - 52) := by
      rw [Nat.le_div_iff_mul_le (Nat.two_pow_pos _), ← scale]
      exact low
    have below : n / 2 ^ (n.log2 - 52) < 2 ^ 53 := by
      rw [Nat.div_lt_iff_lt_mul (Nat.two_pow_pos _)]
      calc n < 2 ^ (n.log2 + 1) := high
        _ = 2 ^ 53 * 2 ^ (n.log2 - 52) := by rw [pow_succ, scale]; ring
    rw [down, units_binade atLeast below]
    exact Nat.div_mul_le_self _ _

/-- A fraction up to the magnitude of a code is not rounded above it. -/
theorem nearest_le {num den c : ℕ} (positive : 0 < den) (bound : num ≤ units c * den) : nearest num den ≤ c := by
  have quotient : num / den ≤ units c := Nat.div_le_of_le_mul (by rw [Nat.mul_comm]; exact bound)
  have lower : down (num / den) ≤ c := units_strictMono.le_iff_le.mp (le_trans (units_down_le _) quotient)
  rcases lower.lt_or_eq with less | same
  · simp only [nearest]
    split_ifs <;> omega
  · have above : 2 * num < den * (units c + units (c + 1)) := by
      calc 2 * num ≤ 2 * (units c * den) := Nat.mul_le_mul_left 2 bound
        _ = den * (units c + units c) := by ring
        _ < den * (units c + units (c + 1)) := Nat.mul_lt_mul_of_pos_left (Nat.add_lt_add_left (units_lt c) _) positive
    simp only [nearest, same, if_pos above, le_refl]

/-- The nearest code depends on the quotient only. -/
theorem nearest_congr {num den num' den' : ℕ} (positive : 0 < den) (positive' : 0 < den')
    (same : num * den' = num' * den) : nearest num den = nearest num' den' := by
  have quotient : num / den = num' / den' := by
    calc num / den = num * den' / (den * den') := (Nat.mul_div_mul_right _ _ positive').symm
      _ = num' * den / (den' * den) := by rw [same, Nat.mul_comm den]
      _ = num' / den' := Nat.mul_div_mul_right _ _ positive
  have compare : ∀ mid, (2 * num < den * mid ↔ 2 * num' < den' * mid) ∧ (den * mid < 2 * num ↔ den' * mid < 2 * num') := by
    intro mid
    have left : 2 * num * den' = 2 * num' * den := by rw [Nat.mul_assoc, same, Nat.mul_assoc]
    constructor
    · rw [← Nat.mul_lt_mul_right positive', ← Nat.mul_lt_mul_right (a := den) (b := 2 * num') positive, left]
      rw [show den * mid * den' = den' * mid * den by ring]
    · rw [← Nat.mul_lt_mul_right positive', ← Nat.mul_lt_mul_right (a := den) (b := den' * mid) positive, left]
      rw [show den * mid * den' = den' * mid * den by ring]
  simp only [nearest, quotient, (compare _).1, (compare _).2]

/-- Two decimals of the same value are read as the same number. -/
theorem ofDecimal_congr {neg : Bool} {n n' : ℕ} {k k' : ℤ}
    (same : n * 10 ^ k.toNat * 10 ^ (-k').toNat = n' * 10 ^ k'.toNat * 10 ^ (-k).toNat) :
    ofDecimal neg n k = ofDecimal neg n' k' := by
  have code : nearest (n * 10 ^ k.toNat * 2 ^ minExp) (10 ^ (-k).toNat) =
      nearest (n' * 10 ^ k'.toNat * 2 ^ minExp) (10 ^ (-k').toNat) := by
    refine nearest_congr (Nat.pow_pos (by decide)) (Nat.pow_pos (by decide)) ?_
    calc n * 10 ^ k.toNat * 2 ^ minExp * 10 ^ (-k').toNat = n * 10 ^ k.toNat * 10 ^ (-k').toNat * 2 ^ minExp := by ring
      _ = n' * 10 ^ k'.toNat * 2 ^ minExp * 10 ^ (-k).toNat := by rw [same]; ring
  simp only [ofDecimal, ofFraction, code]

/-- Zeros at the end of the digits count in the exponent. -/
theorem ofDecimal_zeros (neg : Bool) (n j : ℕ) (k : ℤ) : ofDecimal neg (n * 10 ^ j) k = ofDecimal neg n (k + j) := by
  refine ofDecimal_congr ?_
  have split : (k + j).toNat + (-k).toNat = j + k.toNat + (-(k + j)).toNat := by omega
  calc n * 10 ^ j * 10 ^ k.toNat * 10 ^ (-(k + j)).toNat = n * 10 ^ (j + k.toNat + (-(k + j)).toNat) := by ring
    _ = n * 10 ^ (k + j).toNat * 10 ^ (-k).toNat := by rw [← split]; ring

theorem ofDecimal_zero (neg : Bool) (k : ℤ) : ofDecimal neg 0 k = ⟨neg, 0, by decide⟩ := by
  have zero : nearest (0 * 10 ^ k.toNat * 2 ^ minExp) (10 ^ (-k).toNat) = 0 := by
    have exact' := nearest_exact 0 (show 0 < 10 ^ (-k).toNat from Nat.pow_pos (by decide))
    rw [units_small (by decide)] at exact'
    simpa using exact'
  simp only [ofDecimal, ofFraction, zero, Nat.zero_min]

/-- The greatest finite magnitude. -/
def maxUnits : ℕ := units (infCode - 1)

theorem ofDecimal_finite (neg : Bool) {n : ℕ} {k : ℤ} (bound : n * 10 ^ k.toNat * 2 ^ minExp ≤ maxUnits * 10 ^ (-k).toNat) :
    (ofDecimal neg n k).isFinite = true := by
  have code := nearest_le (Nat.pow_pos (by decide)) bound
  have large : infCode - 1 < infCode := by decide
  rw [isFinite, decide_eq_true_eq, ofDecimal_code]
  exact lt_of_le_of_lt (min_le_left _ _) (lt_of_le_of_lt code large)

/-! ### The shortest digits -/

/-- The magnitude of `x` is `scaled x * 10 ^ -minExp`. -/
def scaled (x : Double) : ℕ := units x.code * 5 ^ minExp

theorem ofDecimal_scaled {x : Double} (finite : x.isFinite = true) : ofDecimal x.neg x.scaled (-minExp) = x := by
  have below : x.code < infCode := of_decide_eq_true finite
  have up : (-(minExp : ℤ)).toNat = 0 := by omega
  have down : (- -(minExp : ℤ)).toNat = minExp := by omega
  have value : x.scaled * 10 ^ (-(minExp : ℤ)).toNat * 2 ^ minExp = units x.code * 10 ^ minExp := by
    rw [up, pow_zero, Nat.mul_one, scaled, Nat.mul_assoc, ← Nat.mul_pow]
  have same : nearest (x.scaled * 10 ^ (-(minExp : ℤ)).toNat * 2 ^ minExp) (10 ^ (- -(minExp : ℤ)).toNat) = x.code := by
    rw [value, down]
    exact nearest_exact x.code (Nat.pow_pos (by decide))
  refine Double.ext (ofDecimal_neg _ _ _) ?_
  rw [ofDecimal_code, same]
  exact min_eq_left below.le

/-- The decimals with `n` digits around `x` that round to it, the closer one when both do. -/
def withDigits (x : Double) (n : ℕ) : Option (ℕ × ℤ) :=
  let drop := (Nat.toDigits 10 x.scaled).length - n
  let d := x.scaled / 10 ^ drop
  let k : ℤ := drop - minExp
  let rest := x.scaled % 10 ^ drop
  match decide (ofDecimal x.neg d k = x), decide (ofDecimal x.neg (d + 1) k = x) with
  | true, true => some (if 2 * rest < 10 ^ drop ∨ 2 * rest = 10 ^ drop ∧ d % 2 = 0 then d else d + 1, k)
  | true, false => some (d, k)
  | false, true => some (d + 1, k)
  | false, false => none

/-- The shortest decimal that rounds to `x`. -/
def shortest (x : Double) : ℕ × ℤ :=
  ((List.range' 1 (Nat.toDigits 10 x.scaled).length).findSome? x.withDigits).getD (x.scaled, -minExp)

theorem withDigits_rounds {x : Double} {n : ℕ} {d : ℕ × ℤ} (found : x.withDigits n = some d) : ofDecimal x.neg d.1 d.2 = x := by
  simp only [withDigits] at found
  split at found
  · rename_i down up
    injection found with same
    rw [← same]
    dsimp only
    split
    · exact of_decide_eq_true down
    · exact of_decide_eq_true up
  · rename_i down _
    injection found with same
    rw [← same]
    exact of_decide_eq_true down
  · rename_i up
    injection found with same
    rw [← same]
    exact of_decide_eq_true up
  · cases found

theorem shortest_rounds {x : Double} (finite : x.isFinite = true) : ofDecimal x.neg x.shortest.1 x.shortest.2 = x := by
  simp only [shortest]
  cases search : (List.range' 1 (Nat.toDigits 10 x.scaled).length).findSome? x.withDigits with
  | none => exact ofDecimal_scaled finite
  | some d =>
    obtain ⟨n, _, found⟩ := List.exists_of_findSome?_eq_some search
    exact withDigits_rounds found

end Double

end Dyx3.Lib
