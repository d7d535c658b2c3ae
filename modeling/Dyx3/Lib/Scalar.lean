import Dyx3.Lib.Flt

/-!
What a program does with `double`, as a class without laws: a definition over any `Scalar` is the
program over any floating point arithmetic, and what is proved of it holds whatever the rounding is.
`Flt` is one of them, so that such a definition can be run.
-/

namespace Dyx3.Lib

class Scalar (R : Type) extends Add R, Sub R, Mul R, Div R, Neg R, LT R, LE R where
  decLt (a b : R) : Decidable (a < b)
  decLe (a b : R) : Decidable (a ≤ b)
  /-- A literal of the program text. -/
  lit : ℚ → R
  ofInt : ℤ → R
  /-- `static_cast<int>`. -/
  toInt : R → ℤ
  nan : R
  infinity : R
  isfinite : R → Bool
  fabs : R → R
  sqrt : R → R
  hypot : R → R → R
  sin : R → R
  cos : R → R
  atan2 : R → R → R
  fmod : R → R → R
  copysign : R → R → R
  ceil : R → R

namespace Scalar

variable {R : Type} [Scalar R]

instance (a b : R) : Decidable (a < b) := decLt a b
instance (a b : R) : Decidable (a ≤ b) := decLe a b

def stdMin (a b : R) : R := if b < a then b else a

def stdMax (a b : R) : R := if a < b then b else a

/-- `max(lo, min(hi, v))`. -/
def clampd (v lo hi : R) : R := stdMax lo (stdMin hi v)

def pi : R := lit 3.14159265358979323846

/-- `static_cast<double>(ns) * 1e-9`. -/
def nsToS (ns : ℤ) : R := ofInt ns * lit 1e-9

/-- The modulo of CPython on top of `fmod`: the result has the sign of the divisor. -/
def pyFloatMod (x y : R) : R :=
  let m := fmod x y
  if ¬ (m ≤ lit 0 ∧ lit 0 ≤ m) then if decide (y < lit 0) != decide (m < lit 0) then m + y else m
  else copysign (lit 0) y

end Scalar

/-- A `Scalar` with the conversion to `float`. -/
class Single (R : Type) extends Scalar R where
  toFloat : R → R

namespace Flt

/-- Eighteen decimals, rounded down. -/
def decimals (x : ℚ) : ℚ := ⌊x * 10 ^ 18⌋ / 10 ^ 18

/-- Newton's iteration for the integer square root, from above. -/
def newton : ℕ → ℕ → ℕ → ℕ
  | 0, _, g => g
  | fuel + 1, n, g => if (g + n / g) / 2 < g then newton fuel n ((g + n / g) / 2) else g

def sqrtRat (x : ℚ) : ℚ :=
  let n := ⌊x * 10 ^ 36⌋.toNat
  newton 200 n (2 ^ (n.log2 / 2 + 1)) / 10 ^ 18

/-- `x - x³/3! + x⁵/5! - …`, from the term `t` of degree `k` on. -/
def taylor : ℕ → ℕ → ℚ → ℚ → ℚ
  | 0, _, _, _ => 0
  | terms + 1, k, t, x => t + taylor terms (k + 2) (decimals (-t * x * x / ((k + 1) * (k + 2)))) x

def sinRat (x : ℚ) : ℚ := taylor 25 1 x x

def cosRat (x : ℚ) : ℚ := taylor 25 0 1 x

/-- `x - x³/3 + x⁵/5 - …`, from the power `t` of degree `k` on. -/
def atanSeries : ℕ → ℕ → ℚ → ℚ → ℚ
  | 0, _, _, _ => 0
  | terms + 1, k, t, x => decimals (t / k) + atanSeries terms (k + 2) (decimals (-t * x * x)) x

/-- The angle is halved three times before the series. -/
def atanRat (x : ℚ) : ℚ :=
  let half (t : ℚ) := decimals (t / (1 + sqrtRat (1 + t * t)))
  let t := half (half (half x))
  8 * atanSeries 16 1 t t

def piRat : ℚ := 3.14159265358979323846

def atan2Rat (y x : ℚ) : ℚ :=
  if x = 0 then if y = 0 then 0 else if 0 < y then piRat / 2 else -(piRat / 2)
  else if 0 < x then atanRat (y / x)
  else if 0 ≤ y then atanRat (y / x) + piRat else atanRat (y / x) - piRat

def sqrt : Flt → Flt
  | .fin x => if x < 0 then .nan else .fin (sqrtRat x)
  | .inf false => .inf false
  | _ => .nan

def hypot : Flt → Flt → Flt
  | .fin x, .fin y => .fin (sqrtRat (x * x + y * y))
  | .inf _, _ | _, .inf _ => .inf false
  | _, _ => .nan

def atan2 : Flt → Flt → Flt
  | .fin y, .fin x => .fin (atan2Rat y x)
  | .fin y, .inf neg => .fin (if neg then if y < 0 then -piRat else piRat else 0)
  | .inf neg, .fin _ => .fin (if neg then -(piRat / 2) else piRat / 2)
  | .inf neg, .inf back =>
    let angle := if back then 3 * piRat / 4 else piRat / 4
    .fin (if neg then -angle else angle)
  | _, _ => .nan

def fmod : Flt → Flt → Flt
  | .fin x, .fin y => if y = 0 then .nan else .fin (x - y * (if 0 ≤ x / y then ⌊x / y⌋ else ⌈x / y⌉))
  | .fin x, .inf _ => .fin x
  | _, _ => .nan

def copysign (a b : Flt) : Flt := if b < .fin 0 then -a.abs else a.abs

def onFinite (f : ℚ → ℚ) : Flt → Flt
  | .fin x => .fin (f x)
  | _ => .nan

def ceil : Flt → Flt
  | .fin x => .fin ⌈x⌉
  | a => a

/-- Truncation toward zero; 0 where the cast has no meaning. -/
def toInt : Flt → ℤ
  | .fin x => if 0 ≤ x then ⌊x⌋ else ⌈x⌉
  | _ => 0

instance : Scalar Flt where
  decLt a b := inferInstance
  decLe a b := inferInstance
  lit x := .fin x
  ofInt n := .fin n
  toInt := toInt
  nan := .nan
  infinity := .inf false
  isfinite := isFinite
  fabs := abs
  sqrt := sqrt
  hypot := hypot
  sin := onFinite sinRat
  cos := onFinite cosRat
  atan2 := atan2
  fmod := fmod
  copysign := copysign
  ceil := ceil

/-- What is inside a band is inside the widened band. -/
theorem le_widened (a b c d : Flt) (inside : a ≤ Scalar.stdMin b c) :
    a ≤ Scalar.stdMin (Scalar.stdMax b d) c := by
  unfold Scalar.stdMax
  split
  · rename_i above
    unfold Scalar.stdMin at inside ⊢
    split at inside
    · rename_i low
      split
      · exact inside
      · exact le_of_le_of_lt (le_of_le_of_lt inside low) above
    · rename_i high
      split
      · rename_i low
        exact le_of_le_of_le inside (le_of_not_below high low above)
      · exact le_of_le_of_lt inside above
  · exact inside

/-- Nothing is rounded. -/
instance : Single Flt where
  toFloat := id

end Flt

end Dyx3.Lib
