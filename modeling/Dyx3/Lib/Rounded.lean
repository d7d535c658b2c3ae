import Dyx3.Lib.Digits
import Dyx3.Lib.DoubleOrder
import Dyx3.Lib.Scalar

/-!
An arithmetic of doubles that can be run: every operation is done on exact rationals and rounded to the nearest double,
the transcendental functions from their series. Infinities and NaN give NaN, and there is no negative zero.
-/

namespace Dyx3.Lib.Double

open Flt (sqrtRat sinRat cosRat atan2Rat)

/-- The number itself. -/
def toRat (x : Double) : ℚ := (if x.neg then -(units x.code : ℚ) else units x.code) / 2 ^ minExp

/-- The nearest double. -/
def ofRat (x : ℚ) : Double := ofFraction (decide (x < 0)) (x.num.natAbs * 2 ^ minExp) x.den

def rounded (f : ℚ → ℚ) (x : Double) : Double := if x.isFinite then ofRat (f x.toRat) else nan

def rounded₂ (f : ℚ → ℚ → ℚ) (x y : Double) : Double := if x.isFinite && y.isFinite then ofRat (f x.toRat y.toRat) else nan

theorem ofRat_notNan (x : ℚ) : (ofRat x).isNan = false :=
  decide_eq_false (not_lt.mpr (min_le_right _ _))

instance : Arithmetic where
  add := rounded₂ (· + ·)
  sub := rounded₂ (· - ·)
  mul := rounded₂ (· * ·)
  div x y := if y.code = 0 then nan else rounded₂ (· / ·) x y
  neg x := { x with neg := !x.neg }
  sqrt x := if x.toRat < 0 then nan else rounded sqrtRat x
  hypot := rounded₂ fun x y => sqrtRat (x * x + y * y)
  sin := rounded sinRat
  cos := rounded cosRat
  acos := rounded fun x => atan2Rat (sqrtRat (1 - x * x)) x
  atan2 := rounded₂ atan2Rat
  ceil x := if x.isFinite then some ⌈x.toRat⌉ else none
  hypot_notNan left right := by
    rw [rounded₂, left, right]
    exact ofRat_notNan _

end Dyx3.Lib.Double
