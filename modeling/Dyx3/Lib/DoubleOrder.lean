import Dyx3.Lib.Binary64

/-!
Comparisons of doubles, and the arithmetic of a program with doubles as operations without laws: what is proved of
such a program holds whatever the rounding is.
-/

namespace Dyx3.Lib

namespace Double

def isNan (x : Double) : Bool := infCode < x.code

/-- `std::fabs`. -/
def abs (x : Double) : Double := { x with neg := false }

/-- The place of a number in the order; both zeros are at 0. -/
def rank (x : Double) : ℤ := if x.neg then -(x.code : ℤ) else x.code

instance : LT Double := ⟨fun a b => a.isNan = false ∧ b.isNan = false ∧ a.rank < b.rank⟩
instance : LE Double := ⟨fun a b => a.isNan = false ∧ b.isNan = false ∧ a.rank ≤ b.rank⟩
instance (a b : Double) : Decidable (a < b) := inferInstanceAs (Decidable (_ ∧ _))
instance (a b : Double) : Decidable (a ≤ b) := inferInstanceAs (Decidable (_ ∧ _))

theorem notNan_of_finite {x : Double} (finite : x.isFinite = true) : x.isNan = false := by
  rw [isFinite, decide_eq_true_eq] at finite
  exact decide_eq_false (not_lt.mpr finite.le)

theorem le_of_not_lt {a b : Double} (left : a.isNan = false) (right : b.isNan = false) (other : ¬ b < a) : a ≤ b :=
  ⟨left, right, not_lt.mp fun less => other ⟨right, left, less⟩⟩

theorem not_lt_of_le {a b : Double} (le : a ≤ b) : ¬ b < a := fun less => absurd less.2.2 (not_lt.mpr le.2.2)

/-- The double nearest to an integer. -/
def ofInt (i : ℤ) : Double := ofDecimal (decide (i < 0)) i.natAbs 0

end Double

/-- Arithmetic and the mathematical library. All that is known of it: finite legs have a hypotenuse, finite or not. -/
class Arithmetic extends Add Double, Sub Double, Mul Double, Div Double, Neg Double where
  sqrt : Double → Double
  hypot : Double → Double → Double
  sin : Double → Double
  cos : Double → Double
  acos : Double → Double
  atan2 : Double → Double → Double
  /-- `math.ceil`; nothing where it raises. -/
  ceil : Double → Option ℤ
  hypot_notNan {x y : Double} : x.isFinite = true → y.isFinite = true → (hypot x y).isNan = false

end Dyx3.Lib
