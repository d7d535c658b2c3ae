import Mathlib.Algebra.Order.Floor.Ring
import Mathlib.Data.Rat.Floor
import Mathlib.Algebra.Order.Ring.Rat
import Mathlib.Algebra.Order.Group.Abs
import Mathlib.Tactic.Linarith

/-!
Floating point values with NaN and the infinities over exact rationals: comparisons and special values
follow IEEE 754, finite results are not rounded and there is one zero.
-/

namespace Dyx3.Lib

inductive Flt where
  | nan
  | inf (neg : Bool)
  | fin (x : ℚ)
  deriving DecidableEq

namespace Flt

def isNan (a : Flt) : Bool := a = .nan

def isFinite : Flt → Bool
  | .fin _ => true
  | _ => false

/-- The number itself; 0 when there is none. -/
def toRat : Flt → ℚ
  | .fin x => x
  | _ => 0

/-- `a < b`; false when one of them is NaN. -/
def below : Flt → Flt → Bool
  | .fin x, .fin y => x < y
  | .fin _, .inf false | .inf true, .fin _ | .inf true, .inf false => true
  | _, _ => false

/-- `a == b`; false when one of them is NaN. -/
def same : Flt → Flt → Bool
  | .fin x, .fin y => x = y
  | .inf a, .inf b => a = b
  | _, _ => false

instance : LT Flt := ⟨fun a b => below a b = true⟩
instance : LE Flt := ⟨fun a b => (below a b || same a b) = true⟩
instance (a b : Flt) : Decidable (a < b) := inferInstanceAs (Decidable (_ = true))
instance (a b : Flt) : Decidable (a ≤ b) := inferInstanceAs (Decidable (_ = true))

instance : Neg Flt where
  neg
    | .nan => .nan
    | .inf neg => .inf !neg
    | .fin x => .fin (-x)

instance : Add Flt where
  add
    | .fin x, .fin y => .fin (x + y)
    | .inf a, .inf b => if a = b then .inf a else .nan
    | .inf a, .fin _ | .fin _, .inf a => .inf a
    | _, _ => .nan

instance : Sub Flt := ⟨fun a b => a + -b⟩

/-- The infinity of a finite factor's sign; zero times infinity is NaN. -/
def infTimes (neg : Bool) (x : ℚ) : Flt :=
  if x = 0 then .nan else .inf (neg != decide (x < 0))

instance : Mul Flt where
  mul
    | .fin x, .fin y => .fin (x * y)
    | .inf a, .inf b => .inf (a != b)
    | .inf a, .fin x | .fin x, .inf a => infTimes a x
    | _, _ => .nan

instance : Div Flt where
  div
    | .fin x, .fin y => if y = 0 then infTimes false x else .fin (x / y)
    | .fin _, .inf _ => .fin 0
    | .inf a, .fin y => .inf (a != decide (y < 0))
    | _, _ => .nan

def abs : Flt → Flt
  | .nan => .nan
  | .inf _ => .inf false
  | .fin x => .fin |x|

def min (a b : Flt) : Flt := if b < a then b else a

def max (a b : Flt) : Flt := if a < b then b else a

def clamp (v lo hi : Flt) : Flt := if v < lo then lo else if hi < v then hi else v

@[simp] theorem fin_lt {x y : ℚ} : fin x < fin y ↔ x < y := by
  show decide (x < y) = true ↔ x < y
  exact decide_eq_true_iff

@[simp] theorem fin_le {x y : ℚ} : fin x ≤ fin y ↔ x ≤ y := by
  show (decide (x < y) || decide (x = y)) = true ↔ x ≤ y
  rw [Bool.or_eq_true, decide_eq_true_iff, decide_eq_true_iff, le_iff_lt_or_eq]

@[simp] theorem neg_fin (x : ℚ) : -fin x = fin (-x) := rfl

theorem le_of_le_of_lt {a b c : Flt} (le : a ≤ b) (lt : b < c) : a ≤ c := by
  rcases a with _ | (_ | _) | x <;> rcases b with _ | (_ | _) | y <;> rcases c with _ | (_ | _) | z <;> first
    | exact le | cases le; done | cases lt; done | rfl | skip
  · rw [fin_le] at *
    rw [fin_lt] at lt
    exact le.trans lt.le

theorem le_of_le_of_le {a b c : Flt} (ab : a ≤ b) (bc : b ≤ c) : a ≤ c := by
  rcases a with _ | (_ | _) | x <;> rcases b with _ | (_ | _) | y <;> rcases c with _ | (_ | _) | z <;> first
    | exact ab | cases ab; done | cases bc; done | rfl | skip
  · rw [fin_le] at *
    exact ab.trans bc

/-- Below one number both are numbers, so that they are ordered. -/
theorem le_of_not_below {a b c : Flt} (not : ¬ a < b) (left : a < c) (right : b < c) : b ≤ a := by
  rcases a with _ | (_ | _) | x <;> rcases b with _ | (_ | _) | y <;> rcases c with _ | (_ | _) | z <;> first
    | rfl | cases left; done | cases right; done | exact absurd rfl not | skip
  all_goals
    rw [fin_le]
    rw [fin_lt] at not
    exact not_lt.mp not

theorem lt_of_lt_of_le {a b c : Flt} (lt : a < b) (le : b ≤ c) : a < c := by
  rcases a with _ | (_ | _) | x <;> rcases b with _ | (_ | _) | y <;> rcases c with _ | (_ | _) | z <;> first
    | exact lt | cases lt; done | cases le; done | rfl | skip
  · rw [fin_lt] at *
    rw [fin_le] at le
    exact lt.trans_le le

theorem le_of_lt {a b : Flt} (lt : a < b) : a ≤ b := by
  show (below a b || same a b) = true
  rw [show below a b = true from lt, Bool.true_or]

/-- What is at most a number is a number, so that two of them are ordered. -/
theorem le_of_not_lt {a b c : Flt} (not : ¬a < b) (left : a ≤ c) (right : b ≤ c) : b ≤ a := by
  rcases a with _ | (_ | _) | x <;> rcases b with _ | (_ | _) | y <;> rcases c with _ | (_ | _) | z <;> first
    | rfl | cases left; done | cases right; done | exact absurd rfl not | skip
  all_goals
    rw [fin_le]
    rw [fin_lt] at not
    exact not_lt.mp not

theorem lt_irrefl (a : Flt) : ¬a < a := by
  rcases a with _ | (_ | _) | x
  · decide
  · decide
  · decide
  · rw [fin_lt]
    exact (le_refl x).not_gt

theorem sub_le_of_le {a b : Flt} {x : ℚ} (nonneg : 0 ≤ x) (le : a ≤ b) : a - .fin x ≤ b := by
  cases a with
  | nan => cases le
  | inf neg => exact le
  | fin y =>
    cases b with
    | nan => cases le
    | inf neg => cases neg with
      | true => cases le
      | false => rfl
    | fin z =>
      have lower : y + -x ≤ z := by
        have := fin_le.mp le
        linarith
      exact fin_le.mpr lower

theorem isFinite_iff {a : Flt} : a.isFinite = true ↔ ∃ x, a = .fin x := by
  cases a <;> simp [isFinite]

section Finite

variable {a b : Flt}

theorem finite_neg (left : a.isFinite = true) : (-a).isFinite = true := by
  obtain ⟨x, rfl⟩ := isFinite_iff.mp left
  rfl

theorem finite_add (left : a.isFinite = true) (right : b.isFinite = true) : (a + b).isFinite = true := by
  obtain ⟨x, rfl⟩ := isFinite_iff.mp left
  obtain ⟨y, rfl⟩ := isFinite_iff.mp right
  rfl

theorem finite_sub (left : a.isFinite = true) (right : b.isFinite = true) : (a - b).isFinite = true :=
  finite_add left (finite_neg right)

theorem finite_mul (left : a.isFinite = true) (right : b.isFinite = true) : (a * b).isFinite = true := by
  obtain ⟨x, rfl⟩ := isFinite_iff.mp left
  obtain ⟨y, rfl⟩ := isFinite_iff.mp right
  rfl

theorem finite_div (left : a.isFinite = true) (right : b.isFinite = true) (positive : .fin 0 < b) :
    (a / b).isFinite = true := by
  obtain ⟨x, rfl⟩ := isFinite_iff.mp left
  obtain ⟨y, rfl⟩ := isFinite_iff.mp right
  have nonzero : y ≠ 0 := (fin_lt.mp positive).ne'
  show (if y = 0 then infTimes false x else .fin (x / y)).isFinite = true
  rw [if_neg nonzero]
  rfl

theorem finite_ite {p : Prop} [Decidable p] (left : a.isFinite = true) (right : b.isFinite = true) :
    (if p then a else b).isFinite = true := by
  split
  · exact left
  · exact right

theorem finite_min (left : a.isFinite = true) (right : b.isFinite = true) : (min a b).isFinite = true :=
  finite_ite right left

theorem finite_max (left : a.isFinite = true) (right : b.isFinite = true) : (max a b).isFinite = true :=
  finite_ite right left

theorem finite_clamp {v : Flt} (value : v.isFinite = true) (left : a.isFinite = true) (right : b.isFinite = true) :
    (clamp v a b).isFinite = true :=
  finite_ite left (finite_ite right value)

end Finite

end Flt

/-- `std::llround`: halves are rounded away from zero. -/
def llround (x : ℚ) : ℤ := if 0 ≤ x then ⌊x + 1 / 2⌋ else -⌊-x + 1 / 2⌋

/-- A number with `decimals` decimals, ties to even. -/
def fixed (decimals : Nat) (x : ℚ) : String :=
  let scaled := |x| * 10 ^ decimals
  let down := ⌊scaled⌋.toNat
  let half := scaled - down
  let n := if half < 1 / 2 ∨ (half = 1 / 2 ∧ down % 2 = 0) then down else down + 1
  let digits := toString (n % 10 ^ decimals)
  (if x < 0 then "-" else "") ++ toString (n / 10 ^ decimals) ++ "." ++
    String.join (List.replicate (decimals - digits.length) "0") ++ digits

end Dyx3.Lib
