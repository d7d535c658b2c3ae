import Mathlib.Analysis.SpecialFunctions.Complex.Arg

/-!
The planar geometry of `dyx3_geometry` over exact reals: local NED metres, headings in radians,
`kPi` is `π`.

The path code never looks at more of a vertex than its position, and sometimes makes a new vertex at
a computed position. It is written over any type with these two (`Vertex`): `Point` itself is the
program, a point with a label shows where each vertex of a result came from.
-/

namespace Dyx3.Geometry

noncomputable section

open Real

@[ext] structure Point where
  n : ℝ := 0
  e : ℝ := 0

class Vertex (V : Type*) where
  pos : V → Point
  made : Point → V
  pos_made : ∀ p, pos (made p) = p

export Vertex (pos made pos_made)

attribute [simp] pos_made

instance : Vertex Point where
  pos := id
  made := id
  pos_made _ := rfl

@[simp] theorem pos_point (p : Point) : pos p = p := rfl

/-- A vertex with a label; a vertex the code makes has the default one. -/
instance labelled {V L : Type*} [Vertex V] [Inhabited L] : Vertex (V × L) where
  pos v := pos v.1
  made p := (made p, default)
  pos_made p := pos_made p

@[simp] theorem pos_labelled {V L : Type*} [Vertex V] [Inhabited L] (v : V × L) : pos v = pos v.1 := rfl

/-- `std::nearbyint` in the default mode: ties to even. -/
def nearbyint (x : ℝ) : ℤ :=
  if x - ⌊x⌋ < 1 / 2 ∨ (x - ⌊x⌋ = 1 / 2 ∧ Even ⌊x⌋) then ⌊x⌋ else ⌊x⌋ + 1

variable {V : Type*} [Vertex V]

/-- `std::hypot` of `b - a`. -/
def hypot (a b : V) : ℝ := √(((pos b).n - (pos a).n) ^ 2 + ((pos b).e - (pos a).e) ^ 2)

def atan2 (y x : ℝ) : ℝ := Complex.arg ⟨x, y⟩

def segmentHeading (a b : V) : ℝ := atan2 ((pos b).e - (pos a).e) ((pos b).n - (pos a).n)

/-- The modulo of CPython: the result has the sign of the divisor. -/
def pyFloatMod (x y : ℝ) : ℝ := x - y * ⌊x / y⌋

def angleWrap (angle : ℝ) : ℝ := pyFloatMod (angle + π) (2 * π) - π

def headingDelta (h0 h1 : ℝ) : ℝ := |angleWrap (h1 - h0)|

def perpendicularDistance (p a b : V) : ℝ :=
  let dx := (pos b).n - (pos a).n
  let dy := (pos b).e - (pos a).e
  let h := hypot a b
  if h < 1e-9 then hypot a p
  else |dx * ((pos a).e - (pos p).e) - dy * ((pos a).n - (pos p).n)| / h

def lineIntersection (a b c d : V) : Option Point :=
  let d1x := (pos b).n - (pos a).n
  let d1y := (pos b).e - (pos a).e
  let d2x := (pos d).n - (pos c).n
  let d2y := (pos d).e - (pos c).e
  let denom := d1x * d2y - d1y * d2x
  if |denom| < 1e-9 then none
  else
    let t := (((pos c).n - (pos a).n) * d2y - ((pos c).e - (pos a).e) * d2x) / denom
    some ⟨(pos a).n + t * d1x, (pos a).e + t * d1y⟩

def radians (deg : ℝ) : ℝ := deg * (π / 180)

def degrees (rad : ℝ) : ℝ := rad * (180 / π)

/-- `out[0] = 0`, `out[i] = out[i - 1] + |p[i] - p[i - 1]|`, for a path of any length. -/
def cumulativeLengths (pts : List V) : List ℝ :=
  (List.zipWith hypot pts pts.tail).scanl (· + ·) 0

def pathLength (pts : List V) : ℝ := (List.zipWith hypot pts pts.tail).foldl (· + ·) 0

theorem hypot_nonneg (a b : V) : 0 ≤ hypot a b := Real.sqrt_nonneg _

/-- Two vertices at one place. -/
theorem hypot_of_pos_eq {a b : V} (h : pos a = pos b) : hypot a b = 0 := by
  simp [hypot, h]

theorem pos_eq_of_hypot {a b : V} (none : hypot a b = 0) : pos a = pos b := by
  have squares := Real.sqrt_eq_zero'.mp none
  have north : ((pos b).n - (pos a).n) ^ 2 = 0 := by nlinarith [sq_nonneg ((pos b).n - (pos a).n), sq_nonneg ((pos b).e - (pos a).e)]
  have east : ((pos b).e - (pos a).e) ^ 2 = 0 := by nlinarith [sq_nonneg ((pos b).n - (pos a).n), sq_nonneg ((pos b).e - (pos a).e)]
  exact Point.ext (sub_eq_zero.mp (pow_eq_zero_iff two_ne_zero |>.mp north)).symm
    (sub_eq_zero.mp (pow_eq_zero_iff two_ne_zero |>.mp east)).symm

theorem hypot_self (a : V) : hypot a a = 0 := hypot_of_pos_eq rfl

theorem hypot_comm (a b : V) : hypot a b = hypot b a := by
  rw [hypot, hypot, sub_sq_comm (pos b).n, sub_sq_comm (pos b).e]

theorem hypot_north {x y e : ℝ} (north : x ≤ y) : hypot (⟨x, e⟩ : Point) ⟨y, e⟩ = y - x := by
  rw [hypot]
  simp only [pos_point, sub_self]
  rw [zero_pow two_ne_zero, add_zero, Real.sqrt_sq (sub_nonneg.mpr north)]

theorem segmentHeading_north {a b : V} (east : (pos a).e = (pos b).e) (north : (pos a).n < (pos b).n) :
    segmentHeading a b = 0 := by
  have along : (⟨(pos b).n - (pos a).n, (pos b).e - (pos a).e⟩ : ℂ) = (((pos b).n - (pos a).n : ℝ) : ℂ) := by
    apply Complex.ext <;> simp [east]
  rw [segmentHeading, atan2, along]
  exact Complex.arg_ofReal_of_nonneg (by linarith)

theorem segmentHeading_east {a b : V} (north : (pos a).n = (pos b).n) (east : (pos a).e < (pos b).e) :
    segmentHeading a b = π / 2 := by
  rw [segmentHeading, atan2, Complex.arg_eq_pi_div_two_iff]
  exact ⟨by simp [north], by simpa using east⟩

/-- Headings in `(-π, π)` of each other are not wrapped. -/
theorem headingDelta_of_abs_lt {h0 h1 : ℝ} (h : |h1 - h0| < π) : headingDelta h0 h1 = |h1 - h0| := by
  obtain ⟨lo, hi⟩ := abs_lt.mp h
  have twice : (0 : ℝ) < 2 * π := by positivity
  have floor : ⌊(h1 - h0 + π) / (2 * π)⌋ = 0 := by
    rw [Int.floor_eq_zero_iff]
    constructor
    · exact div_nonneg (by linarith) twice.le
    · rw [div_lt_one twice]
      linarith
  rw [headingDelta, angleWrap, pyFloatMod, floor]
  congr 1
  push_cast
  ring

theorem headingDelta_self (h : ℝ) : headingDelta h h = 0 := by
  rw [headingDelta_of_abs_lt (by simpa using Real.pi_pos)]
  simp

end

end Dyx3.Geometry
