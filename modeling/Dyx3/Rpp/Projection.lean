import Dyx3.Lib.Scalar

/-!
The part of `dyx3_geometry` that runs in the control tick, over any `Scalar`: positions in local NED
metres, angles, the projections on a path and its curvature. A path is never read outside its bounds;
`at` gives the origin there.
-/

namespace Dyx3.RppCore

open Lib Scalar

variable {R : Type} [Scalar R]

structure Pos (R : Type) where
  n : R
  e : R
  deriving DecidableEq

abbrev Path (R : Type) := List (Pos R)

def Path.at (path : Path R) (i : ℕ) : Pos R := path.getD i ⟨lit 0, lit 0⟩

def Path.last (path : Path R) : Pos R := path.at (path.length - 1)

def distance (a b : Pos R) : R := hypot (a.n - b.n) (a.e - b.e)

def angleWrap (angle : R) : R := pyFloatMod (angle + pi) (lit 2 * pi) - pi

def headingDelta (h0 h1 : R) : R := fabs (angleWrap (h1 - h0))

def segmentHeading (a b : Pos R) : R := atan2 (b.e - a.e) (b.n - a.n)

def radians (deg : R) : R := deg * (pi / lit 180)

def degrees (rad : R) : R := rad * (lit 180 / pi)

structure SegmentProjection (R : Type) where
  t : R
  foot : Pos R
  signedCross : R
  distToEndAlong : R
  valid : Bool := true

def projectOntoLeg (pos a b : Pos R) : SegmentProjection R :=
  let dx := b.n - a.n
  let dy := b.e - a.e
  let segSq := dx * dx + dy * dy
  if segSq < lit 1e-12 then { t := lit 0, foot := a, signedCross := lit 0, distToEndAlong := distance pos a }
  else
    let t := stdMax (lit 0) (stdMin (lit 1) (((pos.n - a.n) * dx + (pos.e - a.e) * dy) / segSq))
    let foot : Pos R := ⟨a.n + t * dx, a.e + t * dy⟩
    let segLen := sqrt segSq
    { t, foot
      signedCross := (dx * (pos.e - foot.e) - dy * (pos.n - foot.n)) / segLen
      distToEndAlong := (lit 1 - t) * segLen }

def projectOntoSegment (pos : Pos R) (path : Path R) (segIdx : ℕ) : SegmentProjection R :=
  match path with
  | [] => { t := lit 0, foot := ⟨lit 0, lit 0⟩, signedCross := lit 0, distToEndAlong := lit 0, valid := false }
  | [p] => { t := lit 0, foot := p, signedCross := lit 0, distToEndAlong := distance pos p }
  | _ =>
    let i := min segIdx (path.length - 2)
    projectOntoLeg pos (path.at i) (path.at (i + 1))

structure ProjectionHint where
  seg : ℕ := 0
  valid : Bool := false
  deriving DecidableEq

structure PathProjection (R : Type) where
  segIdx : ℕ
  t : R
  foot : Pos R
  signedCross : R
  valid : Bool := true

/-- The best segment so far, with its distance. -/
structure Nearest (R : Type) where
  i : ℕ
  t : R
  foot : Pos R
  d : R
  signed : R
  scanned : Bool

def Nearest.scan (pos : Pos R) (path : Path R) (best : Nearest R) (i : ℕ) : Nearest R :=
  let a := path.at i
  let b := path.at (i + 1)
  let dx := b.n - a.n
  let dy := b.e - a.e
  let segSq := dx * dx + dy * dy
  if segSq < lit 1e-12 then best
  else
    let t := stdMax (lit 0) (stdMin (lit 1) (((pos.n - a.n) * dx + (pos.e - a.e) * dy) / segSq))
    let foot : Pos R := ⟨a.n + t * dx, a.e + t * dy⟩
    let d := distance pos foot
    if d < best.d then
      let crossZ := dx * (pos.e - foot.e) - dy * (pos.n - foot.n)
      { i, t, foot, d, signed := if lit 0 < sqrt segSq then copysign d crossZ else lit 0, scanned := true }
    else { best with scanned := true }

/-- The closest segment, in the window of a valid hint, and the hint for the next call. -/
def projectOntoPath (pos : Pos R) (path : Path R) (hint : ProjectionHint) : PathProjection R × ProjectionHint :=
  match path with
  | [] => ({ segIdx := 0, t := lit 0, foot := ⟨lit 0, lit 0⟩, signedCross := lit 0, valid := false }, hint)
  | [p] => ({ segIdx := 0, t := lit 0, foot := p, signedCross := distance pos p }, hint)
  | _ =>
    let n := path.length
    let window := (hint.seg - 2, min (n - 1) (hint.seg + 4))
    let (lo, hi) := if hint.valid && 3 ≤ window.2 - window.1 then window else (0, n - 1)
    let start : Nearest R :=
      { i := lo, t := lit 0, foot := path.at lo, d := infinity, signed := lit 0, scanned := false }
    let best := (List.range' lo (hi - lo)).foldl (Nearest.scan pos path) start
    ({ segIdx := best.i, t := best.t, foot := best.foot, signedCross := best.signed, valid := best.scanned },
      if best.scanned then ⟨best.i, true⟩ else { hint with valid := false })

/-- `none` when two of the three points are as good as one. -/
def circleThrough (a b c : Pos R) : Option R :=
  let ab := hypot (b.n - a.n) (b.e - a.e)
  let bc := hypot (c.n - b.n) (c.e - b.e)
  let ca := hypot (a.n - c.n) (a.e - c.e)
  if ab < lit 1e-6 ∨ bc < lit 1e-6 ∨ ca < lit 1e-6 then none
  else some (lit 2 * fabs ((b.n - a.n) * (c.e - a.e) - (b.e - a.e) * (c.n - a.n)) / (ab * bc * ca))

def mengerCurvature (a b c : Pos R) : R := (circleThrough a b c).getD (lit 0)

/-- Down from `i` to the first vertex at least `baseline` of arc away. -/
def walkBack (path : Path R) (baseline : R) : ℕ → R → ℕ
  | 0, _ => 0
  | i + 1, d =>
    if d < baseline then
      let a := path.at (i + 1)
      let b := path.at (i + 2)
      walkBack path baseline i (d + hypot (b.n - a.n) (b.e - a.e))
    else i + 1

/-- Up to the first vertex at least `baseline` of arc away, with `left` vertices after this one. -/
def walkAhead (path : Path R) (baseline : R) : ℕ → R → ℕ
  | 0, _ => path.length - 1
  | left + 1, d =>
    let i := path.length - 1 - (left + 1)
    if d < baseline then
      let a := path.at i
      let b := path.at (i - 1)
      walkAhead path baseline left (d + hypot (b.n - a.n) (b.e - a.e))
    else i

def curvatureAt (path : Path R) (idx : ℕ) (baseline : R) : R :=
  if path.length < 3 then lit 0
  else
    let n := path.length
    let i1 := min idx (n - 1)
    let i0 := i1 - 1
    let i2 := min (n - 1) (i1 + 1)
    let i0' := if lit 0 < baseline then walkBack path baseline i0 (lit 0) else i0
    let i2' := if lit 0 < baseline then walkAhead path baseline (n - 1 - i2) (lit 0) else i2
    if i2' - i0' < 2 then lit 0 else mengerCurvature (path.at i0') (path.at i1) (path.at i2')

/-- A walk along a path; `rest` are the vertices after `next`. -/
structure Walker (R : Type) where
  prev : Pos R
  next : Pos R
  arc : R
  rest : Path R
  finished : Bool := false

def Walker.start (path : Path R) (segIdx : ℕ) (foot : Pos R) : Walker R :=
  let s := min segIdx (path.length - 2)
  { prev := foot, next := if s + 1 < path.length then path.at (s + 1) else path.at s
    arc := lit 0, rest := path.drop (s + 2) }

/-- The point `remaining` along a segment of length `segLen`. -/
def within (prev next : Pos R) (segLen remaining : R) : Pos R :=
  let ratio := if lit 1e-9 < segLen then remaining / segLen else lit 1
  let ratio := if ratio < lit 0 then lit 0 else if lit 1 < ratio then lit 1 else ratio
  ⟨prev.n + ratio * (next.n - prev.n), prev.e + ratio * (next.e - prev.e)⟩

/-- The sample at arc length `target`; true when the walk ran off the end. -/
def Walker.walk (last : Pos R) (target : R) : Path R → Pos R → Pos R → R → (Pos R × Bool) × Walker R
  | [], prev, next, arc =>
    let segLen := hypot (next.n - prev.n) (next.e - prev.e)
    if target ≤ arc + segLen then
      ((within prev next segLen (target - arc), false), { prev, next, arc, rest := [] })
    else ((last, true), { prev, next, arc := arc + segLen, rest := [], finished := true })
  | p :: rest, prev, next, arc =>
    let segLen := hypot (next.n - prev.n) (next.e - prev.e)
    if target ≤ arc + segLen then
      ((within prev next segLen (target - arc), false), { prev, next, arc, rest := p :: rest })
    else Walker.walk last target rest next p (arc + segLen)

def Walker.sample (w : Walker R) (path : Path R) (target : R) : (Pos R × Bool) × Walker R :=
  if w.finished then ((path.last, true), w) else Walker.walk path.last target w.rest w.prev w.next w.arc

/-- Preview points `k`, `k + 1`, … until the walk runs off the end. -/
def previewFrom (path : Path R) (lD : R) : ℕ → ℕ → Walker R → R → R
  | 0, _, _, kappaMax => kappaMax
  | left + 1, k, w, kappaMax =>
    let half := lit 0.5 * lD
    let centre := ofInt k * lD
    let (a, w) := w.sample path (stdMax (lit 0.05) (centre - half))
    let (b, w) := w.sample path centre
    let (c, w) := w.sample path (centre + half)
    if b.2 && c.2 then kappaMax
    else match circleThrough a.1 b.1 c.1 with
      | none => previewFrom path lD left (k + 1) w kappaMax
      | some kappa => previewFrom path lD left (k + 1) w (if kappaMax < kappa then kappa else kappaMax)

def maxPreviewCurvature (path : Path R) (segIdx : ℕ) (foot : Pos R) (lD : R) (nPreviews : ℕ) : R :=
  if nPreviews ≤ 1 ∨ lD ≤ lit 0 ∨ path.length < 2 then lit 0
  else previewFrom path lD nPreviews 1 (Walker.start path segIdx foot) (lit 0)

end Dyx3.RppCore
