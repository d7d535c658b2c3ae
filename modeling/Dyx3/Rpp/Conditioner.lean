import Mathlib.Analysis.SpecialFunctions.Trigonometric.Inverse
import Dyx3.Rpp.Simplify

/-!
`path_conditioner`: the raw mission polyline becomes ordered runs, segment or smooth, ready to track.
-/

namespace Dyx3.Rpp

noncomputable section

open Geometry Real

variable {V : Type*}

/-! ### `split_runs_by_flag` -/

/-- The groups of one flag value; `cur` is the group being filled, `last` its flag. -/
def flagGroups (cur : List (V × Bool)) (last : Bool) : List (V × Bool) → List (List (V × Bool))
  | [] => [cur]
  | v :: rest =>
    if v.2 ≠ last then cur :: flagGroups [v] v.2 rest else flagGroups (cur ++ [v]) v.2 rest

/-- Every group after the first starts with the last point of the one before, under its own flag. -/
def shareJoints : Option V → List (List (V × Bool)) → List (PointRun V)
  | _, [] => []
  | prev, g :: groups =>
    let r := PointRun.ofVerts g
    let r := match prev with
      | some p => ⟨p :: r.pts, r.flags.headD false :: r.flags⟩
      | none => r
    r :: shareJoints (r.pts.getLast?) groups

def splitRunsByFlag (pts : List V) (flags : List Bool) : List (PointRun V) :=
  match pts.zip flags with
  | [] => [⟨[], []⟩]
  | v :: rest => shareJoints none (flagGroups [v] v.2 rest)

variable [Vertex V]

/-! ### `merge_collinear_runs` -/

def runsCollinear (prev next : List V) (thresholdDeg : ℝ) : Bool :=
  match prev.getLast?, next.head? with
  | some p, some q =>
    if 0.05 < hypot p q then false
    else
      match (simplifyForProfile prev none).pts.reverse, (simplifyForProfile next none).pts with
      | b :: a :: _, c :: d :: _ =>
        decide (degrees (headingDelta (segmentHeading a b) (segmentHeading c d)) < thresholdDeg)
      | _, _ => false
  | _, _ => false

def isShortTransitRun (pts : List V) (flags : List Bool) (maxLen : ℝ) : Bool :=
  decide (0 < maxLen) && !flags.isEmpty && !flags.any id && decide (pathLength pts ≤ maxLen)

/-- The test of `merge_collinear_runs` on the run built so far and the next one. -/
def mergeable (thresholdDeg transitMergeMaxLen : ℝ) (prev cur : PointRun V) : Bool :=
  let sameProfile :=
    decide (classifyAutoProfile prev.pts thresholdDeg = classifyAutoProfile cur.pts thresholdDeg)
  let profileOk := sameProfile || isShortTransitRun prev.pts prev.flags transitMergeMaxLen ||
    isShortTransitRun cur.pts cur.flags transitMergeMaxLen
  profileOk && runsCollinear prev.pts cur.pts thresholdDeg

/-- The next run appended, without its first vertex when that is where the run built so far ends. -/
def PointRun.extend (prev cur : PointRun V) : PointRun V :=
  let start := match prev.pts.getLast?, cur.pts.head? with
    | some p, some q => if hypot p q < 1e-6 then 1 else 0
    | _, _ => 0
  ⟨prev.pts ++ cur.pts.drop start, prev.flags ++ cur.flags.drop start⟩

/-- `prev` is the back of the list of merged runs. -/
def mergeFrom (thresholdDeg transitMergeMaxLen : ℝ) (prev : PointRun V) :
    List (PointRun V) → List (PointRun V)
  | [] => [prev]
  | cur :: rest =>
    if mergeable thresholdDeg transitMergeMaxLen prev cur then
      mergeFrom thresholdDeg transitMergeMaxLen (prev.extend cur) rest
    else prev :: mergeFrom thresholdDeg transitMergeMaxLen cur rest

def mergeCollinearRuns (runs : List (PointRun V)) (thresholdDeg transitMergeMaxLen : ℝ) :
    List (PointRun V) :=
  match runs with
  | [] => []
  | r :: rest => mergeFrom thresholdDeg transitMergeMaxLen r rest

/-! ### `absorb_short_connectors` -/

/-- Any vertex in `[lo, hi]` is must-hit. -/
def rangeHasMustHit (pts : List V) (lo hi : ℕ) (mustHit : KeySet) : Bool :=
  ((pts.take (hi + 1)).drop lo).any fun p => ptKey p ∈ mustHit

/-- The simplified run with the index of each vertex in `pts`. -/
def simplifyWithIndices (pts : List V) (flags : List Bool) (collinearTolDeg : ℝ := 5.0) :
    List ((V × ℕ) × Bool) :=
  (simplifyForProfile pts.zipIdx (some flags) collinearTolDeg).verts

/-- The range `[rawA, rawB]` is replaced by `mid`. -/
structure AbsorbAction (V : Type*) where
  rawA : ℕ
  rawB : ℕ
  mid : V
  flag : Bool

/-- Where the legs `a`-`b` and `c`-`d` meet, unless that is far from the middle of the connector. -/
def mergeVertex (a b c d : V) : V :=
  let mid : Point := ⟨((pos b).n + (pos c).n) * 0.5, ((pos b).e + (pos c).e) * 0.5⟩
  match lineIntersection a b c d with
  | some apex => if hypot mid apex ≤ max 0.5 (5.0 * hypot b c) then made apex else made mid
  | none => made mid

def absorbActions (pts : List V) (connectorAbsorb minCorner : ℝ) (mustHit : KeySet) :
    List ((V × ℕ) × Bool) → List (AbsorbAction V)
  | ((a, _), _) :: ((b, ib), fb) :: ((c, ic), fc) :: ((d, id), fd) :: rest =>
    if hypot b c < connectorAbsorb ∧
        minCorner ≤ headingDelta (segmentHeading a b) (segmentHeading b c) ∧
        minCorner ≤ headingDelta (segmentHeading b c) (segmentHeading c d) ∧
        ¬rangeHasMustHit pts ib ic mustHit then
      ⟨ib, ic, mergeVertex a b c d, fb⟩ ::
        absorbActions pts connectorAbsorb minCorner mustHit (((c, ic), fc) :: ((d, id), fd) :: rest)
    else
      absorbActions pts connectorAbsorb minCorner mustHit
        (((b, ib), fb) :: ((c, ic), fc) :: ((d, id), fd) :: rest)
  | _ => []

def AbsorbAction.apply (act : AbsorbAction V) (r : PointRun V) : PointRun V :=
  ⟨r.pts.take act.rawA ++ act.mid :: r.pts.drop (act.rawB + 1),
    r.flags.take act.rawA ++ act.flag :: r.flags.drop (act.rawB + 1)⟩

def absorbShortConnectors (pts : List V) (flags : List Bool) (connectorAbsorb minCornerDeg : ℝ)
    (mustHit : KeySet) : PointRun V :=
  if connectorAbsorb ≤ 0 ∨ pts.length < 4 then ⟨pts, flags⟩
  else
    -- the last action first, so that the indices of the others stay valid
    (absorbActions pts connectorAbsorb (radians minCornerDeg) mustHit (simplifyWithIndices pts flags)).foldr
      AbsorbAction.apply ⟨pts, flags⟩

/-! ### `split_run_at_corners` -/

/-- The interior vertices of the simplified run with a heading change of the threshold or more. -/
def cornersOf (thresholdDeg : ℝ) : List V → List V
  | a :: b :: c :: rest =>
    if thresholdDeg ≤ degrees (headingDelta (segmentHeading a b) (segmentHeading b c)) then
      b :: cornersOf thresholdDeg (b :: c :: rest)
    else cornersOf thresholdDeg (b :: c :: rest)
  | _ => []

def same (a b : V) : Prop := (pos a).n = (pos b).n ∧ (pos a).e = (pos b).e

instance (a b : V) : Decidable (same a b) := inferInstanceAs (Decidable (_ ∧ _))

/-- The corners are found in the run by their coordinates, in order; `idx` is the index of the head. -/
def cornerSplits : ℕ → List V → List V → List ℕ
  | idx, p :: ps, c :: cs =>
    if same p c then idx :: cornerSplits (idx + 1) ps cs else cornerSplits (idx + 1) ps (c :: cs)
  | _, _, _ => []

def slice {α : Type*} (l : List α) (lo hi : ℕ) : List α := (l.take hi).drop lo

def PointRun.slice (r : PointRun V) (lo hi : ℕ) : PointRun V :=
  ⟨Rpp.slice r.pts lo hi, Rpp.slice r.flags lo hi⟩

/-- The pieces between the splits, which share their joints. -/
def cutAt (r : PointRun V) : ℕ → List ℕ → List (PointRun V)
  | start, [] => if start + 1 < r.pts.length then [r.slice start r.pts.length] else []
  | start, s :: splits =>
    if start < s then r.slice start (s + 1) :: cutAt r s splits else cutAt r start splits

def splitRunAtCorners (pts : List V) (flags : List Bool) (thresholdDeg : ℝ) : List (PointRun V) :=
  let corners := cornersOf thresholdDeg (simplifyForProfile pts none).pts
  if corners = [] then [⟨pts, flags⟩]
  else
    match cutAt ⟨pts, flags⟩ 0 (cornerSplits 0 pts corners) with
    | [] => [⟨pts, flags⟩]
    | pieces => pieces

/-! ### `smooth_corners` -/

/-- The inscribed arc of radius `radius` between the tangent points of the corner `p` with unit legs
`u1` and `u2` that open by `theta`; `d` is the tangent length. -/
def arcPoints (p : Point) (u1n u1e u2n u2e theta d bl radius : ℝ) (arcPts : ℕ) : List Point :=
  let sa : Point := ⟨p.n + d * u1n, p.e + d * u1e⟩
  let sb : Point := ⟨p.n + d * u2n, p.e + d * u2e⟩
  let pc := radius / sin (theta / 2.0)
  let cx : Point := ⟨p.n + pc * ((u1n + u2n) / bl), p.e + pc * ((u1e + u2e) / bl)⟩
  let r1n := sa.n - cx.n
  let r1e := sa.e - cx.e
  let r2n := sb.n - cx.n
  let r2e := sb.e - cx.e
  let ang1 := atan2 r1e r1n
  let turn := atan2 r2e r2n - ang1
  let sweep :=
    if 0 ≤ r1n * r2e - r1e * r2n then if turn < 0 then turn + 2.0 * π else turn
    else if 0 < turn then turn - 2.0 * π else turn
  let arc := (List.range' 1 (arcPts - 1)).map fun k : ℕ =>
    let a := ang1 + sweep * (k / arcPts)
    (⟨cx.n + radius * cos a, cx.e + radius * sin a⟩ : Point)
  sa :: arc ++ [sb]

/-- What replaces the interior vertex `p` between `a` and `b`: nothing at a repeated point, an arc
where one fits, else the vertex itself. A must-hit vertex stays sharp. -/
def smoothCorner (radius : ℝ) (arcPts : ℕ) (mustHit : KeySet) (a p b : V × Bool) : List (V × Bool) :=
  let l1 := hypot p.1 a.1
  let l2 := hypot p.1 b.1
  if ptKey p.1 ∈ mustHit then [p]
  else if l1 < 1e-9 ∨ l2 < 1e-9 then []
  else
    let u1n := ((pos a.1).n - (pos p.1).n) / l1
    let u1e := ((pos a.1).e - (pos p.1).e) / l1
    let u2n := ((pos b.1).n - (pos p.1).n) / l2
    let u2e := ((pos b.1).e - (pos p.1).e) / l2
    let theta := arccos (max (-1) (min 1 (u1n * u2n + u1e * u2e)))
    let d := radius / tan (theta / 2.0)
    let bl := √((u1n + u2n) ^ 2 + (u1e + u2e) ^ 2)
    if theta < 1e-3 ∨ π - theta < 1e-3 ∨ 0.45 * min l1 l2 < d ∨ bl < 1e-9 then [p]
    else
      (arcPoints (pos p.1) u1n u1e u2n u2e theta d bl radius arcPts).map fun q =>
        (made q, a.2 && p.2 && b.2)

def smoothFrom (radius : ℝ) (arcPts : ℕ) (mustHit : KeySet) (prev : V × Bool) :
    List (V × Bool) → List (V × Bool)
  | v :: next :: rest =>
    smoothCorner radius arcPts mustHit prev v next ++ smoothFrom radius arcPts mustHit v (next :: rest)
  | vs => vs

def smoothCorners (pts : List V) (radius : ℝ) (arcPts : ℕ) (flagsIn : Option (List Bool))
    (mustHit : KeySet) : PointRun V :=
  let flags := flagsFor pts flagsIn
  if pts.length < 3 ∨ radius ≤ 0 then ⟨pts, flags⟩
  else
    match pts.zip flags with
    | [] => ⟨[], []⟩
    | v :: rest => .ofVerts (v :: smoothFrom radius arcPts mustHit v rest)

/-! ### `condition_path` -/

inductive Tracking where
  | auto
  | segment
  | smooth
  deriving DecidableEq

def isSpace (c : Char) : Bool := c ∈ [' ', '\t', '\n', '\x0b', '\x0c', '\r']

def normalizeTrackingProfile (value : String) : Tracking :=
  let trimmed := ((value.toList.dropWhile isSpace).reverse.dropWhile isSpace).reverse
  let s := String.ofList (trimmed.map Char.toLower)
  if s = "sharp" ∨ s = "segment" then .segment
  else if s = "smooth" then .smooth
  else .auto

structure ConditionParams where
  trackingProfile : String := "auto"
  segmentCornerThresholdDeg : ℝ
  connectorAbsorb : ℝ
  connectorMinCornerDeg : ℝ
  transitMergeMaxLen : ℝ
  segmentSimplifyMaxOffset : ℝ
  cornerSmoothRadius : ℝ
  cornerSmoothArcPts : ℤ
  pathResampleSpacing : ℝ
  closeLoopThreshold : ℝ
  closeLoopMinLen : ℝ

structure ConditionedRun (V : Type*) where
  pts : List V
  flags : List Bool
  mustHit : List Bool
  profile : Profile
  length : ℝ
  cumS : List ℝ
  closed : Bool

/-- A point of the mission file; `z` has the spray bit and the must-hit bit. -/
structure RawPoint (V : Type*) where
  vertex : V
  z : BitVec 32

def RawPoint.spray (r : RawPoint V) : Bool := r.z &&& 1 ≠ 0

def RawPoint.must (r : RawPoint V) : Bool := r.z &&& 2 ≠ 0

def isClosedRun (pts : List V) (threshold minLen : ℝ) : Bool :=
  match pts.head?, pts.getLast? with
  | some p, some q => decide (3 ≤ pts.length ∧ minLen ≤ pathLength pts ∧ hypot q p ≤ threshold)
  | _, _ => false

def mustHitKeys (raw : List (RawPoint V)) : KeySet :=
  ((raw.filter RawPoint.must).map fun r => ptKey r.vertex).toFinset

/-- The runs of the mission before conditioning, in profile auto. -/
def autoRuns (p : ConditionParams) (must : KeySet) (pts : List V) (flags : List Bool) : List (PointRun V) :=
  let threshold := p.segmentCornerThresholdDeg
  let pieces := (splitRunsByFlag pts flags).flatMap fun run =>
    let absorbed := absorbShortConnectors run.pts run.flags p.connectorAbsorb p.connectorMinCornerDeg must
    splitRunAtCorners absorbed.pts absorbed.flags threshold
  mergeCollinearRuns pieces threshold p.transitMergeMaxLen

def rawRuns (p : ConditionParams) (must : KeySet) (pts : List V) (flags : List Bool) : List (PointRun V) :=
  if normalizeTrackingProfile p.trackingProfile = .auto then autoRuns p must pts flags
  else [⟨pts, flags⟩]

def profileOf (p : ConditionParams) (pts : List V) : Profile :=
  match normalizeTrackingProfile p.trackingProfile with
  | .auto => classifyAutoProfile pts p.segmentCornerThresholdDeg
  | .segment => .segment
  | .smooth => .smooth

def conditionSmooth (p : ConditionParams) (must : KeySet) (rr : PointRun V) : PointRun V :=
  let c :=
    if 0 < p.cornerSmoothRadius ∧ 3 ≤ rr.pts.length then
      smoothCorners rr.pts p.cornerSmoothRadius (max 2 p.cornerSmoothArcPts).toNat (some rr.flags) must
    else rr
  if 0 < p.pathResampleSpacing ∧ 2 ≤ c.pts.length then
    -- must-hit vertices are fixed knots
    let fixed := (c.pts.zipIdx.filter fun q => ptKey q.1 ∈ must).map Prod.snd
    let rs := resampleFixed c.pts p.pathResampleSpacing (some c.flags) fixed
    ⟨rs.1, rs.2⟩
  else c

/-- The vertices of one run after conditioning. -/
def conditionVerts (p : ConditionParams) (must : KeySet) (rr : PointRun V) : PointRun V :=
  match profileOf p rr.pts with
  | .segment => simplifyForProfile rr.pts (some rr.flags) 5.0 p.segmentSimplifyMaxOffset must
  | .smooth => conditionSmooth p must rr

def conditionRun (p : ConditionParams) (must : KeySet) (rr : PointRun V) : ConditionedRun V :=
  let c := conditionVerts p must rr
  { pts := c.pts
    flags := c.flags
    mustHit := c.pts.map fun q => ptKey q ∈ must
    profile := profileOf p rr.pts
    length := pathLength c.pts
    cumS := cumulativeLengths c.pts
    closed := isClosedRun c.pts p.closeLoopThreshold p.closeLoopMinLen }

@[simp] theorem conditionRun_pts (p : ConditionParams) (must : KeySet) (rr : PointRun V) :
    (conditionRun p must rr).pts = (conditionVerts p must rr).pts := by
  simp only [conditionRun]

@[simp] theorem conditionRun_flags (p : ConditionParams) (must : KeySet) (rr : PointRun V) :
    (conditionRun p must rr).flags = (conditionVerts p must rr).flags := by
  simp only [conditionRun]

@[simp] theorem conditionRun_profile (p : ConditionParams) (must : KeySet) (rr : PointRun V) :
    (conditionRun p must rr).profile = profileOf p rr.pts := by
  simp only [conditionRun]

/-- The runs before slivers are dropped. -/
def conditionedRuns (raw : List (RawPoint V)) (p : ConditionParams) : List (ConditionedRun V) :=
  if raw = [] then []
  else
    let must := mustHitKeys raw
    (rawRuns p must (raw.map RawPoint.vertex) (raw.map RawPoint.spray)).map (conditionRun p must)

/-- The runs and the number of dropped slivers. -/
def conditionPath (raw : List (RawPoint V)) (p : ConditionParams) : List (ConditionedRun V) × ℕ :=
  let runs := conditionedRuns raw p
  let long := runs.filter fun r => 0.05 ≤ r.length
  if 1 < runs.length ∧ long ≠ [] ∧ long.length < runs.length then (long, runs.length - long.length)
  else (runs, 0)

end

end Dyx3.Rpp
