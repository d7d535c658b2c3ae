import Dyx3.Rpp.Projection

/-!
The laws the control tick uses, over any `Scalar`: lookahead and steering (`guidance`), the speed laws
(`speed_profile`) and the run-level quantities (`terminal`).
-/

namespace Dyx3.RppCore

open Lib Scalar

variable {R : Type} [Scalar R]

/-- Arc length `lD` from the foot; `prev` and `next` bound the segment, `rest` follows it. -/
def smoothWalk (last : Pos R) (lD : R) : Path R → Pos R → Pos R → R → Pos R × Bool
  | [], prev, next, arc =>
    let segLen := distance prev next
    if lD ≤ arc + segLen then
      let ratio := if lit 1e-9 < segLen then (lD - arc) / segLen else lit 1
      (⟨prev.n + ratio * (next.n - prev.n), prev.e + ratio * (next.e - prev.e)⟩, false)
    else (last, true)
  | p :: rest, prev, next, arc =>
    let segLen := distance prev next
    if lD ≤ arc + segLen then
      let ratio := if lit 1e-9 < segLen then (lD - arc) / segLen else lit 1
      (⟨prev.n + ratio * (next.n - prev.n), prev.e + ratio * (next.e - prev.e)⟩, false)
    else smoothWalk last lD rest next p (arc + segLen)

/-- The aim point of the smooth profile, and whether it is the end of the path. -/
def smoothLookaheadPoint (path : Path R) (segIdx : ℕ) (foot : Pos R) (lD : R) : Pos R × Bool :=
  if path.length = 0 then (⟨lit 0, lit 0⟩, false)
  else
    let s := min segIdx (path.length - 1)
    let next := if s + 1 < path.length then path.at (s + 1) else path.at s
    smoothWalk path.last lD (path.drop (s + 2)) foot next (lit 0)

/-- The turn at vertex `idx + 1` in degrees; NaN when there is none. -/
def segmentAngleDeg (path : Path R) (idx : ℕ) : R :=
  if path.length ≤ idx + 2 then nan
  else
    degrees (headingDelta (segmentHeading (path.at idx) (path.at (idx + 1)))
      (segmentHeading (path.at (idx + 1)) (path.at (idx + 2))))

def cornerClip (p b : Pos R) (remaining segRem : R) (tangentExtend : Bool) : Pos R :=
  if !tangentExtend || segRem ≤ lit 1e-9 then b
  else
    let f := (remaining - segRem) / segRem
    ⟨b.n + (b.n - p.n) * f, b.e + (b.e - p.e) * f⟩

/-- Beyond the end of the path, along the final bearing. -/
def pastEnd (path : Path R) (p b : Pos R) (remaining segRem : R) : Pos R :=
  let prev := path.at (path.length - 2)
  let norm := hypot (b.n - p.n) (b.e - p.e)
  let u : Pos R := if norm ≤ lit 1e-9 then ⟨b.n - prev.n, b.e - prev.e⟩ else ⟨b.n - p.n, b.e - p.e⟩
  let norm := if norm ≤ lit 1e-9 then hypot u.n u.e else norm
  if lit 1e-9 < norm then
    let f := (remaining - segRem) / norm
    ⟨b.n + u.n * f, b.e + u.e * f⟩
  else b

/-- From `p` on the segment with `left` vertices after its start. -/
def segmentWalk (path : Path R) (maxJunctionDeg : R) (extendPastEnd extendPastCorner : Bool) :
    ℕ → Pos R → R → Pos R
  | 0, _, _ => path.last
  | left + 1, p, remaining =>
    let cur := path.length - 1 - (left + 1)
    let b := path.at (cur + 1)
    let segRem := distance p b
    if remaining ≤ segRem then
      if segRem ≤ lit 1e-9 then b
      else
        let f := remaining / segRem
        ⟨p.n + (b.n - p.n) * f, p.e + (b.e - p.e) * f⟩
    else if extendPastEnd && path.length ≤ cur + 2 then pastEnd path p b remaining segRem
    else if maxJunctionDeg ≤ lit 0 then b
    else
      let angle := segmentAngleDeg path cur
      -- NaN (the last vertex) ends the walk too
      if ¬ (fabs angle ≤ maxJunctionDeg) then
        cornerClip p b remaining segRem (extendPastCorner && isfinite angle)
      else segmentWalk path maxJunctionDeg extendPastEnd extendPastCorner left b (remaining - segRem)

def segmentLookaheadPoint (path : Path R) (segIdx : ℕ) (foot : Pos R) (lD maxJunctionDeg : R)
    (extendPastEnd extendPastCorner : Bool) : Pos R :=
  if path.length = 0 then ⟨lit 0, lit 0⟩
  else if path.length < 2 then path.at 0
  else
    let cur := min segIdx (path.length - 2)
    segmentWalk path maxJunctionDeg extendPastEnd extendPastCorner (path.length - 1 - cur) foot
      (stdMax (lit 0) lD)

structure LookaheadParams (R : Type) where
  minV : R
  maxV : R
  lMin : R
  lMax : R
  ldGain : R
  xtLdGain : R

def lookaheadDistance (p : LookaheadParams R) (lastSpeedCmd signedXtrack : R) : R :=
  let v := stdMax p.minV (if lit 0 < lastSpeedCmd then lastSpeedCmd else p.maxV * lit 0.5)
  let v := lit 0.7 * v + lit 0.3 * p.maxV
  let raw := p.ldGain * v + p.xtLdGain * fabs signedXtrack
  stdMax p.lMin (stdMin p.lMax raw)

structure ArcCapParams (R : Type) where
  cutTarget : R
  minArcLd : R
  ldCoeff : R

def applyArcCap (lD kappaPath : R) (p : ArcCapParams R) : R :=
  if lit 1e-6 < kappaPath ∧ lit 0 < p.cutTarget then
    stdMax (stdMin lD (sqrt (lit 8 * p.cutTarget / kappaPath))) p.minArcLd
  else if lit 1e-6 < kappaPath ∧ lit 0 < p.ldCoeff then stdMax lD (p.ldCoeff / kappaPath)
  else lD

structure Steering (R : Type) where
  lActual : R
  thetaE : R
  kappa : R
  degenerate : Bool

def steeringGeometry (dn de yawNed : R) : Steering R :=
  let x := dn * cos yawNed + de * sin yawNed
  let y := -dn * sin yawNed + de * cos yawNed
  let l := hypot x y
  let degenerate := decide (l < lit 1e-6)
  { lActual := l, thetaE := atan2 y x, degenerate
    kappa := if degenerate then lit 0 else lit 2 * y / (l * l) }

def pivotInterceptHeading (pos a b : Pos R) (legHeading : R) (enabled : Bool) (dInt : R) : R :=
  if !enabled then legHeading
  else
    let dx := b.n - a.n
    let dy := b.e - a.e
    let segSq := dx * dx + dy * dy
    if dInt ≤ lit 0 ∨ segSq < lit 1e-12 then legHeading
    else
      let segLen := sqrt segSq
      let tFoot := stdMax (lit 0) (stdMin (lit 1) (((pos.n - a.n) * dx + (pos.e - a.e) * dy) / segSq))
      let tInt := stdMin (tFoot + dInt / segLen) (lit 1)
      let aim : Pos R := ⟨a.n + tInt * dx, a.e + tInt * dy⟩
      if distance pos aim < stdMax (lit 0.05) (lit 0.25 * dInt) then legHeading
      else atan2 (aim.e - pos.e) (aim.n - pos.n)

/-- One gate of the acceleration: 1 up to `full`, 0 from `off` on, linear between them. -/
def accelGate (x full off : R) : R :=
  if off ≤ full then if x ≤ full then lit 1 else lit 0
  else if x ≤ full then lit 1
  else if off ≤ x then lit 0
  else (off - x) / (off - full)

def alignmentAccelScale (headingErr curvature fullHeadingDeg noneHeadingDeg fullCurv noneCurv : R) : R :=
  let heading := accelGate (fabs headingErr * (lit 180 / pi)) fullHeadingDeg noneHeadingDeg
  let curv := accelGate (fabs curvature) fullCurv noneCurv
  stdMax (lit 0) (stdMin (lit 1) (stdMin heading curv))

def updateKappaHardLatch (latched : Bool) (kappaNow enter exit : R) : Bool :=
  if enter ≤ exit then enter ≤ fabs kappaNow
  else if enter ≤ fabs kappaNow then true
  else if fabs kappaNow ≤ exit then false
  else latched

def applySmoothSpeedSlew (speedRaw lastSpeed dt : R) (hardLatched : Bool) (speedCmdDecel maxAccel accelScale : R)
    (approachActive : Bool) (p4Floor : R) : R :=
  if lastSpeed < speedRaw then
    if lit 0 < maxAccel then
      stdMin speedRaw (lastSpeed + maxAccel * stdMax (lit 0) accelScale * stdMax (lit 0) dt)
    else speedRaw
  else if approachActive ∨ speedRaw < p4Floor then speedRaw
  else if hardLatched then speedRaw
  else if lit 0 < speedCmdDecel then stdMax speedRaw (lastSpeed - speedCmdDecel * stdMax (lit 0) dt)
  else speedRaw

def approachDistance (configured maxV maxDecel : R) : R :=
  stdMax configured (maxV * maxV / (lit 2 * maxDecel) + lit 0.10)

def lateralSpeedLimit (kappaSpeed aLatMax minCurvV maxV : R) : R :=
  if lit 1e-9 < kappaSpeed then
    stdMax minCurvV (stdMin maxV (stdMin maxV (sqrt (aLatMax / kappaSpeed))))
  else maxV

/-- The speed, and whether the approach to the end is active. -/
def smoothApproachScaling (speed : R) (runClosed : Bool) (runLength pathTravel distToGoal approachD approachV : R) :
    R × Bool :=
  let clamp01 (v : R) := stdMax (lit 0) (stdMin (lit 1) v)
  if runClosed then
    let remaining := stdMax (lit 0) (runLength - pathTravel)
    if remaining < approachD then
      (stdMin speed (stdMax approachV (speed * clamp01 (remaining / approachD))), true)
    else (speed, false)
  else if distToGoal < approachD ∧ approachD ≤ pathTravel then
    (stdMin speed (stdMax approachV (speed * clamp01 (distToGoal / approachD))), true)
  else (speed, false)

def applyP4Floor (speed speedBeforeAccel lastSpeedCmd p4Floor : R) : R :=
  if speed < p4Floor ∧ speedBeforeAccel < p4Floor ∧ lit 0 < lastSpeedCmd then lit 0 else speed

def pathProgressAt (pathS : List R) (pathSize segIdx : ℕ) (t : R) : R :=
  if pathS.isEmpty ∨ pathS.length ≠ pathSize then lit 0
  else if pathS.length = 1 then lit 0
  else
    let i := min segIdx (pathS.length - 2)
    let alpha := stdMax (lit 0) (stdMin (lit 1) t)
    pathS.getD i (lit 0) + alpha * (pathS.getD (i + 1) (lit 0) - pathS.getD i (lit 0))

/-- The length after the last painted vertex of a run that paints and ends unpainted. -/
def measureTailTransit (path : Path R) (flags : List Bool) : R :=
  if flags.isEmpty ∨ flags.getLast? = some true then lit 0
  else match (List.range flags.length).reverse.find? (fun i => flags.getD i false) with
    | none => lit 0
    | some lastPaint =>
      (List.range' lastPaint (min path.length flags.length - 1 - lastPaint)).foldl
        (fun total i => total + distance (path.at i) (path.at (i + 1))) (lit 0)

def goalTolEffective (goalTol tailTransit runoutTol : R) : R :=
  if tailTransit ≤ lit 0 then goalTol
  else if runoutTol ≤ lit 0 then goalTol
  else stdMax goalTol (stdMin runoutTol (lit 0.5 * tailTransit))

structure CaptureParams (R : Type) where
  enabled : Bool
  goalTol : R
  tailTransit : R
  transitRunoutGoalTolerance : R
  past : R
  maxMiss : R

inductive CaptureVerdict where
  | refused | recovered | refusedWideMiss
  deriving DecidableEq

/-- Whether the rover drove through the end of the run without entering the goal ball. -/
def endpointCaptureRecovered (path : Path R) (pos : Pos R) (remainingAlong : Option R) (p : CaptureParams R) :
    CaptureVerdict :=
  if !p.enabled then .refused
  else if path.length < 2 then .refused
  else
    let tolEff := goalTolEffective p.goalTol p.tailTransit p.transitRunoutGoalTolerance
    match remainingAlong with
    | none => .refused
    | some remaining =>
      if tolEff < remaining then .refused
      else
        let a := path.at (path.length - 2)
        let b := path.last
        let seg := hypot (b.n - a.n) (b.e - a.e)
        if seg < lit 1e-6 then .refused
        else
          let un := (b.n - a.n) / seg
          let ue := (b.e - a.e) / seg
          let dn := pos.n - b.n
          let de := pos.e - b.e
          if dn * un + de * ue ≤ p.past then .refused
          else if p.maxMiss < fabs (dn * ue - de * un) then .refusedWideMiss
          else .recovered

end Dyx3.RppCore
