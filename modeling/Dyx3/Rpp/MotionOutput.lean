import Dyx3.Rpp.Core

/-!
The output stage of RPP: the command a tick of the core becomes (`motion_output.cpp`, `rpp_command.cpp`).
-/

namespace Dyx3.RppCore

open Lib Scalar Single

inductive MotionMode where
  | stop | trackHeading | trackRate | pivot | creep
  deriving DecidableEq, Repr

variable {R : Type} [Single R]

structure MotionCommand (R : Type) [Single R] where
  mode : MotionMode := .stop
  speedBodyX : R := lit 0
  yawSetpoint : R := nan
  yawRateSetpoint : R := lit 0

def wrapPi (a : R) : R :=
  let w := fmod (a + pi) (lit 2 * pi)
  toFloat ((if w < lit 0 then w + lit 2 * pi else w) - pi)

/-- `clampd(v, lim)`. -/
def clampTo (v lim : R) : R := stdMax (-lim) (stdMin lim v)

def makeStop : MotionCommand R := {}

def makeTrackHeading (speed yawNed : R) : MotionCommand R :=
  { mode := .trackHeading, speedBodyX := toFloat speed, yawSetpoint := wrapPi yawNed, yawRateSetpoint := nan }

def makeTrackRate (speed yawRate maxYawRate : R) : MotionCommand R :=
  { mode := .trackRate, speedBodyX := toFloat speed
    yawRateSetpoint := toFloat (if lit 0 < maxYawRate then clampTo yawRate maxYawRate else yawRate) }

def makeCreep (speed yawRate maxYawRate : R) : MotionCommand R :=
  { makeTrackRate speed yawRate maxYawRate with mode := .creep }

def kPivotRateGain : R := lit 1.5

def makePivot (headingErr maxYawRate : R) : MotionCommand R :=
  { mode := .pivot, yawRateSetpoint := toFloat (clampTo (kPivotRateGain * headingErr) maxYawRate) }

def isZero (x : R) : Bool := decide (x ≤ lit 0) && decide (lit 0 ≤ x)

def isNan (x : R) : Bool := !decide (x ≤ x)

def makeBrake (signedSpeed noseYawNed : R) : MotionCommand R :=
  if isZero signedSpeed then makeTrackHeading (lit 0) noseYawNed else makeTrackHeading signedSpeed noseYawNed

/-- The fields a mode uses are finite and the others are empty. -/
def MotionCommand.clean (c : MotionCommand R) : Bool :=
  match c.mode with
  | .stop => isZero c.speedBodyX && isNan c.yawSetpoint && isZero c.yawRateSetpoint
  | .trackHeading => isfinite c.speedBodyX && isfinite c.yawSetpoint && isNan c.yawRateSetpoint
  | .trackRate | .creep => isfinite c.speedBodyX && isfinite c.yawRateSetpoint && isNan c.yawSetpoint
  | .pivot =>
    isfinite c.speedBodyX && isZero c.speedBodyX && isfinite c.yawRateSetpoint && isNan c.yawSetpoint

def sanitize (c : MotionCommand R) : MotionCommand R := if c.clean then c else makeStop

def kCreepSteerMinRad : R := lit 2 * pi / lit 180

/-- The heading command of a creep off the nose, or the plain creep. -/
def creepCommand (o : TickOutput R) (maxYawRate : R) : MotionCommand R :=
  let plain := makeCreep o.creepSpeed (lit 0) maxYawRate
  let mag := hypot o.vN o.vE
  if decide (lit 1e-9 < mag) && isfinite mag && isfinite o.yawNed then
    let bearing := atan2 o.vE o.vN
    let off := angleWrap (bearing - o.yawNed)
    let ahead := decide (fabs off ≤ pi / lit 2)
    let offAxis := if ahead then fabs off else pi - fabs off
    if kCreepSteerMinRad < offAxis then
      if ahead then makeTrackHeading mag bearing else makeTrackHeading (-mag) (atan2 (-o.vE) (-o.vN))
    else plain
  else plain

def commandFromTick (o : TickOutput R) (profileSegment : Bool) (maxYawRate : R) (segmentRateCommand : Bool) :
    MotionCommand R :=
  sanitize <|
    match o.cmd with
    | .stop => makeStop
    | .track =>
      let speed := hypot o.vN o.vE
      let heading := if lit 1e-9 < speed then atan2 o.vE o.vN else o.trackHeadingNed
      if profileSegment && !segmentRateCommand then makeTrackHeading speed heading
      else makeTrackRate speed o.yawRate maxYawRate
    | .brake => makeBrake o.brakeSpeed o.yawNed
    | .pivot => makePivot o.pivotHeadingErr maxYawRate
    | .creep => creepCommand o maxYawRate

end Dyx3.RppCore
