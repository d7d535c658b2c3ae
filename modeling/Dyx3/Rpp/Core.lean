import Dyx3.Rpp.Guidance
import Dyx3.Rpp.StopPivot

/-!
`RppCore`: the control tick with everything in front of it, over any `Scalar`. Times are `int64`
nanoseconds of one clock (`ℤ`). Each method is a function on the state; `out` is the output of the
current tick as in the source. The `/rpp/debug` and `/rpp/segment_debug` rows are left out: nothing of
the tick reads them.

`asked` is not in the source: it lists which hold asked `StopConfirm::satisfied` in this tick and what it
answered.
-/

namespace Dyx3.RppCore

open Lib Scalar

inductive StateCode where
  | stale | idle | tracking | approach | done | rtkWait | jumpSkip
  deriving DecidableEq

inductive SegState where
  | inactive | trackSegment | preCornerSlowdown | cornerAlign | done | cornerStop
  deriving DecidableEq

inductive Handoff where
  | none | pointHold
  deriving DecidableEq

inductive CmdKind where
  | stop | track | brake | pivot | creep
  deriving DecidableEq, Repr

inductive RtkReason where
  | ok | unavailable | stale | fixBelowMin | notRoverFix | accuracyUnknown | accuracyTooLarge | recovering
  deriving DecidableEq

/-- Where the rover asks for a stop: a vertex of a run, its entry, the boundary after it, its end. -/
inductive StopPlace where
  | corner (run seg : ℕ)
  | entry (run : ℕ)
  | boundary (run : ℕ)
  | completion (run : ℕ)
  | endpoint (run : ℕ)
  deriving DecidableEq, Repr

inductive CommandMode where
  | heading | rate
  deriving DecidableEq

/-- The parameters the core reads, with the defaults of the registry. -/
structure Params (R : Type) [Scalar R] where
  maxLinearVel : R := lit 0.85
  minLinearVel : R := lit 0.15
  minLookaheadDist : R := lit 0.52
  maxLookaheadDist : R := lit 1.0
  lookaheadTime : R := lit 1.6
  aLatMax : R := lit 0.04
  regulatedLinearScalingMinSpeed : R := lit 0.3
  xyGoalTolerance : R := lit 0.02
  minGoalTravel : R := lit 0.5
  closedLoopMinTravelFrac : R := lit 0.9
  approachVelocityScalingDist : R := lit 0.6
  minApproachLinearVelocity : R := lit 0.1
  endpointApproachRunRemaining : Bool := false
  transitRunoutGoalTolerance : R := lit 0.1
  transitRunoutMinSpeed : R := lit 0.1
  endpointCaptureRecoverEnabled : Bool := true
  endpointCapturePast : R := lit 0.02
  endpointCaptureMaxMiss : R := lit 0.1
  segmentPreciseEndpointStopEnabled : Bool := true
  segmentEndpointArrivalTolerance : R := lit 0.02
  segmentEndpointCrossTolerance : R := lit 0.02
  segmentEndpointMaxCorrection : R := lit 0.15
  segmentEndpointPreciseDecel : R := lit 0.35
  segmentEndpointTriggerMargin : R := lit 0.1
  segmentEndpointCreepSpeed : R := lit 0.1
  segmentEndpointPreciseMax : R := lit 8.0
  p4ZeroVelThreshold : R := lit 0.02
  poseMaxAge : R := lit 0.5
  ekfJumpThreshold : R := lit 0.05
  ekfResetCompensation : Bool := false
  ekfResetMaxAbsorb : R := lit 0.3
  requireRtkFix : Bool := true
  rtkFixTimeout : R := lit 0.5
  rtkRequireAccuracy : Bool := true
  rtkMaxHrms : R := lit 0.1
  rtkRecoverHold : R := lit 1.0
  previewCurvatureN : ℕ := 4
  xtrackLookaheadGain : R := lit 0.05
  smoothLateralGain : R := lit 1.5
  smoothLateralMaxDeg : R := lit 8.0
  smoothCurvatureLdCoeff : R := lit 0.2
  smoothMaxArcCut : R := lit 0.005
  smoothMinArcLd : R := lit 0.4
  curvatureBaseline : R := lit 0.15
  segmentCornerThresholdDeg : R := lit 45.0
  segmentLookaheadCrossCollinearDeg : R := lit 5.0
  segmentEndpointLookaheadExtend : Bool := true
  segmentCornerLookaheadExtend : Bool := false
  entryPrealignEnabled : Bool := true
  segmentSlowdownDist : R := lit 0.5
  segmentMinCornerSpeed : R := lit 0.12
  segmentEndpointApproachSpeed : R := lit 0.03
  stopLatchEnabled : Bool := false
  stopLatchMinActuatable : R := lit 0.1
  stopLatchCaptureDist : R := lit 0.02
  stopLatchReleaseDist : R := lit 0.2
  segmentCornerAcceptanceRadius : R := lit 0.05
  segmentHeadingToleranceDeg : R := lit 2.0
  segmentYawRateGain : R := lit 1.5
  segmentStopSpeedThreshold : R := lit 0.02
  segmentStopYawRateThreshold : R := lit 0.05
  segmentStopDwell : R := lit 0.3
  pointHoldEnabled : Bool := false
  segmentBrakeVelocityCap : R := lit 0.08
  segmentAlignSettle : R := lit 0.2
  segmentAlignSpeedThreshold : R := lit 0.02
  segmentTurnTimeout : R := lit 5.0
  segmentTimeoutHeadingToleranceDeg : R := lit 3.0
  segmentPivotSpinupMargin : R := lit 1.0
  segmentNominalPivotRate : R := lit 0.4
  segmentPivotTimeoutMax : R := lit 9.0
  segmentPivotReleaseMaxDeg : R := lit 3.0
  pivotToInterceptEnabled : Bool := true
  pivotInterceptDist : R := lit 0.35
  useImuExtrapolation : Bool := false
  imuMaxExtrapAge : R := lit 0.1
  poseLatencyBias : R := lit 0.0
  useFeedforwardYawRate : Bool := true
  yawRateFeedbackGain : R := lit 0.0
  maxYawRateBody : R := lit 0.45
  maxLinearAccel : R := lit 0.2
  missionSpeed : R := lit 0.6
  maxLinearDecel : R := lit 0.5
  accelGateHeadingFullDeg : R := lit 2.0
  accelGateHeadingNoneDeg : R := lit 5.0
  accelGateCurvFull : R := lit 0.05
  accelGateCurvNone : R := lit 0.15
  speedCmdDecel : R := lit 0.3
  kappaHardEnter : R := lit 0.25
  kappaHardExit : R := lit 0.15
  previewCurvatureDistance : R := lit 0.0
  segmentCommandMode : CommandMode := .heading

variable {R : Type} [Scalar R]

structure ConditionedRun (R : Type) where
  pts : Path R
  flags : List Bool
  segment : Bool
  length : R
  cumS : List R
  closed : Bool

structure NedPose (R : Type) where
  n : R
  e : R
  yawNed : R

structure Recv where
  has : Bool := false
  ns : ℤ := 0

structure TickOutput (R : Type) [Scalar R] where
  vN : R := lit 0
  vE : R := lit 0
  yawRate : R := lit 0
  state : StateCode := .idle
  cmd : CmdKind := .stop
  brakeSpeed : R := lit 0
  pivotHeadingErr : R := lit 0
  pivotSpeedMemory : R := lit 0
  pivotTimedOut : Bool := false
  creepSpeed : R := lit 0
  trackHeadingNed : R := lit 0
  yawNed : R := lit 0
  handoff : Handoff := .none
  rtkReason : RtkReason := .ok
  velocityPublished : Bool := false
  crossTrackRight : R := nan
  asked : List (StopPlace × Bool) := []

structure Core (R : Type) [Scalar R] where
  params : Params R := {}
  out : TickOutput R := {}
  stopConfirm : StopConfirm := {}
  corner : CornerFsm R := { pivot := { angle := lit 0 } }
  runs : List (ConditionedRun R) := []
  runTailTransits : List R := []
  runIdx : ℕ := 0
  run : Option (ConditionedRun R) := none
  profileSegment : Bool := false
  runAlignPending : Bool := false
  pathDone : Bool := false
  runBoundaryStopPending : Bool := false
  completionStopPending : Bool := false
  segmentEndpointStopActive : Bool := false
  endpointBrakeHold : Bool := false
  endpointStopStarted : Bool := false
  endpointStopStart : ℤ := 0
  runAlignTurn : R := lit 0
  segmentIdx : ℕ := 0
  segmentState : SegState := .inactive
  stopLatched : Bool := false
  pathTravel : R := lit 0
  runTailTransit : R := lit 0
  hint : ProjectionHint := {}
  lastSpeedCmd : R := lit 0
  kappaHardLatched : Bool := false
  lastYawCmd : R := lit 0
  lastTick : ℤ := 0
  haveLastTick : Bool := false
  tickDt : R := lit 1 / lit 50
  havePose : Bool := false
  pose : NedPose R := ⟨lit 0, lit 0, lit 0⟩
  poseRecv : ℤ := 0
  gaps : List R := []
  gapsHead : ℕ := 0
  velN : R := lit 0
  velE : R := lit 0
  yawRateNed : R := lit 0
  vel : Recv := {}
  gpsFix : ℤ := 0
  gpsHAcc : R := lit 0
  gpsHAccKnown : Bool := false
  gps : Recv := {}
  rtkRecoverSince : Recv := {}
  haveLastPos : Bool := false
  lastPos : Pos R := ⟨lit 0, lit 0⟩
  ekfOff : Pos R := ⟨lit 0, lit 0⟩
  ekfResetCount : ℕ := 0

/-- The position and heading a tick works with. -/
structure Fix (R : Type) where
  pos : Pos R
  yaw : R

namespace Core

def path (s : Core R) : Path R := (s.run.map ConditionedRun.pts).getD []

/-- The turn between the last leg of one path and the first leg of the next. -/
def turnInto (prev next : Path R) : R :=
  headingDelta (segmentHeading (prev.at (prev.length - 2)) prev.last) (segmentHeading (next.at 0) (next.at 1))

def resetCornerPivotState (s : Core R) : Core R :=
  { s with corner := s.corner.reset, stopConfirm := s.stopConfirm.reset }

/-- Whether run `idx` starts with an alignment pivot, and the angle its watchdog budgets. -/
def alignment (s : Core R) (idx : ℕ) (run : ConditionedRun R) : Bool × R :=
  let prev := if 0 < idx then s.runs[idx - 1]? else none
  let hard (prev : ConditionedRun R) : Bool × R :=
    let turn := fabs (turnInto prev.pts run.pts)
    if s.params.segmentCornerThresholdDeg * (pi / lit 180) ≤ turn then (true, turn) else (false, lit 0)
  let first : Bool × R :=
    if idx = 0 ∧ 1 < run.pts.length ∧ (s.params.entryPrealignEnabled ∨ run.flags.head? = some true) then (true, pi)
    else (false, lit 0)
  match prev with
  | some prev => if 1 < prev.pts.length ∧ 1 < run.pts.length then hard prev else first
  | none => first

def applyRun (s : Core R) (idx : ℕ) (preStopped : Bool) : Core R :=
  match s.runs[idx]? with
  | none => s
  | some run =>
    let (pending, turn) := s.alignment idx run
    let s := s.resetCornerPivotState
    { s with
      runAlignPending := pending
      runAlignTurn := turn
      corner := if preStopped && pending then s.corner.carryStopComplete else s.corner
      runBoundaryStopPending := false
      runIdx := idx
      run := some run
      profileSegment := run.segment
      segmentIdx := 0
      segmentState := if run.segment && 2 ≤ run.pts.length then .trackSegment else .inactive
      pathDone := false
      completionStopPending := false
      segmentEndpointStopActive := false
      endpointBrakeHold := false
      pathTravel := lit 0
      kappaHardLatched := false
      runTailTransit := s.runTailTransits.getD idx (lit 0)
      hint := ⟨0, run.closed⟩ }

def installMission (s : Core R) (runs : List (ConditionedRun R)) : Core R :=
  let s :=
    { s with
      runs
      runTailTransits := runs.map fun run => measureTailTransit run.pts run.flags
      lastSpeedCmd := lit 0
      kappaHardLatched := false
      stopLatched := false
      segmentEndpointStopActive := false
      endpointBrakeHold := false
      haveLastTick := false
      haveLastPos := false
      ekfOff := ⟨lit 0, lit 0⟩
      ekfResetCount := 0
      run := none }
  if runs.isEmpty then s else s.applyRun 0 false

def startAtRun (s : Core R) (idx : ℕ) : Core R × Bool :=
  if s.runs.length ≤ idx then (s, false)
  else
    let s := s.applyRun idx (0 < idx)
    (if 0 < idx ∧ s.runAlignPending then { s with runAlignTurn := pi } else s, true)

def advanceRun (s : Core R) (preStopped : Bool) : Core R × Bool :=
  if s.runs.length ≤ s.runIdx + 1 then (s, false) else (s.applyRun (s.runIdx + 1) preStopped, true)

def poseGaps : ℕ := 64

def onPose (s : Core R) (pose : NedPose R) (now : ℤ) : Core R :=
  if !(isfinite pose.n && isfinite pose.e && isfinite pose.yawNed) then s
  else
    let gap : R := nsToS (now - s.poseRecv)
    let s :=
      if s.havePose ∧ lit 0 < gap ∧ gap < lit 1 then
        { s with
          gaps := if s.gaps.length < poseGaps then s.gaps ++ [gap] else s.gaps.set s.gapsHead gap
          gapsHead := (s.gapsHead + 1) % poseGaps }
      else s
    { s with pose, havePose := true, poseRecv := now }

def onVelocity (s : Core R) (vNorth vEast yawRateNed : R) (now : ℤ) : Core R :=
  if !(isfinite vNorth && isfinite vEast && isfinite yawRateNed) then s
  else { s with velN := vNorth, velE := vEast, yawRateNed, vel := ⟨true, now⟩ }

def onGps (s : Core R) (fixType : ℤ) (hAcc : R) (now : ℤ) : Core R :=
  { s with
    gpsFix := fixType, gps := ⟨true, now⟩
    gpsHAccKnown := isfinite hAcc, gpsHAcc := if isfinite hAcc then hAcc else lit 0 }

def velIsFresh (s : Core R) (now : ℤ) : Bool := s.vel.has && decide ((nsToS (now - s.vel.ns) : R) < lit 0.3)

def measuredSpeed (s : Core R) (now : ℤ) : R :=
  if !s.vel.has then lit 0
  else if lit 0.5 ≤ (nsToS (now - s.vel.ns) : R) then lit 0
  else hypot s.velN s.velE

/-- The fix itself, without the recovery hold; `none` when it is good. -/
def rtkRefusal (s : Core R) (now : ℤ) : Option RtkReason :=
  let age : R := nsToS (now - s.gps.ns)
  let known := s.gpsHAccKnown && isfinite s.gpsHAcc && decide (lit 0 ≤ s.gpsHAcc)
  if !s.gps.has then some .unavailable
  else if !isfinite age then some .unavailable
  else if age < lit 0 ∨ stdMax (lit 0) s.params.rtkFixTimeout < age then some .stale
  else if s.gpsFix < 6 then some .fixBelowMin
  else if s.gpsFix ≠ 5 ∧ s.gpsFix ≠ 6 then some .notRoverFix
  else if !known then if s.params.rtkRequireAccuracy then some .accuracyUnknown else none
  else if lit 0 < s.params.rtkMaxHrms ∧ s.params.rtkMaxHrms < s.gpsHAcc then some .accuracyTooLarge
  else none

def rtkGate (s : Core R) (now : ℤ) : Core R × Bool × RtkReason :=
  match s.rtkRefusal now with
  | some reason => ({ s with rtkRecoverSince := { s.rtkRecoverSince with has := false } }, false, reason)
  | none =>
    let since := if s.rtkRecoverSince.has then s.rtkRecoverSince else ⟨true, now⟩
    let held : R := nsToS (now - since.ns)
    let since := if held < lit 0 then { since with ns := now } else since
    let held := if held < lit 0 then lit 0 else held
    let s := { s with rtkRecoverSince := since }
    if held < stdMax (lit 0) s.params.rtkRecoverHold then (s, false, .recovering) else (s, true, .ok)

def publishVelocity (s : Core R) (vN vE : R) : Core R :=
  { s with out := { s.out with vN, vE, velocityPublished := true, cmd := .track } }

def publishYawRate (s : Core R) (yawRate : R) : Core R := { s with out := { s.out with yawRate } }

def publishDebug (s : Core R) (state : StateCode) (crossTrack : R) : Core R :=
  { s with out := { s.out with state, crossTrackRight := crossTrack } }

def command (s : Core R) (cmd : CmdKind) : Core R := { s with out := { s.out with cmd } }

def publishZero (s : Core R) (state : StateCode) : Core R :=
  let s := ((s.publishVelocity (lit 0) (lit 0)).publishYawRate (lit 0)).command .stop
  let s := if state = .jumpSkip then s else { s with lastSpeedCmd := lit 0, kappaHardLatched := false }
  s.publishDebug state nan

def handOff (s : Core R) (h : Handoff) : Core R :=
  let s := { s with out := { s.out with handoff := h } }
  let s := ((s.publishVelocity (lit 0) (lit 0)).publishYawRate (lit 0)).command .stop
  { s with lastSpeedCmd := lit 0 }.publishDebug .idle nan

def runMinTravel (s : Core R) : R :=
  match s.run with
  | none => s.params.minGoalTravel
  | some run =>
    if run.closed then s.params.closedLoopMinTravelFrac * run.length
    else stdMin s.params.minGoalTravel (lit 0.5 * run.length)

def updatePathProgress (s : Core R) (segIdx : ℕ) (t : R) : Core R :=
  match s.run with
  | none => s
  | some run => { s with pathTravel := stdMax s.pathTravel (pathProgressAt run.cumS run.pts.length segIdx t) }

def runRemainingAlong (s : Core R) : Option R :=
  match s.run with
  | none => none
  | some run =>
    if run.length ≤ lit 0 then none
    else if run.cumS.isEmpty ∨ run.cumS.length ≠ run.pts.length then none
    else some (stdMax (lit 0) (run.length - s.pathTravel))

def goalTolEff (s : Core R) : R :=
  goalTolEffective s.params.xyGoalTolerance s.runTailTransit s.params.transitRunoutGoalTolerance

def captureRecovered (s : Core R) (pos : Pos R) : Bool :=
  s.run.isSome &&
    decide (endpointCaptureRecovered s.path pos s.runRemainingAlong
      { enabled := s.params.endpointCaptureRecoverEnabled, goalTol := s.params.xyGoalTolerance
        tailTransit := s.runTailTransit, transitRunoutGoalTolerance := s.params.transitRunoutGoalTolerance
        past := s.params.endpointCapturePast, maxMiss := s.params.endpointCaptureMaxMiss } = .recovered)

/-- `[STOP-LATCH]`: the speed of the segment drive command, and the latch. -/
def stopLatchFilter (s : Core R) (speed stopDist : R) (now : ℤ) : R × Bool :=
  let th := s.params.stopLatchMinActuatable
  let cap := s.params.stopLatchCaptureDist
  if !s.params.stopLatchEnabled then (speed, s.stopLatched)
  else if s.stopLatched then
    if lit 0 < speed ∧ s.params.stopLatchReleaseDist < stopDist then (stdMax speed th, false)
    else if lit 0 < speed ∧ cap < stopDist ∧ s.measuredSpeed now < lit 0.02 then (th, true)
    else (lit 0, true)
  else if speed ≤ lit 0 ∨ th ≤ speed then (speed, false)
  else if stopDist ≤ cap then (lit 0, true)
  else (th, false)

def maxBearingOffset : R := lit 75 * (pi / lit 180)

def clampToForwardCone (v : Pos R) (yawNed speed : R) : Pos R :=
  if speed ≤ lit 1e-6 then v
  else if hypot v.n v.e ≤ lit 1e-9 then v
  else
    let headingErr := angleWrap (atan2 v.e v.n - yawNed)
    if fabs headingErr ≤ maxBearingOffset then v
    else
      let bearing := yawNed + clampd headingErr (-maxBearingOffset) maxBearingOffset
      ⟨speed * cos bearing, speed * sin bearing⟩

def cornerSpeed (s : Core R) : R := stdMax (lit 0.05) s.params.segmentMinCornerSpeed

def stopParams (s : Core R) : StopPivotParams R :=
  let p := s.params
  { stopSpeedThreshold := p.segmentStopSpeedThreshold
    stopYawRateThreshold := p.segmentStopYawRateThreshold
    stopDwell := p.segmentStopDwell
    brakeVelocityCap := p.segmentBrakeVelocityCap
    alignSpeedThreshold := p.segmentAlignSpeedThreshold
    alignSettle := p.segmentAlignSettle
    headingTolerance := p.segmentHeadingToleranceDeg * (pi / lit 180)
    timeoutHeadingTol := p.segmentTimeoutHeadingToleranceDeg * (pi / lit 180)
    releaseMax := p.segmentPivotReleaseMaxDeg * (pi / lit 180)
    spinupMargin := p.segmentPivotSpinupMargin
    nominalPivotRate := p.segmentNominalPivotRate
    turnTimeout := p.segmentTurnTimeout
    pivotTimeoutMax := p.segmentPivotTimeoutMax
    cornerThresholdDeg := p.segmentCornerThresholdDeg
    cornerSpeed := s.cornerSpeed
    staleVelHold := lit 2.0 }

def telemetry (s : Core R) (now : ℤ) (yawNed : R) : StopTelemetry R :=
  { velFresh := s.velIsFresh now
    speed := hypot s.velN s.velE
    vForward := s.velN * cos yawNed + s.velE * sin yawNed
    yawRate := s.yawRateNed }

def profileFeedback (s : Core R) (vProfile : R) (tel : StopTelemetry R) (floor : R) : R :=
  if !tel.velFresh || tel.speed < s.stopParams.stopSpeedThreshold then vProfile
  else stdMax floor (stdMin vProfile (lit 2 * vProfile - tel.vForward))

def debugXtrack (s : Core R) (pos : Pos R) : R :=
  if s.path.length < 2 then lit 0 else (projectOntoSegment pos s.path s.segmentIdx).signedCross

def nextRunTurn (s : Core R) : R :=
  match s.runs[s.runIdx]?, s.runs[s.runIdx + 1]? with
  | some cur, some next =>
    if cur.pts.length < 2 ∨ next.pts.length < 2 then lit 0 else turnInto cur.pts next.pts
  | _, _ => lit 0

def nextRunRequiresAlignment (s : Core R) : Bool :=
  s.params.segmentCornerThresholdDeg * (pi / lit 180) ≤ s.nextRunTurn

def publishBrake (s : Core R) (yawNed : R) (tel : StopTelemetry R) : Core R :=
  let b := RppCore.brakeSpeed tel s.stopParams
  let s := ((s.publishVelocity (b * cos yawNed) (b * sin yawNed)).publishYawRate (lit 0)).command .brake
  { s with out := { s.out with brakeSpeed := b } }

/-- The answer of `StopConfirm::satisfied` to the hold at `place`. -/
def note (s : Core R) (place : StopPlace) (answer : Option Bool) : Core R :=
  match answer with
  | none => s
  | some answer => { s with out := { s.out with asked := s.out.asked ++ [(place, answer)] } }

/-- A small vector at the exit heading, kept inside the forward cone. -/
def publishPivot (s : Core R) (yawNed headingErr : R) (timedOut : Bool) : Core R :=
  let speed := s.cornerSpeed
  let bearing := yawNed + clampd headingErr (-maxBearingOffset) maxBearingOffset
  let s := { s with lastSpeedCmd := speed }
  let s := ((s.publishVelocity (speed * cos bearing) (speed * sin bearing)).publishYawRate (lit 0)).command .pivot
  { s with
    out := { s.out with pivotHeadingErr := headingErr, pivotSpeedMemory := speed, pivotTimedOut := timedOut } }

end Core

end Dyx3.RppCore
