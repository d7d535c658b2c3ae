import Dyx3.Rpp.Core

/-!
The holds of `RppCore`: the alignment pivot at the entry of a run, the stop before a hard run boundary,
the stop at completion and the precise stop at the endpoint.
-/

namespace Dyx3.RppCore.Core

open Lib Scalar

variable {R : Type} [Scalar R]

/-- One step of the corner machine at `place`. -/
def stepCorner (s : Core R) (place : StopPlace) (i : CornerInput R) : CornerOutput R × Core R :=
  let (out, corner, stopConfirm) := s.corner.step s.stopConfirm s.stopParams i
  (out, { s with corner, stopConfirm }.note place out.confirmed)

/-- `run_alignment_hold`; true while it stops, pivots or settles. -/
def runAlignmentHold (s : Core R) (fix : Fix R) (now : ℤ) : Core R × Bool :=
  if !s.runAlignPending then (s, false)
  else if s.path.length < 2 then ({ s with runAlignPending := false }, false)
  else
    let a := s.path.at 0
    let b := s.path.at 1
    if distance a b < lit 1e-6 then ({ s with runAlignPending := false }, false)
    else
      let target :=
        pivotInterceptHeading fix.pos a b (segmentHeading a b) s.params.pivotToInterceptEnabled s.params.pivotInterceptDist
      let headingErr := angleWrap (target - fix.yaw)
      let tel := s.telemetry now fix.yaw
      -- an entry pivot never takes the tangent shortcut
      let (co, s) := s.stepCorner (.entry s.runIdx)
        { now, headingErr, cornerDeg := infinity, tel, turnAngle := s.runAlignTurn }
      let xt := s.debugXtrack fix.pos
      match co.action with
      | .advance => ({ s with runAlignPending := false, lastSpeedCmd := lit 0 }, false)
      | .settleBrake | .brake =>
        (({ s with lastSpeedCmd := lit 0 }.publishBrake fix.yaw tel).publishDebug .tracking xt, true)
      | .pivot => ((s.publishPivot fix.yaw headingErr co.pivotTimedOut).publishDebug .tracking xt, true)

/-- A hold asks for the stop confirmation. -/
def stepHold (s : Core R) (place : StopPlace) (now : ℤ) (tel : StopTelemetry R) : Bool × Core R :=
  let (h, stopConfirm) := stopHold s.stopConfirm now tel s.stopParams
  (h.stopped, { s with stopConfirm }.note place (some h.stopped))

/-- The brake of a hold. -/
def holdBrake (s : Core R) (fix : Fix R) (tel : StopTelemetry R) : Core R :=
  let xt := s.debugXtrack fix.pos
  ({ s with segmentState := .cornerStop, lastSpeedCmd := lit 0 }.publishBrake fix.yaw tel).publishDebug .tracking xt

def holdBeforeRunAdvance (s : Core R) (fix : Fix R) (now : ℤ) : Core R :=
  if s.runs.length ≤ s.runIdx + 1 then s
  else if !s.nextRunRequiresAlignment then (s.advanceRun false).1
  else
    let s := if s.runBoundaryStopPending then s else { s.resetCornerPivotState with runBoundaryStopPending := true }
    let tel := s.telemetry now fix.yaw
    let (stopped, s) := s.stepHold (.boundary s.runIdx) now tel
    if stopped then ({ s with runBoundaryStopPending := false }.advanceRun true).1 else s.holdBrake fix tel

def holdAtCompletion (s : Core R) (fix : Fix R) (now : ℤ) : Core R :=
  let s := if s.completionStopPending then s else { s.resetCornerPivotState with completionStopPending := true }
  let tel := s.telemetry now fix.yaw
  let (stopped, s) := s.stepHold (.completion s.runIdx) now tel
  if stopped then { s with pathDone := true, segmentState := .done }.publishZero .done else s.holdBrake fix tel

/-- The position against the end of the final segment: unit direction, residual (+ ahead), cross
(left positive), distance. -/
structure EndOffset (R : Type) where
  u : Pos R
  d : Pos R
  residual : R
  cross : R
  radial : R

def endOffset (pos a b : Pos R) (segLen : R) : EndOffset R :=
  let u : Pos R := ⟨(b.n - a.n) / segLen, (b.e - a.e) / segLen⟩
  let d : Pos R := ⟨b.n - pos.n, b.e - pos.e⟩
  { u, d, residual := d.n * u.n + d.e * u.e, cross := (pos.n - b.n) * u.e - (pos.e - b.e) * u.n, radial := hypot d.n d.e }

/-- The distance before the end plane at which the precise stop engages. -/
def endpointTrigger (s : Core R) (now : ℤ) : R :=
  let speed := stdMax (lit 0) (s.measuredSpeed now)
  let floor := stdMax (lit 0) s.params.segmentEndpointArrivalTolerance
  let decel := s.params.segmentEndpointPreciseDecel
  (if decel ≤ lit 0 then floor else stdMax floor (speed * speed / (lit 2 * decel))) + s.params.segmentEndpointTriggerMargin

/-- A brake past the timeout or on a lateral miss. -/
def endpointBrake (s : Core R) (fix : Fix R) (tel : StopTelemetry R) (cross : R) : Core R :=
  (s.publishBrake fix.yaw tel).publishDebug .tracking (-cross)

/-- The brake inside the arrival band, aimed at the deceleration profile. -/
def endpointHold (s : Core R) (fix : Fix R) (tel : StopTelemetry R) (o : EndOffset R) : Core R :=
  let s := { s with endpointBrakeHold := true }
  let decel := s.params.segmentEndpointPreciseDecel
  let vProfile := if lit 0 < o.residual ∧ lit 0 < decel then sqrt (lit 2 * decel * o.residual) else lit 0
  if lit 0 < vProfile then
    let cmd := s.profileFeedback vProfile tel (-s.params.segmentBrakeVelocityCap)
    let back := decide (cmd < lit 0)
    let s := (s.publishVelocity (cmd * o.u.n) (cmd * o.u.e)).publishYawRate (lit 0)
    let s := s.command (if back then .brake else .creep)
    { s with
      out := { s.out with brakeSpeed := if back then cmd else lit 0, creepSpeed := if back then lit 0 else cmd } }
      |>.publishDebug .tracking (-o.cross)
  else s.endpointBrake fix tel o.cross

def endpointCreepSpeed (s : Core R) (tel : StopTelemetry R) (stopped : Bool) (o : EndOffset R) (now : ℤ) : R :=
  let alongTol := s.params.segmentEndpointArrivalTolerance
  let crossTol := s.params.segmentEndpointCrossTolerance
  let decel := s.params.segmentEndpointPreciseDecel
  let lateral := decide (crossTol < fabs o.cross) && decide (o.radial ≤ s.params.segmentEndpointMaxCorrection)
  let creep := s.params.segmentEndpointCreepSpeed
  if stopped ∧ stdMax alongTol crossTol < o.radial then creep
  else
    let rem := stdMax (lit 0) (if lateral then o.radial else fabs o.residual)
    let cap := stdMax (lit 0) (stdMax (s.measuredSpeed now) creep)
    let mag := if rem ≤ lit 0 ∨ decel ≤ lit 0 then lit 0 else stdMin (sqrt (lit 2 * decel * rem)) cap
    if !lateral && lit 0 < o.residual && lit 0 < mag then stdMax (lit 0) (s.profileFeedback mag tel (lit 0)) else mag

/-- A creep along the final leg, or toward the endpoint when a small lateral correction is needed. -/
def endpointCreep (s : Core R) (fix : Fix R) (tel : StopTelemetry R) (stopped : Bool) (o : EndOffset R) (now : ℤ) : Core R :=
  let s := { s with endpointBrakeHold := false }
  let alongTol := s.params.segmentEndpointArrivalTolerance
  let crossTol := s.params.segmentEndpointCrossTolerance
  let limit := s.params.segmentEndpointMaxCorrection
  let mag := s.endpointCreepSpeed tel stopped o now
  let sign : R := if lit 0 ≤ o.residual then lit 1 else lit (-1)
  let along : Pos R := ⟨sign * o.u.n, sign * o.u.e⟩
  let dir : Pos R :=
    if o.radial < lit 1e-6 ∨ stdMax limit (stdMax alongTol crossTol) < o.radial then along
    else if crossTol < fabs o.cross ∧ o.radial ≤ limit then ⟨o.d.n / o.radial, o.d.e / o.radial⟩
    else along
  let v : Pos R := ⟨mag * dir.n, mag * dir.e⟩
  let s := ((s.publishVelocity v.n v.e).publishYawRate (lit 0)).command .creep
  { s with
    out := { s.out with creepSpeed := copysign (hypot v.n v.e) (v.n * cos fix.yaw + v.e * sin fix.yaw) } }
    |>.publishDebug .tracking (-o.cross)

/-- The engaged precise stop. -/
def endpointStop (s : Core R) (fix : Fix R) (o : EndOffset R) (now : ℤ) : Core R :=
  let tel := s.telemetry now fix.yaw
  let (stopped, stopConfirm) := s.stopConfirm.satisfied now tel s.stopParams
  let s := { s with stopConfirm }.note (.endpoint s.runIdx) (some stopped)
  let alongTol := s.params.segmentEndpointArrivalTolerance
  let crossTol := s.params.segmentEndpointCrossTolerance
  let maxS := s.params.segmentEndpointPreciseMax
  let inFinish := decide (fabs o.residual ≤ alongTol) && decide (fabs o.cross ≤ crossTol)
  let inHold :=
    decide (fabs o.residual ≤ alongTol + s.params.endpointCapturePast) && decide (fabs o.cross ≤ crossTol)
  let timedOut :=
    decide (lit 0 < maxS) && s.endpointStopStarted && decide (maxS ≤ (nsToS (now - s.endpointStopStart) : R))
  if (inFinish || timedOut) && stopped then
    { s with
      segmentEndpointStopActive := false, endpointStopStarted := false, endpointBrakeHold := false
      completionStopPending := true }.holdAtCompletion fix now
  else
    let s := { s with segmentState := .cornerStop, lastSpeedCmd := lit 0 }
    if timedOut then s.endpointBrake fix tel o.cross
    else if s.params.segmentEndpointMaxCorrection < o.radial ∧ crossTol < fabs o.cross then
      s.endpointBrake fix tel o.cross
    else if !stopped && (inFinish || (s.endpointBrakeHold && inHold)) then s.endpointHold fix tel o
    else s.endpointCreep fix tel stopped o now

/-- `precise_stop_tick`; true when it published a command. -/
def preciseStopTick (s : Core R) (fix : Fix R) (now : ℤ) : Core R × Bool :=
  if !s.params.segmentPreciseEndpointStopEnabled then (s, false)
  else if s.runIdx + 1 < s.runs.length then (s, false)
  else if s.path.length < 2 then (s, false)
  else
    let a := s.path.at (s.path.length - 2)
    let b := s.path.last
    let segLen := hypot (b.n - a.n) (b.e - a.e)
    if segLen < lit 1e-6 then (s, false)
    else
      let o := endOffset fix.pos a b segLen
      if !s.segmentEndpointStopActive && s.endpointTrigger now < o.residual then (s, false)
      else
        let s :=
          if s.segmentEndpointStopActive then s
          else
            { s.resetCornerPivotState with
              segmentEndpointStopActive := true, endpointBrakeHold := false, endpointStopStarted := true
              endpointStopStart := now }
        (s.endpointStop fix o now, true)

end Dyx3.RppCore.Core
