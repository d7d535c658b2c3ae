import Dyx3.Lib.Scalar

/-!
`stop_pivot_fsm`: the stop confirmation, the pivot watchdog and the corner machine, over any `Scalar`.
The stop confirmation is shared by the corner flow and every hold, so it is passed in and out. The
transition log is left out: nothing of the tick reads it.
-/

namespace Dyx3.RppCore

open Lib Scalar

variable {R : Type} [Scalar R]

structure StopTelemetry (R : Type) where
  velFresh : Bool
  speed : R
  vForward : R
  yawRate : R

structure StopPivotParams (R : Type) where
  stopSpeedThreshold : R
  stopYawRateThreshold : R
  stopDwell : R
  brakeVelocityCap : R
  alignSpeedThreshold : R
  alignSettle : R
  headingTolerance : R
  timeoutHeadingTol : R
  releaseMax : R
  spinupMargin : R
  nominalPivotRate : R
  turnTimeout : R
  pivotTimeoutMax : R
  cornerThresholdDeg : R
  cornerSpeed : R
  staleVelHold : R

/-- The signed brake command along the nose. -/
def brakeSpeed (tel : StopTelemetry R) (p : StopPivotParams R) : R :=
  if !tel.velFresh then lit 0
  else if p.brakeVelocityCap ≤ lit 0 then lit 0
  else if tel.speed < p.stopSpeedThreshold then lit 0
  else if fabs tel.vForward < p.stopSpeedThreshold ∨ fabs tel.vForward < lit 0.5 * tel.speed then lit 0
  else
    let mag := stdMin p.brakeVelocityCap (fabs tel.vForward)
    (if lit 0 < tel.vForward then lit (-1) else lit 1) * mag

structure StopConfirm where
  entered : Bool := false
  enteredNs : ℤ := 0
  settle : Bool := false
  settleNs : ℤ := 0
  stale : Bool := false
  staleNs : ℤ := 0
  deriving DecidableEq

namespace StopConfirm

def reset (s : StopConfirm) : StopConfirm := { s with entered := false, settle := false, stale := false }

def enter (s : StopConfirm) (now : ℤ) : StopConfirm :=
  if s.entered then s else { s with entered := true, enteredNs := now }

/-- A stale velocity confirms after the cap, a fresh one only by the dwell. -/
def satisfied (s : StopConfirm) (now : ℤ) (tel : StopTelemetry R) (p : StopPivotParams R) : Bool × StopConfirm :=
  let s := s.enter now
  if !tel.velFresh then
    let s := { s with settle := false }
    let s := if s.stale then s else { s with stale := true, staleNs := now }
    (decide (p.staleVelHold ≤ nsToS (now - s.staleNs)), s)
  else
    let s := { s with stale := false }
    if tel.speed < p.stopSpeedThreshold ∧ fabs tel.yawRate < p.stopYawRateThreshold then
      if p.stopDwell ≤ lit 0 then (true, s)
      else if !s.settle then (false, { s with settle := true, settleNs := now })
      else (decide (p.stopDwell ≤ nsToS (now - s.settleNs)), s)
    else (false, { s with settle := false })

end StopConfirm

structure PivotWatchdog (R : Type) where
  started : Bool := false
  startedNs : ℤ := 0
  warned : Bool := false
  angle : R

namespace PivotWatchdog

def reset (w : PivotWatchdog R) : PivotWatchdog R := { w with started := false, warned := false, angle := lit 0 }

def budget (w : PivotWatchdog R) (p : StopPivotParams R) : R :=
  let angle := stdMax (lit 0) w.angle
  let budget := p.spinupMargin + (if lit 1e-6 < p.nominalPivotRate then angle / p.nominalPivotRate else lit 0)
  let budget := stdMax budget p.turnTimeout
  if lit 0 < p.pivotTimeoutMax then stdMin budget p.pivotTimeoutMax else budget

/-- The first call starts the clock and keeps the turn angle. -/
def timedOut (w : PivotWatchdog R) (now : ℤ) (turnAngle : R) (p : StopPivotParams R) : Bool × PivotWatchdog R :=
  if !w.started then
    (false, { w with started := true, startedNs := now, angle := if isfinite turnAngle then fabs turnAngle else w.angle })
  else if w.budget p ≤ lit 0 then (false, w)
  else if nsToS (now - w.startedNs) < w.budget p then (false, w)
  else (true, { w with warned := true })

end PivotWatchdog

inductive FsmState where
  | tracking | brake | pivot | releaseSettle | advance | done
  deriving DecidableEq

inductive CornerAction where
  | brake | pivot | settleBrake | advance
  deriving DecidableEq

structure CornerOutput (R : Type) where
  action : CornerAction
  state : FsmState
  brakeSpeed : R
  headingErr : R
  collinear : Bool := false
  zeroSpeedMemory : Bool := false
  setSpeedMemory : Bool := false
  speedMemory : R
  pivotTimedOut : Bool := false
  /-- What `StopConfirm::satisfied` answered in this step, if it was asked; not in the source. -/
  confirmed : Option Bool := none

structure CornerInput (R : Type) where
  now : ℤ
  headingErr : R
  cornerDeg : R
  tel : StopTelemetry R
  turnAngle : R

structure CornerFsm (R : Type) where
  pivot : PivotWatchdog R
  stopComplete : Bool := false
  settleActive : Bool := false
  settleSince : ℤ := 0
  state : FsmState := .tracking

namespace CornerFsm

def reset (c : CornerFsm R) : CornerFsm R :=
  { c with pivot := c.pivot.reset, stopComplete := false, settleActive := false, state := .tracking }

def carryStopComplete (c : CornerFsm R) : CornerFsm R := { c with stopComplete := true }

/-- The heading tolerance of the release, widened after a timeout and capped. -/
def releaseTol (p : StopPivotParams R) (timedOut : Bool) : R :=
  stdMin (if timedOut then stdMax p.headingTolerance p.timeoutHeadingTol else p.headingTolerance) p.releaseMax

/-- The release gates: heading, yaw rate and speed; without a fresh velocity the last two are the timeout. -/
def headingOk (p : StopPivotParams R) (i : CornerInput R) (timedOut : Bool) : Bool :=
  fabs i.headingErr ≤ releaseTol p timedOut

def yawRateOk (p : StopPivotParams R) (i : CornerInput R) (timedOut : Bool) : Bool :=
  if i.tel.velFresh then fabs i.tel.yawRate < p.stopYawRateThreshold else timedOut

def speedOk (p : StopPivotParams R) (i : CornerInput R) (timedOut : Bool) : Bool :=
  if i.tel.velFresh then i.tel.speed < p.alignSpeedThreshold else timedOut

/-- The pivot watchdog, asked only once the stop is confirmed. -/
def watch (c : CornerFsm R) (p : StopPivotParams R) (i : CornerInput R) : Bool × CornerFsm R :=
  let angle := if isfinite i.turnAngle then i.turnAngle else i.cornerDeg * (pi / lit 180)
  if c.stopComplete then
    let (out, pivot) := c.pivot.timedOut i.now angle p
    (out, { c with pivot })
  else (false, c)

/-- The settle timer of the release. -/
def settle (c : CornerFsm R) (p : StopPivotParams R) (i : CornerInput R) (timedOut : Bool) : Bool × CornerFsm R :=
  if c.stopComplete && headingOk p i timedOut && yawRateOk p i timedOut && speedOk p i timedOut then
    let c := if c.settleActive then c else { c with settleActive := true, settleSince := i.now }
    (decide (p.alignSettle ≤ nsToS (i.now - c.settleSince)), c)
  else (false, { c with settleActive := false })

/-- One call at a corner. The stop is confirmed at most once per corner: `stopComplete` remembers it. -/
def step (c : CornerFsm R) (stop : StopConfirm) (p : StopPivotParams R) (i : CornerInput R) :
    CornerOutput R × CornerFsm R × StopConfirm :=
  let out : CornerOutput R :=
    { action := .brake, state := .brake, brakeSpeed := lit 0, headingErr := i.headingErr, speedMemory := lit 0 }
  if i.cornerDeg < p.cornerThresholdDeg then
    ({ out with action := .advance, collinear := true, state := .advance }, c.reset, stop.reset)
  else
    let (timedOut, c) := c.watch p i
    let (settled, c) := c.settle p i timedOut
    if settled then
      ({ out with action := .advance, zeroSpeedMemory := true, state := .advance }, c.reset, stop.reset)
    else if c.stopComplete && headingOk p i timedOut then
      ({ out with
          action := .settleBrake, state := .releaseSettle, brakeSpeed := brakeSpeed i.tel p, zeroSpeedMemory := true },
        { c with state := .releaseSettle }, stop)
    else if c.stopComplete then
      ({ out with
          action := .pivot, state := .pivot, pivotTimedOut := timedOut, setSpeedMemory := true
          speedMemory := p.cornerSpeed },
        { c with state := .pivot }, stop)
    else match stop.satisfied i.now i.tel p with
      | (false, stop) =>
        ({ out with
            action := .brake, state := .brake, brakeSpeed := brakeSpeed i.tel p, zeroSpeedMemory := true
            confirmed := some false },
          { c with state := .brake }, stop)
      | (true, stop) =>
        ({ out with
            action := .pivot, state := .pivot, pivotTimedOut := timedOut, setSpeedMemory := true
            speedMemory := p.cornerSpeed, confirmed := some true },
          { c with stopComplete := true, state := .pivot }, stop)

theorem watch_stopComplete (c : CornerFsm R) (p : StopPivotParams R) (i : CornerInput R) :
    (c.watch p i).2.stopComplete = c.stopComplete := by
  simp only [watch]
  split <;> rfl

theorem settle_stopComplete (c : CornerFsm R) (p : StopPivotParams R) (i : CornerInput R) (timedOut : Bool) :
    (c.settle p i timedOut).2.stopComplete = c.stopComplete := by
  simp only [settle]
  split
  · split <;> rfl
  · rfl

/-- What a step does with the stop: passing the corner forgets it, a brake has none, settling needs it,
and a pivot had it before or was given it by this very step. -/
theorem step_cases (c : CornerFsm R) (stop : StopConfirm) (p : StopPivotParams R) (i : CornerInput R) :
    let r := c.step stop p i
    (r.1.action = .advance ∧ r.2.1.stopComplete = false) ∨
      (r.1.action = .brake ∧ r.2.1.stopComplete = false) ∨
      (r.1.action = .settleBrake ∧ c.stopComplete = true ∧ r.2.1.stopComplete = true) ∨
      (r.1.action = .pivot ∧ r.2.1.stopComplete = true ∧ (c.stopComplete = true ∨ r.1.confirmed = some true)) := by
  have kept : ((c.watch p i).2.settle p i (c.watch p i).1).2.stopComplete = c.stopComplete :=
    (settle_stopComplete _ p i _).trans (watch_stopComplete c p i)
  simp only [step]
  split
  · exact .inl ⟨rfl, rfl⟩
  · generalize (c.watch p i).2.settle p i (c.watch p i).1 = settled at kept ⊢
    split
    · exact .inl ⟨rfl, rfl⟩
    · split
      · rename_i ok
        have stopped := (Bool.and_eq_true_iff.mp ok).1
        exact .inr (.inr (.inl ⟨rfl, kept ▸ stopped, stopped⟩))
      · split
        · rename_i stopped
          exact .inr (.inr (.inr ⟨rfl, stopped, .inl (kept ▸ stopped)⟩))
        · rename_i moving
          split
          · exact .inr (.inl ⟨rfl, Bool.eq_false_iff.mpr moving⟩)
          · exact .inr (.inr (.inr ⟨rfl, rfl, .inr rfl⟩))

end CornerFsm

inductive HoldPhase where
  | idle | braking | stopped
  deriving DecidableEq

structure HoldOutput (R : Type) where
  phase : HoldPhase
  brakeSpeed : R
  stopped : Bool

/-- `StopHold::step`: brake to a confirmed stop. -/
def stopHold (stop : StopConfirm) (now : ℤ) (tel : StopTelemetry R) (p : StopPivotParams R) : HoldOutput R × StopConfirm :=
  match stop.satisfied now tel p with
  | (true, stop) => ({ phase := .stopped, brakeSpeed := lit 0, stopped := true }, stop)
  | (false, stop) => ({ phase := .braking, brakeSpeed := brakeSpeed tel p, stopped := false }, stop)

end Dyx3.RppCore
