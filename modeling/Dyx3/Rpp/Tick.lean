import Dyx3.Rpp.Holds

/-!
The control tick of `RppCore`: the gates in front of it, the goal test, the smooth and the segment
tracking laws. A stage that ends the tick gives `halt`; otherwise it hands its data to the next stage.
-/

namespace Dyx3.RppCore

open Lib Scalar

variable {R : Type} [Scalar R]

inductive Stage (R : Type) [Scalar R] (A : Type) where
  | halt (s : Core R)
  | go (s : Core R) (a : A)

namespace Core

def maxV (s : Core R) : R := stdMin s.params.maxLinearVel s.params.missionSpeed

def poseGapWorst (s : Core R) : R :=
  match s.gaps with
  | [] => lit 1 / lit 50
  | g :: gaps => stdMin (gaps.foldl stdMax g) (lit 0.3)

def jumpThreshold (s : Core R) (now : ℤ) : R :=
  let vMeas := if s.velIsFresh now then hypot s.velN s.velE else lit 0
  stdMax s.params.ekfJumpThreshold
    (stdMax s.maxV vMeas * stdMax s.poseGapWorst (lit 1 / lit 50) + lit 0.03)

/-- The pose moved on by the measured velocity, when extrapolation is on. -/
def extrapolated (s : Core R) (now : ℤ) (poseAge : R) : Pos R :=
  let velAge : R := nsToS (now - s.vel.ns)
  if s.params.useImuExtrapolation && s.vel.has && isfinite s.velN && isfinite s.velE &&
      decide (lit 0 ≤ velAge) && decide (velAge < s.params.imuMaxExtrapAge) then
    let dt := poseAge + stdMax (lit 0) s.params.poseLatencyBias
    ⟨s.pose.n + s.velN * dt, s.pose.e + s.velE * dt⟩
  else ⟨s.pose.n, s.pose.e⟩

/-- The position jump guard: skip the tick, or absorb the jump as an EKF reset. -/
def jumpGuard (s : Core R) (pos : Pos R) (now : ℤ) : Stage R Unit :=
  let dN := pos.n - s.lastPos.n
  let dE := pos.e - s.lastPos.e
  let jump := hypot dN dE
  if s.haveLastPos ∧ s.jumpThreshold now < jump then
    if s.params.ekfResetCompensation ∧ jump ≤ s.params.ekfResetMaxAbsorb then
      .go { s with
            ekfOff := ⟨s.ekfOff.n + dN, s.ekfOff.e + dE⟩, ekfResetCount := s.ekfResetCount + 1
            lastPos := pos, haveLastPos := true } ()
    else .halt ({ s with lastPos := pos, haveLastPos := true, hint := ⟨0, false⟩ }.publishZero .jumpSkip)
  else .go { s with lastPos := pos, haveLastPos := true } ()

/-- From the top of the tick to the position it works with. -/
def frontEnd (s : Core R) (now : ℤ) : Stage R (Fix R) :=
  let poseAge : R := nsToS (now - s.poseRecv)
  let maxAge := s.params.poseMaxAge + (if s.params.useImuExtrapolation then s.params.imuMaxExtrapAge else lit 0)
  if !s.havePose then .halt (s.publishZero .idle)
  else if !isfinite poseAge || poseAge < lit 0 || maxAge < poseAge then .halt (s.publishZero .stale)
  else
    let pos := s.extrapolated now poseAge
    let (s, ok, reason) :=
      if s.params.requireRtkFix then s.rtkGate now
      else ({ s with rtkRecoverSince := { s.rtkRecoverSince with has := false } }, true, .ok)
    let s := { s with out := { s.out with rtkReason := reason } }
    if !ok then .halt (s.publishZero .rtkWait)
    else if s.path.isEmpty then .halt (s.publishZero .idle)
    else if s.pathDone then .halt (s.publishZero .done)
    else match s.jumpGuard pos now with
      | .halt s => .halt s
      | .go s _ => .go s { pos := ⟨pos.n - s.ekfOff.n, pos.e - s.ekfOff.e⟩, yaw := s.pose.yawNed }

/-- The projection of the smooth profile; a run without one gets no guidance. -/
def projectSmooth (s : Core R) (fix : Fix R) : Stage R (PathProjection R) :=
  if s.profileSegment then
    .go s { segIdx := 0, t := lit 0, foot := ⟨lit 0, lit 0⟩, signedCross := lit 0 }
  else
    let (proj, hint) := projectOntoPath fix.pos s.path s.hint
    if !proj.valid then .halt ({ s with hint := ⟨0, false⟩ }.publishZero .idle)
    else .go ({ s with hint }.updatePathProgress proj.segIdx proj.t) proj

/-- The goal test with the holds before it. -/
def goalCheck (s : Core R) (fix : Fix R) (now : ℤ) : Stage R Unit :=
  let travelled := decide (s.runMinTravel ≤ s.pathTravel)
  if s.params.pointHoldEnabled then .halt (s.handOff .pointHold)
  else if s.runBoundaryStopPending then .halt (s.holdBeforeRunAdvance fix now)
  else if s.completionStopPending then .halt (s.holdAtCompletion fix now)
  else
    let (s, precise) :=
      if s.profileSegment && decide (s.runs.length ≤ s.runIdx + 1) && travelled then s.preciseStopTick fix now
      else (s, false)
    if precise then .halt s
    else if travelled && (decide (distance fix.pos s.path.last ≤ s.goalTolEff) || s.captureRecovered fix.pos) then
      .halt (if s.runIdx + 1 < s.runs.length then s.holdBeforeRunAdvance fix now else s.holdAtCompletion fix now)
    else .go s ()

def lookaheadParams (s : Core R) : LookaheadParams R :=
  { minV := s.params.minLinearVel, maxV := s.maxV, lMin := s.params.minLookaheadDist
    lMax := s.params.maxLookaheadDist, ldGain := s.params.lookaheadTime, xtLdGain := s.params.xtrackLookaheadGain }

/-- What a tracking law decides: the speed, the velocity vector and the yaw rate. -/
structure Drive (R : Type) where
  speed : R
  v : Pos R
  yawRate : R
  state : StateCode
  kappaHardLatched : Bool
  stopLatched : Bool
  segmentState : SegState

def kMaxPreviewN : ℕ := 64

/-- How many curvature previews the smooth profile takes. -/
def previewCount (s : Core R) (lD : R) : ℕ :=
  let dist := s.params.previewCurvatureDistance
  let n := s.params.previewCurvatureN
  let n :=
    if lit 0 < dist ∧ lit 1e-9 < lD then max n (toInt (stdMin (ceil (dist / lD)) (ofInt kMaxPreviewN))).toNat else n
  min n kMaxPreviewN

/-- The smooth tracking law; `none` when the aim point lands on the rover. -/
def smoothDrive (s : Core R) (fix : Fix R) (proj : PathProjection R) : Option (Drive R) :=
  let p := s.params
  let path := s.path
  let lD := lookaheadDistance s.lookaheadParams s.lastSpeedCmd proj.signedCross
  let lD :=
    applyArcCap lD (curvatureAt path proj.segIdx p.curvatureBaseline)
      ⟨p.smoothMaxArcCut, p.smoothMinArcLd, p.smoothCurvatureLdCoeff⟩
  let aimAt (l : R) : Pos R × Steering R :=
    let lh := (smoothLookaheadPoint path proj.segIdx proj.foot l).1
    let d : Pos R := ⟨lh.n - fix.pos.n, lh.e - fix.pos.e⟩
    (d, steeringGeometry d.n d.e fix.yaw)
  let (d, st) := if (aimAt lD).2.degenerate then aimAt p.minLookaheadDist else aimAt lD
  if st.degenerate then none
  else
    let n := s.previewCount lD
    let kappaSpeed := if 1 < n then maxPreviewCurvature path proj.segIdx proj.foot lD n else fabs st.kappa
    let speed := lateralSpeedLimit kappaSpeed p.aLatMax p.regulatedLinearScalingMinSpeed s.maxV
    let approachD := approachDistance p.approachVelocityScalingDist s.maxV p.maxLinearDecel
    let closed := (s.run.map ConditionedRun.closed).getD false
    let length := (s.run.map ConditionedRun.length).getD (lit 0)
    let (raw, approach) :=
      smoothApproachScaling speed closed length s.pathTravel (distance fix.pos path.last) approachD
        p.minApproachLinearVelocity
    let kappaNow := stdMax (fabs st.kappa) (fabs kappaSpeed)
    let scale :=
      alignmentAccelScale st.thetaE kappaNow p.accelGateHeadingFullDeg p.accelGateHeadingNoneDeg p.accelGateCurvFull
        p.accelGateCurvNone
    let latched := updateKappaHardLatch s.kappaHardLatched kappaNow p.kappaHardEnter p.kappaHardExit
    let speed :=
      applySmoothSpeedSlew raw s.lastSpeedCmd s.tickDt latched p.speedCmdDecel p.maxLinearAccel scale approach
        p.p4ZeroVelThreshold
    let speed := applyP4Floor speed raw s.lastSpeedCmd p.p4ZeroVelThreshold
    let yawRate :=
      if p.useFeedforwardYawRate then
        let rate := st.kappa * speed + p.yawRateFeedbackGain * st.thetaE
        if lit 0 < p.maxYawRateBody then clampd rate (-p.maxYawRateBody) p.maxYawRateBody else rate
      else lit 0
    let unit : Pos R := if lit 1e-9 < st.lActual then ⟨d.n / st.lActual, d.e / st.lActual⟩ else ⟨lit 0, lit 0⟩
    let v : Pos R := ⟨speed * unit.n, speed * unit.e⟩
    let v : Pos R :=
      if lit 0 < p.smoothLateralGain ∧ lit 1e-6 < speed then
        let maxCorr := p.smoothLateralMaxDeg * (pi / lit 180)
        let bearing := atan2 v.e v.n + clampd (-p.smoothLateralGain * proj.signedCross) (-maxCorr) maxCorr
        ⟨speed * cos bearing, speed * sin bearing⟩
      else v
    some
      { speed, v := clampToForwardCone v fix.yaw speed, yawRate, state := if approach then .approach else .tracking
        kappaHardLatched := latched, stopLatched := s.stopLatched, segmentState := s.segmentState }

/-- The command of a tracking law. -/
def drive (s : Core R) (d : Drive R) (signedXtrack : R) : Core R :=
  let yawCmd := if lit 0.01 < hypot d.v.n d.v.e then atan2 d.v.e d.v.n else s.lastYawCmd
  let s :=
    { s with
      lastSpeedCmd := d.speed, kappaHardLatched := d.kappaHardLatched, stopLatched := d.stopLatched
      segmentState := d.segmentState, lastYawCmd := yawCmd, out := { s.out with trackHeadingNed := yawCmd } }
  ((s.publishVelocity d.v.n d.v.e).publishYawRate d.yawRate).publishDebug d.state signedXtrack

def controlSmooth (s : Core R) (fix : Fix R) (proj : PathProjection R) : Core R :=
  match s.smoothDrive fix proj with
  | none => s.publishZero .idle
  | some d => s.drive d proj.signedCross

/-- The segment drive law at leg `a`–`b`; `none` when the aim point lands on the rover. -/
def segmentDrive (s : Core R) (fix : Fix R) (sp : SegmentProjection R) (b : Pos R) (finalSegment : Bool) (now : ℤ) :
    Option (Drive R) :=
  let p := s.params
  let lD := lookaheadDistance s.lookaheadParams s.lastSpeedCmd sp.signedCross
  let lh :=
    segmentLookaheadPoint s.path s.segmentIdx sp.foot lD p.segmentLookaheadCrossCollinearDeg
      p.segmentEndpointLookaheadExtend p.segmentCornerLookaheadExtend
  let aim (q : Pos R) : Pos R × Steering R :=
    let d : Pos R := ⟨q.n - fix.pos.n, q.e - fix.pos.e⟩
    (d, steeringGeometry d.n d.e fix.yaw)
  let (d, st) := if (aim lh).2.degenerate then aim b else aim lh
  if st.degenerate then none
  else
    let distToCorner := distance fix.pos b
    let cornerAngle := segmentAngleDeg s.path s.segmentIdx
    let slow :=
      !finalSegment && decide (lit 1e-6 < p.segmentSlowdownDist) && decide (distToCorner < p.segmentSlowdownDist) &&
        isfinite cornerAngle && decide (p.segmentCornerThresholdDeg ≤ fabs cornerAngle)
    let speed :=
      if slow then
        stdMax p.segmentMinCornerSpeed (s.maxV * clampd (distToCorner / p.segmentSlowdownDist) (lit 0) (lit 1))
      else s.maxV
    let approachD := approachDistance p.approachVelocityScalingDist s.maxV p.maxLinearDecel
    let ref := if finalSegment then distToCorner else infinity
    let ref :=
      match if p.endpointApproachRunRemaining then s.runRemainingAlong else none with
      | some remaining => stdMin ref remaining
      | none => ref
    let approach := decide (ref < approachD)
    let speed :=
      if approach then
        let speed := stdMin speed (stdMax p.segmentEndpointApproachSpeed (s.maxV * clampd (ref / approachD) (lit 0) (lit 1)))
        if lit 0 < p.transitRunoutMinSpeed ∧ lit 0 < s.runTailTransit ∧ lit 0 < speed ∧ speed < p.transitRunoutMinSpeed ∧
            s.goalTolEff < distToCorner then p.transitRunoutMinSpeed
        else speed
      else speed
    let segmentState : SegState := if slow || approach then .preCornerSlowdown else .trackSegment
    let target := speed
    let speed :=
      if lit 0 < p.maxLinearAccel ∧ s.lastSpeedCmd < speed then
        let scale :=
          alignmentAccelScale st.thetaE (lit 0) p.accelGateHeadingFullDeg p.accelGateHeadingNoneDeg p.accelGateCurvFull
            p.accelGateCurvNone
        stdMin speed (s.lastSpeedCmd + p.maxLinearAccel * scale * s.tickDt)
      else speed
    let speed := applyP4Floor speed target s.lastSpeedCmd p.p4ZeroVelThreshold
    let latchRef := if finalSegment || segmentState = .preCornerSlowdown then distToCorner else infinity
    let (speed, stopLatched) := s.stopLatchFilter speed latchRef now
    let rate :=
      if p.useFeedforwardYawRate || p.segmentCommandMode = .rate then p.segmentYawRateGain * st.thetaE else lit 0
    let yawRate := if lit 0 < p.maxYawRateBody then clampd rate (-p.maxYawRateBody) p.maxYawRateBody else rate
    let v : Pos R := ⟨speed * (d.n / st.lActual), speed * (d.e / st.lActual)⟩
    some
      { speed, v := clampToForwardCone v fix.yaw speed, yawRate, state := .tracking
        kappaHardLatched := s.kappaHardLatched, stopLatched, segmentState }

/-- Past the coincident vertices, up to the last segment; `left` vertices may still be passed. -/
def skipCoincident (path : Path R) : ℕ → ℕ → ℕ
  | 0, i => i
  | left + 1, i => if lit 1e-6 ≤ distance (path.at i) (path.at (i + 1)) then i else skipCoincident path left (i + 1)

/-- The segment the pass works on. -/
def currentSegment (path : Path R) (i : ℕ) : ℕ :=
  min (skipCoincident path (path.length - 2 - i) i) (path.length - 2)

/-- Whether the position is inside the acceptance radius of the vertex after segment `i`. -/
def inAcceptance (s : Core R) (pos : Pos R) (i : ℕ) : Bool :=
  distance pos (s.path.at (i + 1)) ≤ s.params.segmentCornerAcceptanceRadius

/-- The corner block at the end of the current segment; `go` when the corner is passed. -/
def cornerBlock (s : Core R) (fix : Fix R) (signedXtrack : R) (now : ℤ) : Stage R Unit :=
  let i := s.segmentIdx
  let b := s.path.at (i + 1)
  let c := s.path.at (i + 2)
  let target :=
    pivotInterceptHeading fix.pos b c (segmentHeading b c) s.params.pivotToInterceptEnabled s.params.pivotInterceptDist
  let headingErr := angleWrap (target - fix.yaw)
  let tel := s.telemetry now fix.yaw
  let (co, s) := s.stepCorner (.corner s.runIdx i)
    { now, headingErr, cornerDeg := fabs (segmentAngleDeg s.path i), tel, turnAngle := nan }
  match co.action with
  | .advance =>
    .go { s with
          segmentIdx := s.segmentIdx + 1, segmentState := .trackSegment
          lastSpeedCmd := if co.zeroSpeedMemory then lit 0 else s.lastSpeedCmd } ()
  | .settleBrake => .halt (({ s with lastSpeedCmd := lit 0 }.publishBrake fix.yaw tel).publishDebug .tracking signedXtrack)
  | .brake =>
    .halt (({ s with segmentState := .cornerStop, lastSpeedCmd := lit 0 }.publishBrake fix.yaw tel).publishDebug .tracking
      signedXtrack)
  | .pivot =>
    .halt (({ s with segmentState := .cornerAlign }.publishPivot fix.yaw headingErr co.pivotTimedOut).publishDebug .tracking
      signedXtrack)

/-- The end of the last segment: the precise stop, then the goal test of the segment. -/
def segmentEnd (s : Core R) (fix : Fix R) (now : ℤ) : Stage R Unit :=
  if s.runMinTravel ≤ s.pathTravel then
    let (s, precise) := s.preciseStopTick fix now
    if precise then .halt s
    else if distance fix.pos (s.path.at (s.segmentIdx + 1)) ≤ s.goalTolEff ∨ s.captureRecovered fix.pos then
      .halt (if s.runIdx + 1 < s.runs.length then s.holdBeforeRunAdvance fix now else s.holdAtCompletion fix now)
    else .go s ()
  else .go s ()

/-- The pass on the current segment: its end, the corner after it, or the drive along it. -/
def onSegment (s : Core R) (fix : Fix R) (now : ℤ) : Stage R Unit :=
  let i := s.segmentIdx
  let a := s.path.at i
  let b := s.path.at (i + 1)
  let final := decide (s.path.length - 2 ≤ i)
  let sp := projectOntoSegment fix.pos s.path i
  if distance a b < lit 1e-6 then .halt (s.publishZero .idle)
  else if !sp.valid then .halt (s.publishZero .idle)
  else
    let s := s.updatePathProgress i sp.t
    match if final then s.segmentEnd fix now else .go s () with
    | .halt s => .halt s
    | .go s _ =>
      if !final && s.inAcceptance fix.pos i then s.cornerBlock fix sp.signedCross now
      else match s.segmentDrive fix sp b final now with
        | none => .halt (s.publishZero .idle)
        | some d => .halt (s.drive d sp.signedCross)

/-- One pass of the loop of `control_segment`; `go` when a corner was passed. -/
def segmentPass (s : Core R) (fix : Fix R) (now : ℤ) : Stage R Unit :=
  if s.path.length < 2 then
    let (s, advanced) := s.advanceRun false
    .halt (if advanced then { s with out := { s.out with velocityPublished := false } }
      else { s with segmentState := .done, pathDone := true }.publishZero .done)
  else { s with segmentIdx := currentSegment s.path s.segmentIdx }.onSegment fix now

/-- The loop of `control_segment` with `passes` passes left. -/
def segmentLoop (fix : Fix R) (now : ℤ) : ℕ → Core R → Core R
  | 0, s => s
  | passes + 1, s =>
    match s.segmentPass fix now with
    | .halt s => s
    | .go s _ => segmentLoop fix now passes s

theorem note_progress (s : Core R) (place : StopPlace) (answer : Option Bool) :
    (s.note place answer).segmentIdx = s.segmentIdx ∧ (s.note place answer).run = s.run := by
  cases answer <;> exact ⟨rfl, rfl⟩

theorem cornerBlock_go {s t : Core R} {fix : Fix R} {x : R} {now : ℤ} (passed : s.cornerBlock fix x now = .go t ()) :
    t.segmentIdx = s.segmentIdx + 1 ∧ t.run = s.run := by
  simp only [cornerBlock, stepCorner] at passed
  split at passed
  · injection passed with same
    rw [← same]
    exact ⟨congrArg (· + 1) (note_progress _ _ _).1, (note_progress _ _ _).2⟩
  all_goals cases passed

theorem skipCoincident_ge (path : Path R) (left i : ℕ) : i ≤ skipCoincident path left i := by
  induction left generalizing i with
  | zero => exact le_rfl
  | succ left ih =>
    rw [skipCoincident]
    split
    · exact le_rfl
    · exact (Nat.le_succ i).trans (ih (i + 1))

theorem updatePathProgress_keeps (s : Core R) (i : ℕ) (t : R) :
    (s.updatePathProgress i t).segmentIdx = s.segmentIdx ∧ (s.updatePathProgress i t).run = s.run := by
  rw [updatePathProgress]
  split <;> exact ⟨rfl, rfl⟩

/-- A pass that goes on has passed a corner before the last segment. -/
theorem onSegment_go {s t : Core R} {fix : Fix R} {now : ℤ} (passed : s.onSegment fix now = .go t ()) :
    t.segmentIdx = s.segmentIdx + 1 ∧ t.run = s.run ∧ s.segmentIdx + 2 < s.path.length := by
  simp only [onSegment] at passed
  split at passed
  · cases passed
  split at passed
  · cases passed
  obtain ⟨index, same⟩ :=
    updatePathProgress_keeps s s.segmentIdx (projectOntoSegment fix.pos s.path s.segmentIdx).t
  generalize s.updatePathProgress s.segmentIdx (projectOntoSegment fix.pos s.path s.segmentIdx).t = u
    at index same passed
  by_cases final : s.path.length - 2 ≤ s.segmentIdx
  · rw [decide_eq_true final] at passed
    simp only [if_true, Bool.not_true, Bool.false_and] at passed
    split at passed
    · cases passed
    · rw [if_neg (by decide)] at passed
      split at passed <;> cases passed
  · rw [decide_eq_false final, if_neg (by decide)] at passed
    dsimp only at passed
    split at passed
    · obtain ⟨next, still⟩ := cornerBlock_go passed
      exact ⟨next.trans (by rw [index]), still.trans same, by omega⟩
    · split at passed <;> cases passed

theorem segmentPass_go {s t : Core R} {fix : Fix R} {now : ℤ} (passed : s.segmentPass fix now = .go t ()) :
    s.segmentIdx < t.segmentIdx ∧ t.segmentIdx + 1 < s.path.length ∧ t.path = s.path := by
  simp only [segmentPass] at passed
  split at passed
  · cases passed
  · obtain ⟨next, same, inside⟩ := onSegment_go passed
    have ahead := skipCoincident_ge s.path (s.path.length - 2 - s.segmentIdx) s.segmentIdx
    dsimp only at next inside
    have samePath : t.path = s.path := congrArg (fun run => (run.map ConditionedRun.pts).getD []) same
    have range : currentSegment s.path s.segmentIdx + 2 < s.path.length := inside
    refine ⟨?_, by omega, samePath⟩
    rw [next, currentSegment]
    rw [currentSegment] at range
    omega

/-- `max 1 (n - 1)` passes are always enough: more of them change nothing. -/
theorem segmentLoop_enough (fix : Fix R) (now : ℤ) (passes : ℕ) (s : Core R) (one : 1 ≤ passes)
    (enough : s.path.length - 1 - s.segmentIdx ≤ passes) :
    segmentLoop fix now (passes + 1) s = segmentLoop fix now passes s := by
  induction passes generalizing s with
  | zero => omega
  | succ passes ih =>
    rw [segmentLoop]
    conv_rhs => rw [segmentLoop]
    cases passed : s.segmentPass fix now with
    | halt t => rfl
    | go t _ =>
      obtain ⟨further, inside, same⟩ := segmentPass_go passed
      exact ih t (by omega) (by rw [same]; omega)

def controlSegment (s : Core R) (fix : Fix R) (now : ℤ) : Core R :=
  segmentLoop fix now (max 1 (s.path.length - 1)) s

/-- Everything before the tracking laws. -/
def beforeTracking (s : Core R) (now : ℤ) : Stage R (Fix R × PathProjection R) :=
  match s.frontEnd now with
  | .halt s => .halt s
  | .go s fix =>
    let (s, held) := s.runAlignmentHold fix now
    if held then .halt s
    else match s.projectSmooth fix with
      | .halt s => .halt s
      | .go s proj => match s.goalCheck fix now with
        | .halt s => .halt s
        | .go s _ => .go s (fix, proj)

def controlLoopImpl (s : Core R) (now : ℤ) : Core R :=
  match s.beforeTracking now with
  | .halt s => s
  | .go s (fix, proj) => if s.profileSegment then s.controlSegment fix now else s.controlSmooth fix proj

/-- The top of the tick: a fresh output and the tick period. -/
def beginTick (s : Core R) (now : ℤ) : Core R :=
  { s with
    out := {}
    tickDt :=
      if s.haveLastTick then stdMax (lit 0) (stdMin (lit 0.1) (nsToS (now - s.lastTick))) else lit 1 / lit 50
    lastTick := now
    haveLastTick := true }

def tick (s : Core R) (now : ℤ) : Core R :=
  let s := (s.beginTick now).controlLoopImpl now
  { s with out := { s.out with yawNed := s.pose.yawNed } }

def pause (s : Core R) : Core R :=
  let s := { s with lastSpeedCmd := lit 0, kappaHardLatched := false }.resetCornerPivotState
  { s with
    haveLastPos := false
    haveLastTick := false
    hint := match s.run with
      | some run => if run.closed then s.hint else ⟨0, false⟩
      | none => s.hint
    segmentEndpointStopActive := false
    endpointStopStarted := false
    endpointBrakeHold := false
    stopLatched := false }

end Core

end Dyx3.RppCore
