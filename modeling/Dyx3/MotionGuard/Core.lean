import Dyx3.Lib.Flt
import Dyx3.Lib.Run

/-!
`GuardCore` (dyx3_motion_guard): the command contract of `MotionSetpoint`, the safety gates in their order, the
hard envelopes with the test-only shaper behind them, the actuator stall detector and the sequence rule.
Sequence numbers are `uint64` in the source and only compared.
-/

namespace Dyx3.MotionGuard

open Lib

inductive Mode where
  | stop | trackHeading | trackRate | pivot | creep
  deriving DecidableEq, Repr

inductive Reason where
  | ok | invalidMessage | stale | sequence | missionGate | estop | rtkGate | limitClamped | px4LinkUnhealthy
  | headingUnhealthy | operatorLinkLost | armingGate | estimatorUnhealthy | globalReferenceInvalid | actuatorStall
  deriving DecidableEq, Repr

structure Motion where
  mode : Mode := .stop
  speedBodyX : Flt := .fin 0
  yawSetpoint : Flt := .nan
  yawRateSetpoint : Flt := .fin 0
  deriving DecidableEq

def canonicalStop : Motion := {}

structure Command where
  seq : Nat := 0
  mode : Nat := 0
  speedBodyX : Flt := .fin 0
  yawSetpoint : Flt := .fin 0
  yawRateSetpoint : Flt := .fin 0
  valid : Bool := false
  sourcePoseSampleNs : Int := 0
  deriving DecidableEq

/-- The mode a wire value names, if it names one. -/
def Mode.ofWire : Nat → Option Mode
  | 0 => some .stop
  | 1 => some .trackHeading
  | 2 => some .trackRate
  | 3 => some .pivot
  | 4 => some .creep
  | _ => none

def usesRate (m : Mode) : Bool := m = .trackRate ∨ m = .pivot ∨ m = .creep

def commandIsValid (c : Command) : Bool :=
  let sp := c.speedBodyX.isFinite
  let yf := c.yawSetpoint.isFinite
  let yn := c.yawSetpoint.isNan
  let rf := c.yawRateSetpoint.isFinite
  let rn := c.yawRateSetpoint.isNan
  c.valid && match Mode.ofWire c.mode with
    | none => false
    | some .stop => true
    | some .trackHeading => sp && yf && rn
    | some .trackRate | some .creep => sp && rf && yn
    | some .pivot => sp && c.speedBodyX.same (.fin 0) && rf && yn

/-! ### Gates -/

structure RtkIn where
  fresh : Bool := false
  fixType : Nat := 0
  correctionsFresh : Bool := false
  horizontalAccuracy : Flt := .fin 0
  deriving DecidableEq

structure RtkConfig where
  minFixType : Nat := 6
  maxHrms : Flt := .fin (1 / 10)

def rtkOk (r : RtkIn) (c : RtkConfig) : Bool :=
  let a := r.horizontalAccuracy
  r.fresh && r.correctionsFresh && (r.fixType = 5 ∨ r.fixType = 6) && c.minFixType ≤ r.fixType &&
    a.isFinite && !(a ≤ .fin 0) && !(decide (.fin 0 < c.maxHrms) && decide (c.maxHrms < a))

structure MissionIn where
  fresh : Bool := false
  state : Nat := 0
  deriving DecidableEq

structure Px4LinkIn where
  fresh : Bool := false
  sessionAlive : Bool := false
  handshakeOk : Bool := false
  staleTopicsMask : Nat := 0xFFFFFFFF
  deriving DecidableEq

structure VehicleIn where
  fresh : Bool := false
  armingState : Nat := 0
  navState : Nat := 0
  failsafe : Bool := false
  positionValid : Bool := false
  velocityValid : Bool := false
  attitudeValid : Bool := false
  globalReferenceValid : Bool := false
  preflightChecksPass : Bool := false
  rcLinkValid : Bool := false
  rcLinkOk : Bool := false
  measuredSpeed : Flt := .fin 0
  measuredYawRate : Flt := .fin 0
  deriving DecidableEq

structure EstimatorIn where
  fresh : Bool := false
  flagsValid : Bool := false
  gnssYawFusionIntended : Bool := false
  gnssYawFault : Bool := true
  rejectYaw : Bool := true
  rejectHorPos : Bool := true
  rejectHorVel : Bool := true
  inertialDeadReckoning : Bool := true
  deriving DecidableEq

structure GateInputs where
  estop : Bool := false
  link : Px4LinkIn := {}
  vehicle : VehicleIn := {}
  rtk : RtkIn := {}
  est : EstimatorIn := {}
  mission : MissionIn := {}
  deriving DecidableEq

structure GateConfig where
  rtk : RtkConfig := {}
  requireGnssYawFusion : Bool := true
  requireRcLink : Bool := false

def armed : Nat := 2
def offboard : Nat := 14
def missionStateRunning : Nat := 3

def linkHealthy (l : Px4LinkIn) : Bool := l.fresh && l.sessionAlive && l.handshakeOk && l.staleTopicsMask = 0

def vehicleRefused (v : VehicleIn) (cfg : GateConfig) (preArm : Bool) : Bool :=
  let preflightRefused := preArm && v.navState ≠ offboard && !v.preflightChecksPass
  let rcRefused := preArm && cfg.requireRcLink && !(v.rcLinkValid && v.rcLinkOk)
  let notEngaged := !preArm && (v.armingState ≠ armed ∨ v.navState ≠ offboard)
  !v.fresh || v.failsafe || preflightRefused || rcRefused || notEngaged

def headingHealthy (e : EstimatorIn) (v : VehicleIn) (cfg : GateConfig) : Bool :=
  e.fresh && e.flagsValid && !e.gnssYawFault && !e.rejectYaw &&
    !(cfg.requireGnssYawFusion && !e.gnssYawFusionIntended) && v.attitudeValid

def estimatorHealthy (e : EstimatorIn) (v : VehicleIn) : Bool :=
  v.positionValid && v.velocityValid && !e.inertialDeadReckoning && !e.rejectHorPos && !e.rejectHorVel

def firstFailing (g : GateInputs) (cfg : GateConfig) (preArm : Bool) : Reason :=
  if g.estop then .estop
  else if !linkHealthy g.link then .px4LinkUnhealthy
  else if vehicleRefused g.vehicle cfg preArm then .armingGate
  else if !rtkOk g.rtk cfg.rtk then .rtkGate
  else if !headingHealthy g.est g.vehicle cfg then .headingUnhealthy
  else if !estimatorHealthy g.est g.vehicle then .estimatorUnhealthy
  else .ok

def firstFailingSafetyGate (g : GateInputs) (cfg : GateConfig) : Reason := firstFailing g cfg false

def firstFailingPreArmGate (g : GateInputs) (cfg : GateConfig) : Reason :=
  match firstFailing g cfg true with
  | .ok => if g.vehicle.globalReferenceValid then .ok else .globalReferenceInvalid
  | r => r

def missionRunning (m : MissionIn) : Bool := m.fresh && m.state = missionStateRunning

/-! ### Limits -/

structure Limits where
  maxForwardSpeed : Flt := .fin 1
  maxReverseSpeed : Flt := .fin (1 / 10)
  maxYawRate : Flt := .fin (9 / 20)
  profileShapingTestMode : Bool := false
  maxAccel : Flt := .fin (1 / 5)
  maxDecel : Flt := .fin (1 / 2)
  maxYawAccel : Flt := .nan
  maxJerk : Flt := .nan

def limitsValid (l : Limits) : Bool :=
  let pos (v : Flt) : Bool := v.isFinite && .fin 0 < v
  let opt (v : Flt) : Bool := v.isNan || pos v
  pos l.maxForwardSpeed && l.maxReverseSpeed.isFinite && .fin 0 ≤ l.maxReverseSpeed && pos l.maxYawRate &&
    pos l.maxAccel && pos l.maxDecel && opt l.maxYawAccel && opt l.maxJerk

structure LimitState where
  lastSpeed : Flt := .fin 0
  lastAccel : Flt := .fin 0
  lastRate : Flt := .fin 0
  deriving DecidableEq

structure Limited where
  motion : Motion
  clamped : Bool := false

/-- `step_toward` from a speed that is not negative. -/
def stepFrom (v target dt accel decel : Flt) : Flt :=
  if v.same (.fin 0) then
    if .fin 0 < target then .min target (accel * dt)
    else if target < .fin 0 then .max target (-accel * dt)
    else .fin 0
  else if v ≤ target then .min target (v + accel * dt)
  else if .fin 0 ≤ target then .max target (v - decel * dt)
  else
    let t0 := v / decel
    if dt ≤ t0 then v - decel * dt else .max target (-accel * (dt - t0))

def stepToward (v target dt accel decel : Flt) : Flt :=
  if v < .fin 0 then -stepFrom (-v) (-target) dt accel decel else stepFrom v target dt accel decel

/-- Both comparisons of a hard envelope, the upper one first; true when the value was changed. -/
def envelope (v lo hi : Flt) : Flt × Bool :=
  let (v, high) := if hi < v then (hi, true) else (v, false)
  let (v, low) := if v < lo then (lo, true) else (v, false)
  (v, high || low)

/-- The speed ramp of the test-only shaper. -/
def shapeSpeed (mode : Mode) (v dt : Flt) (lim : Limits) (st : LimitState) : Flt × Bool × LimitState :=
  if mode = .pivot then (.fin 0, false, { st with lastSpeed := .fin 0, lastAccel := .fin 0 })
  else
    let nv := stepToward st.lastSpeed v dt lim.maxAccel lim.maxDecel
    let nv :=
      if !lim.maxJerk.isNan && .fin 0 < dt then
        let want := (nv - st.lastSpeed) / dt
        let da := lim.maxJerk * dt
        st.lastSpeed + Flt.clamp want (st.lastAccel - da) (st.lastAccel + da) * dt
      else nv
    (nv, .fin (1 / 10 ^ 9) < (nv - v).abs,
      { st with lastAccel := if .fin 0 < dt then (nv - st.lastSpeed) / dt else .fin 0, lastSpeed := nv })

/-- The yaw-rate change limit of the test-only shaper. -/
def shapeRate (mode : Mode) (r dt : Flt) (lim : Limits) (st : LimitState) : Flt × Bool × LimitState :=
  if usesRate mode then
    let (r, changed) :=
      if !lim.maxYawAccel.isNan then
        let step := lim.maxYawAccel * dt
        let nr := Flt.clamp r (st.lastRate - step) (st.lastRate + step)
        (nr, decide (.fin (1 / 10 ^ 9) < (nr - r).abs))
      else (r, false)
    (r, changed, { st with lastRate := r })
  else (r, false, { st with lastRate := .fin 0 })

def applyLimits (m : Motion) (dt : Flt) (lim : Limits) (st : LimitState) : Limited × LimitState :=
  if m.mode = .stop then (⟨canonicalStop, false⟩, {})
  else
    let (v, fast) := envelope m.speedBodyX (-lim.maxReverseSpeed) lim.maxForwardSpeed
    let (r, quick) :=
      if usesRate m.mode then envelope m.yawRateSetpoint (-lim.maxYawRate) lim.maxYawRate
      else (m.yawRateSetpoint, false)
    if !lim.profileShapingTestMode then
      (⟨{ m with speedBodyX := v, yawRateSetpoint := if usesRate m.mode then r else m.yawRateSetpoint },
        fast || quick⟩, {})
    else
      let (v, ramped, st) := shapeSpeed m.mode v dt lim st
      let (r, bent, st) := shapeRate m.mode r dt lim st
      (⟨{ m with speedBodyX := v, yawRateSetpoint := if usesRate m.mode then r else m.yawRateSetpoint },
        fast || quick || ramped || bent⟩, st)

/-! ### Actuator plausibility -/

structure PlausibilityConfig where
  enabled : Bool := true
  demandYawRate : Flt := .fin (2 / 5)
  demandSpeed : Flt := .fin (1 / 10)
  stillYawRate : Flt := .fin (1 / 20)
  stillSpeed : Flt := .fin (1 / 50)
  stallTime : ℚ := 1

def demandsMotion (m : Motion) (c : PlausibilityConfig) : Bool :=
  m.mode ≠ .stop &&
    ((usesRate m.mode && m.yawRateSetpoint.isFinite && c.demandYawRate ≤ m.yawRateSetpoint.abs) ||
      (m.speedBodyX.isFinite && c.demandSpeed ≤ m.speedBodyX.abs))

def measurementUsable (v : VehicleIn) : Bool :=
  v.fresh && v.velocityValid && v.attitudeValid && v.measuredSpeed.isFinite && v.measuredYawRate.isFinite

def measuredStill (v : VehicleIn) (c : PlausibilityConfig) : Bool :=
  v.measuredSpeed < c.stillSpeed && v.measuredYawRate.abs < c.stillYawRate

structure StallDetector where
  timing : Bool := false
  since : ℚ := 0
  latched : Bool := false
  deriving DecidableEq

namespace StallDetector

def interrupt (s : StallDetector) : StallDetector := { s with timing := false }

def clear (s : StallDetector) : StallDetector := { s with timing := false, latched := false }

def update (s : StallDetector) (demand : Motion) (v : VehicleIn) (now : ℚ) (c : PlausibilityConfig) :
    StallDetector × Bool :=
  if !c.enabled || !demandsMotion demand c then (s.clear, false)
  else if s.latched then (s, true)  -- the demand still holds: STOP is held
  else if !measurementUsable v || !measuredStill v c then ({ s with timing := false }, false)
  else
    let s := if s.timing then s else { s with timing := true, since := now }
    let s := if c.stallTime < now - s.since then { s with latched := true, timing := false } else s
    (s, s.latched)

end StallDetector

/-! ### Sequence rule and decision -/

structure SequenceTracker where
  accept : Nat
  have_ : Bool := false
  last : Nat := 0
  count : Nat := 0
  lastNew : ℚ := 0
  deriving DecidableEq

namespace SequenceTracker

/-- True if the command is new, false for a duplicate. -/
def onCommand (t : SequenceTracker) (seq : Nat) (now : ℚ) : SequenceTracker × Bool :=
  if !t.have_ then ({ t with have_ := true, last := seq, count := 1, lastNew := now }, true)
  else if seq < t.last then ({ t with last := seq, count := 1, lastNew := now }, true)  -- publisher restarted
  else if seq = t.last then (t, false)
  else ({ t with last := seq, count := if t.count < 0xFFFFFFFF then t.count + 1 else t.count, lastNew := now }, true)

def accepting (t : SequenceTracker) : Bool := t.have_ && t.accept ≤ t.count

end SequenceTracker

structure DecisionConfig where
  commandMaxAge : ℚ := 1 / 5
  gates : GateConfig := {}
  limits : Limits := {}
  plausibility : PlausibilityConfig := {}

structure Decision where
  out : Motion := canonicalStop
  reason : Reason := .stale
  accepted : Bool := false
  clamped : Bool := false
  inputSeq : Nat := 0
  inputAge : ℚ := 10 ^ 9
  sourcePoseSampleNs : Int := 0
  deriving DecidableEq

structure Guard where
  seq : SequenceTracker
  haveCmd : Bool := false
  cmd : Command := {}
  lim : LimitState := {}
  stall : StallDetector := {}
  deriving DecidableEq

namespace Guard

def start (accept : Nat) : Guard := { seq := { accept } }

def onCommand (g : Guard) (c : Command) (now : ℚ) : Guard :=
  match g.seq.onCommand c.seq now with
  | (seq, true) => { g with seq, cmd := c, haveCmd := true }
  | (seq, false) => { g with seq }

def inputAge (g : Guard) (now : ℚ) : ℚ := if g.haveCmd && g.seq.have_ then now - g.seq.lastNew else 10 ^ 9

/-- A refusal: the canonical STOP, no ramp state left behind, and the stall timer restarted. -/
def fail (g : Guard) (now : ℚ) (r : Reason) : Guard × Decision :=
  ({ g with lim := {}, stall := if r = .actuatorStall then g.stall else g.stall.interrupt },
    { reason := r, inputSeq := if g.haveCmd then g.cmd.seq else 0, inputAge := g.inputAge now })

def motion (g : Guard) (mode : Mode) : Motion :=
  { mode, speedBodyX := g.cmd.speedBodyX, yawSetpoint := g.cmd.yawSetpoint, yawRateSetpoint := g.cmd.yawRateSetpoint }

/-- The decision on a valid, fresh moving command in session, once the gates pass. -/
def forward (cfg : DecisionConfig) (g : Guard) (now dt : ℚ) (gates : GateInputs) (mode : Mode) : Guard × Decision :=
  let (stall, stalled) := g.stall.update (g.motion mode) gates.vehicle now cfg.plausibility
  let g := { g with stall }
  if stalled then g.fail now .actuatorStall
  else
    let (limited, lim) := applyLimits (g.motion mode) (.fin dt) cfg.limits g.lim
    ({ g with lim },
      { out := limited.motion
        reason := if limited.clamped then .limitClamped else .ok
        accepted := true
        clamped := limited.clamped
        inputSeq := if g.haveCmd then g.cmd.seq else 0
        inputAge := g.inputAge now
        sourcePoseSampleNs := g.cmd.sourcePoseSampleNs })

/-- A clean STOP is forwarded whatever the gates say; the demand dropped, so the stall latch clears. -/
def forwardStop (g : Guard) (now : ℚ) : Guard × Decision :=
  ({ g with lim := {}, stall := g.stall.clear },
    { reason := .ok, accepted := true, inputSeq := if g.haveCmd then g.cmd.seq else 0, inputAge := g.inputAge now
      sourcePoseSampleNs := g.cmd.sourcePoseSampleNs })

def decide (cfg : DecisionConfig) (g : Guard) (now dt : ℚ) (gates : GateInputs) : Guard × Decision :=
  if !g.haveCmd then g.fail now .stale
  else if !commandIsValid g.cmd then g.fail now .invalidMessage
  else if cfg.commandMaxAge < g.inputAge now then g.fail now .stale
  else if !g.seq.accepting then g.fail now .sequence
  else match Mode.ofWire g.cmd.mode with
    | none => g.fail now .invalidMessage  -- excluded by the validity check above
    | some .stop => g.forwardStop now
    | some mode =>
      match firstFailingSafetyGate gates cfg.gates with
      | .ok =>
        if !missionRunning gates.mission then g.fail now .missionGate else g.forward cfg now dt gates mode
      | r => g.fail now r

inductive Event where
  | command (c : Command) (now : ℚ)
  | decide (now dt : ℚ) (gates : GateInputs)
  deriving DecidableEq

/-- The answer to a decision tick, with `actuator_stalled()` as the node reads it next. -/
structure Answer where
  decision : Decision
  actuatorStalled : Bool
  deriving DecidableEq

def step (cfg : DecisionConfig) (g : Guard) : Event → Guard × Option Answer
  | .command c now => (g.onCommand c now, none)
  | .decide now dt gates =>
    ((g.decide cfg now dt gates).1, some ⟨(g.decide cfg now dt gates).2, (g.decide cfg now dt gates).1.stall.latched⟩)

abbrev Record := Entry Event (Option Answer)

end Guard

end Dyx3.MotionGuard
