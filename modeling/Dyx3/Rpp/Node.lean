import Dyx3.Mission.Messages
import Dyx3.Rpp.MotionOutput
import Dyx3.Rpp.Params
import Dyx3.Rpp.PivotStops

/-!
`RppNode`: the ROS node around `RppCore`, one callback an event. Every callback runs to its end before the
next one (a single threaded executor), and what it publishes and logs is its answer.

Reading, conditioning and storing an artifact is an input: an `Attempt` says how far it got. The conditioned
artifact's own id, the loop jitter and the debug fields of `RppStatus` are left out.
-/

namespace Dyx3.RppNode

open Lib Scalar RppCore Mission

inductive RppState where
  | idle | tracking | stopping | pivoting | creeping | complete | error | loaded
  deriving DecidableEq, Repr

/-- What happens to the conditioned runs before the core has them. -/
inductive Storing where
  /-- Serialization, the directory, the write or the rename fails. -/
  | fails (error : String)
  | throws
  /-- The allocation inside `install_mission` throws after the runs were moved in. -/
  | installThrows
  | stored
  deriving DecidableEq

/-- How far an attempt to load an artifact gets. -/
inductive Attempt (R : Type) where
  /-- The copy of the artifact id throws. -/
  | copyThrows
  /-- `load_artifact` refuses the file. -/
  | rejected (error : String)
  | throws
  | conditioned (runs : List (ConditionedRun R)) (storing : Storing)

/-- The log lines of the load. -/
inductive Log (R : Type) where
  | rejected (sha error : String)
  | noUsableRun (sha : String)
  | notStored (error : String)
  | loadFailed (sha : String)
  | refused (missionId startRun runs : ℕ)
  | pathLoaded (missionId : ℕ) (sha : String) (startRun : ℕ) (runs : List (ConditionedRun R))
  | startsAtRun (missionId startRun : ℕ)
  | startRunIgnored (missionId asked latched : ℕ)
  | pathCleared

structure Stamp where
  sec : ℤ := 0
  nanosec : ℕ := 0
  deriving DecidableEq

structure VehicleState (R : Type) where
  positionValid : Bool
  attitudeValid : Bool
  velocityValid : Bool
  north : R
  east : R
  heading : R
  velocityNorth : R
  velocityEast : R
  yawRate : R
  px4SampleStamp : Stamp

variable {R : Type} [Single R]

structure MotionSetpoint (R : Type) [Single R] where
  seq : ℕ
  command : MotionCommand R
  sourcePoseSampleStamp : Stamp

/-- `out` is the tick the status is about. -/
structure Status (R : Type) [Single R] where
  state : RppState
  missionId : ℕ
  runIndex : ℕ
  out : Option (TickOutput R)

structure Answer (R : Type) [Single R] where
  setpoint : Option (MotionSetpoint R) := none
  status : Option (Status R) := none
  log : List (Log R) := []
  setResult : Option (Except String Unit) := none

structure Node (R : Type) [Single R] where
  params : ParamSet R
  core : Core R
  tickHz : R
  eventDriven : Bool
  haveTick : Bool := false
  lastTickWasSample : Bool := false
  lastTick : ℤ := 0
  tickedSample : Option Stamp := none
  missionRunning : Bool := false
  missionActive : Bool := false
  wantsMission : Bool := false
  loaded : Bool := false
  loadFailed : Bool := false
  missionId : ℕ := 0
  sha : String := ""
  retryLoadAt : ℤ := 0
  pendingMissionId : ℕ := 0
  pendingSha : String := ""
  pendingStartRun : ℕ := 0
  startRunIndex : ℕ := 0
  startRunLocked : Bool := false
  startRunChangeLogged : Bool := false
  seq : ℕ := 0
  poseSampleStamp : Stamp := {}
  repeatAvailable : Bool := false
  lastRunningCmd : MotionCommand R := {}
  lastRunningState : RppState := .idle
  stoppedForShutdown : Bool := false

namespace Node

/-- A node that has come up with `params`. -/
def initial (params : ParamSet R) (tickHz : R) (eventDriven : Bool) : Node R :=
  { params, core := { params := params.core }, tickHz, eventDriven }

/-- `int64` max. -/
def never : ℤ := 9223372036854775807

def refuseStartRun (s : Node R) (startRun runs : ℕ) : Node R × List (Log R) :=
  ({ s with loaded := false, loadFailed := true, repeatAvailable := false, retryLoadAt := never },
    [.refused s.missionId startRun runs])

/-- The `catch` of `load_mission`. -/
def caught (s : Node R) (sha : String) : Node R × List (Log R) :=
  ({ s with loaded := false, loadFailed := true }, [.loadFailed sha])

/-- The runs reach the core. -/
def installRuns (s : Node R) (runs : List (ConditionedRun R)) (startRun : ℕ) : Node R × List (Log R) :=
  let (core, ok) := (s.core.installMission runs).startAtRun startRun
  let s := { s with core }
  if !ok then s.refuseStartRun startRun runs.length
  else ({ s with loaded := true, loadFailed := false }, [.pathLoaded s.missionId s.sha startRun runs])

/-- `load_mission`, at the time `now` of the clock. -/
def loadMission (s : Node R) (missionId : ℕ) (sha : String) (startRun : ℕ) (now : ℤ) (attempt : Attempt R) :
    Node R × List (Log R) :=
  let s := { s with missionId }
  let begun :=
    { s with
      sha, loaded := false, startRunIndex := startRun, startRunLocked := false, startRunChangeLogged := false
      repeatAvailable := false, loadFailed := true, retryLoadAt := now + 1000000000 }
  match attempt with
  | .copyThrows => s.caught sha
  | .rejected error => (begun, [.rejected sha error])
  | .throws => begun.caught sha
  | .conditioned runs storing =>
    if runs.isEmpty then (begun, [.noUsableRun sha])
    else if runs.length ≤ startRun then begun.refuseStartRun startRun runs.length
    else match storing with
      | .fails error => (begun, [.notStored error])
      | .throws => begun.caught sha
      | .installThrows => { begun with core := { begun.core with runs } }.caught sha
      | .stored => begun.installRuns runs startRun

def unloadMission (s : Node R) : Node R × List (Log R) :=
  ({ s with
      core := s.core.installMission [], loaded := false, loadFailed := false, missionId := 0, startRunIndex := 0
      startRunLocked := false, startRunChangeLogged := false, sha := "" },
    [.pathCleared])

/-- The states of a mission that has a path. -/
def isActive (state : State) : Bool := state = .loading || state = .ready || state = .running || state = .paused

/-- A different start run in a message of the loaded mission. -/
def changeStartRun (s : Node R) (startRun : ℕ) (transition : Bool) : Node R × List (Log R) :=
  if transition && !s.startRunLocked then
    let (core, ok) := s.core.startAtRun startRun
    let s := { s with core }
    if ok then ({ s with startRunIndex := startRun }, [.startsAtRun s.missionId startRun])
    else s.refuseStartRun startRun s.core.runs.length
  else if !s.startRunChangeLogged then
    ({ s with startRunChangeLogged := true }, [.startRunIgnored s.missionId startRun s.startRunIndex])
  else (s, [])

/-- The message is stored before anything is done about it. -/
def noteMission (s : Node R) (m : MissionStateMsg) : Node R :=
  { s with
    missionRunning := m.state = .running
    missionActive := isActive m.state
    wantsMission := isActive m.state && m.pathArtifactSha256 ≠ ""
    pendingMissionId := m.missionId
    pendingSha := m.pathArtifactSha256
    pendingStartRun := m.startRunIndex }

def onMissionState (s : Node R) (m : MissionStateMsg) (now : ℤ) (attempt : Attempt R) : Node R × List (Log R) :=
  let wasRunning := s.missionRunning
  let s := s.noteMission m
  if !s.wantsMission then
    if s.loaded || s.loadFailed then s.unloadMission else (s, [])
  else
    let (s, log) :=
      if !(s.loaded || s.loadFailed) || s.missionId ≠ m.missionId || s.sha ≠ m.pathArtifactSha256 then
        s.loadMission m.missionId m.pathArtifactSha256 m.startRunIndex now attempt
      else if s.loaded && m.startRunIndex ≠ s.startRunIndex then
        s.changeStartRun m.startRunIndex (!wasRunning && s.missionRunning)
      else (s, [])
    (if wasRunning && !s.missionRunning && s.loaded then { s with core := s.core.pause } else s, log)

/-- `publish_motion` and `publish_status`. -/
def publish (s : Node R) (command : MotionCommand R) (state : RppState) (out : Option (TickOutput R)) (log : List (Log R)) :
    Node R × Answer R :=
  ({ s with seq := s.seq + 1 },
    { setpoint := some { seq := s.seq, command, sourcePoseSampleStamp := s.poseSampleStamp }
      status := some
        { state, missionId := if s.loaded || s.loadFailed then s.missionId else 0
          runIndex := if s.loaded then s.core.runIdx else 0, out }
      log })

/-- The state a published tick is reported with. -/
def drivenState (out : TickOutput R) : RppState :=
  match out.cmd with
  | .track => if out.state = .tracking ∨ out.state = .approach then .tracking else .stopping
  | .pivot => .pivoting
  | .creep => .creeping
  | .brake | .stop => .stopping

/-- The command of the core's last tick. -/
def tickCommand (s : Node R) : MotionCommand R :=
  commandFromTick s.core.out s.core.profileSegment (s.params.num .maxYawRateBody)
    (s.params.str .segmentCommandMode = "rate")

/-- The command and state after a tick, before the memory for a repeat is set. -/
def chooseCommand (s : Node R) : Node R × MotionCommand R × RppState :=
  if s.core.out.handoff ≠ .none then (s, makeStop, .error)
  else if s.core.pathDone then (s, s.tickCommand, .complete)
  else if !s.core.out.velocityPublished then
    ({ s with repeatAvailable := false },
      if s.repeatAvailable then (s.lastRunningCmd, s.lastRunningState) else (makeStop, .stopping))
  else (s, s.tickCommand, drivenState s.core.out)

/-- Whether the command of this tick may be repeated. -/
def repeatable (s : Node R) : Bool :=
  s.core.out.velocityPublished && s.core.out.handoff = .none && !s.core.pathDone

/-- The running part of `step`. -/
def runningTick (s : Node R) (now : ℤ) (log : List (Log R)) : Node R × Answer R :=
  let s := { s with startRunLocked := true, core := s.core.tick now }
  let (s, cmd, state) := s.chooseCommand
  let s := if s.repeatable then { s with repeatAvailable := true, lastRunningCmd := cmd, lastRunningState := state } else s
  s.publish cmd state (some s.core.out) log

/-- The retry of a failed load. -/
def retryLoad (s : Node R) (now : ℤ) (attempt : Attempt R) : Node R × List (Log R) :=
  if s.wantsMission && s.loadFailed && decide (s.retryLoadAt ≤ now) then
    s.loadMission s.pendingMissionId s.pendingSha s.pendingStartRun now attempt
  else (s, [])

def step (s : Node R) (now : ℤ) (attempt : Attempt R) : Node R × Answer R :=
  if s.stoppedForShutdown then (s, {})
  else
    let (s, log) := s.retryLoad now attempt
    let s := if s.wantsMission && s.loaded && s.missionRunning then s else { s with repeatAvailable := false }
    if !s.wantsMission || !(s.loaded || s.loadFailed) then s.publish makeStop .idle none log
    else if s.loadFailed then s.publish makeStop .error none log
    else if !s.missionRunning then s.publish makeStop .loaded none log
    else s.runningTick now log

def onWatchdog (s : Node R) (now : ℤ) (attempt : Attempt R) : Node R × Answer R :=
  let period := toInt (lit 1000000000 / s.tickHz)
  let need := if s.lastTickWasSample then period + period / 2 else period / 2
  if s.eventDriven && s.haveTick && decide (now - s.lastTick < need) then (s, {})
  else
    let (s, answer) := s.step now attempt
    ({ s with haveTick := true, lastTickWasSample := false, lastTick := now }, answer)

/-- The pose and the velocity of a sample reach the core when they are valid and finite. -/
def feed (s : Node R) (m : VehicleState R) (now : ℤ) : Node R :=
  let s :=
    if m.positionValid && m.attitudeValid && isfinite m.north && isfinite m.east && isfinite m.heading then
      { s with core := s.core.onPose ⟨m.north, m.east, m.heading⟩ now, poseSampleStamp := m.px4SampleStamp }
    else s
  if m.velocityValid && isfinite m.velocityNorth && isfinite m.velocityEast && isfinite m.yawRate then
    { s with core := s.core.onVelocity m.velocityNorth m.velocityEast m.yawRate now }
  else s

def onVehicleState (s : Node R) (m : VehicleState R) (now : ℤ) (attempt : Attempt R) : Node R × Answer R :=
  let s := s.feed m now
  let stamped := m.px4SampleStamp.sec ≠ 0 ∨ m.px4SampleStamp.nanosec ≠ 0
  if s.eventDriven ∧ stamped ∧ s.tickedSample ≠ some m.px4SampleStamp then
    let (s, answer) := { s with tickedSample := some m.px4SampleStamp }.step now attempt
    ({ s with haveTick := true, lastTickWasSample := true, lastTick := now }, answer)
  else (s, {})

/-- An accuracy of 0 is "unknown". -/
def onRtkStatus (s : Node R) (fixType : ℤ) (accuracy : R) (now : ℤ) : Node R :=
  { s with core := s.core.onGps fixType (if lit 0 < accuracy ∧ isfinite accuracy then accuracy else nan) now }

/-- The parameter callback; the core reads the new values from then on. -/
def onSetParameters (s : Node R) (items : List (Item R)) : Node R × Answer R :=
  let items := items.filter fun item => item.name ≠ "use_sim_time"
  match items.find? fun item => (ParamSet.findIndex (kTable (R := R)) item.name).isNone with
  | some item => (s, { setResult := some (.error ("unknown parameter " ++ item.name)) })
  | none =>
    match ParamSet.setMany kTable (s.missionActive || s.loaded || s.loadFailed) s.params items with
    | .error reason => (s, { setResult := some (.error reason) })
    | .ok params => ({ s with params, core := { s.core with params := params.core } }, { setResult := some (.ok ()) })

def shutdownStop (s : Node R) : Node R × Answer R :=
  let (s, answer) := s.publish makeStop .idle none []
  ({ s with stoppedForShutdown := true }, answer)

end Node

inductive Event (R : Type) where
  | missionState (m : MissionStateMsg) (now : ℤ) (attempt : Attempt R)
  | vehicleState (m : VehicleState R) (now : ℤ) (attempt : Attempt R)
  | rtkStatus (fixType : ℤ) (accuracy : R) (now : ℤ)
  | setParameters (items : List (Item R))
  | watchdog (now : ℤ) (attempt : Attempt R)
  | shutdown

def Node.handle (s : Node R) : Event R → Node R × Answer R
  | .missionState m now attempt =>
    let (s, log) := s.onMissionState m now attempt
    (s, { log })
  | .vehicleState m now attempt => s.onVehicleState m now attempt
  | .rtkStatus fixType accuracy now => (s.onRtkStatus fixType accuracy now, {})
  | .setParameters items => s.onSetParameters items
  | .watchdog now attempt => s.onWatchdog now attempt
  | .shutdown => s.shutdownStop

abbrev History (R : Type) [Single R] := List (Entry (Event R) (Answer R))

end Dyx3.RppNode
