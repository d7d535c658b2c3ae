import Dyx3.Mission.Messages
import Dyx3.Mission.Px4Sequencer

/-!
`MissionNode` (dyx3_mission/mission_node): the callbacks of the mission node on its state.

A callback reads the clocks once. File jobs run elsewhere: an input makes a running job ready, with any result.
A PX4 reply may come for any request number, at any time. The action server is its start and its cancel; the
feedback and result of a goal, message stamps and console lines are not modelled.
-/

namespace Dyx3.Mission

open Lib

/-- The readings of the steady clock (ns) and of the system clock in one callback. -/
structure Clock where
  steady : ℤ
  utc : String := ""
  deriving DecidableEq

inductive Output where
  | logged (missionId : ℕ) (t : Transition)
  | state (m : MissionStateMsg)
  | point (r : PointResult)
  | request (r : Px4Request)
  deriving DecidableEq

/-- The latest guard verdict. -/
structure Gate where
  stamp : Option ℤ := none
  flag : Bool := false
  reason : UInt8 := 0
  preArmFlag : Bool := false
  preArmReason : UInt8 := 0
  deriving DecidableEq

structure Node where
  params : Params
  fsm : MissionFsm := {}
  px4 : Px4Sequencer := {}
  run : RunState := {}
  artifact : Option PathArtifact := none
  journal : Option PointJournal := none
  placement : Option PlacementRecord := none
  ekfResetReported : Bool := false
  releaseNote : String := ""
  enteredChanges : ℕ := 0
  dirty : Bool := false
  loadJob : Job String ArtifactResult := .none
  placeJob : Job (PathArtifact × EkfReference × ℚ) PlaceResult := .none
  jobMissionId : ℕ := 0
  progress : List (String × MissionProgress) := []
  progressQueue : List (String × MissionProgress) := []
  progressJob : Job (List MissionProgress) (List String) := .none
  progressTracking : Bool := false
  resumePoints : List ℕ := []
  completed : List ℕ := []
  progressRun : ℕ := 0
  reengageConfirmedAt : Option ℤ := none
  pivotTimeoutLatched : Bool := false
  gate : Gate := {}
  vehicle : Option VehicleState := none
  vehicleStamp : ℤ := 0
  readySince : Option ℤ := none
  rppStamp : Option ℤ := none
  out : List Output := []

namespace Node

def timeouts (ps : Params) : Timeouts := ⟨ps.value .armTimeout, ps.value .offboardTimeout⟩

/-- A constructed node, with the progress records found on disk. -/
def start (ps : Params) (progress : List (String × MissionProgress)) : Node :=
  { params := ps, px4 := { timeouts := timeouts ps }, progress }

def seconds (ns : ℤ) : ℚ := ns / 10 ^ 9

def emit (n : Node) (o : Output) : Node := { n with out := n.out ++ [o] }

/-- A verdict of the guard with its reason; stale or never seen is not ok. -/
def verdict (n : Node) (t : Clock) (flag : Bool) (reason : UInt8) : Bool × UInt8 :=
  match n.gate.stamp with
  | none => (false, gateStale)
  | some stamp =>
    let age := seconds (t.steady - stamp)
    if age ≤ n.params.value .gateStatusMaxAge ∧ -n.params.value .gateStatusMaxAge ≤ age then
      (flag, if flag then gateOkReason else reason)
    else (false, gateStale)

def gateOk (n : Node) (t : Clock) : Bool × UInt8 := n.verdict t n.gate.flag n.gate.reason

def preArmOk (n : Node) (t : Clock) : Bool × UInt8 := n.verdict t n.gate.preArmFlag n.gate.preArmReason

def vehicleFresh (n : Node) (t : Clock) : Bool :=
  n.vehicle.isSome &&
    let age := seconds (t.steady - n.vehicleStamp)
    decide (0 ≤ age ∧ age ≤ n.params.value .vehicleStateMaxAge)

def rppStatusFresh (n : Node) (t : Clock) : Bool :=
  n.rppStamp.any fun stamp =>
    let age := seconds (t.steady - stamp)
    decide (0 ≤ age ∧ age ≤ n.params.value .rppStatusMaxAge)

/-- The vehicle reports the reference the path was placed with. -/
def sameReference (r : PlacementRecord) (v : VehicleState) : Bool :=
  v.globalReferenceValid && v.referenceLatitude.same r.refLat && v.referenceLongitude.same r.refLon

def referenceMatchesPlacement (n : Node) (t : Clock) : Bool :=
  match n.placement, n.vehicle with
  | some r, some v => n.vehicleFresh t && (!r.anchored || sameReference r v)
  | _, _ => false

def jobsPending (n : Node) : Bool := n.loadJob.valid || n.placeJob.valid

/-- `MissionState.waiting_on`. -/
def waitingOn (n : Node) : UInt8 :=
  match n.px4.releasePending with
  | some op => if op = .offboardOff then 7 else 8
  | none =>
    match n.fsm.state with
    | .loading => 1
    | .placing => 2
    | .arming => 3
    | .engaging => 4
    | .ready => 5
    | .paused => 6
    | _ => 0

/-- A re-engage is published as PAUSED. -/
def publishedState (n : Node) : State := if n.fsm.reengaging then .paused else n.fsm.state

def publishState (n : Node) : Node :=
  { n with dirty := false }.emit (.state {
    state := n.publishedState
    missionId := n.fsm.missionId
    runIndex := n.run.runIndex
    pointIndex := n.run.pointIndex
    reasonCode := n.fsm.reason
    pathArtifactSha256 := n.run.pathArtifactSha256
    sourceArtifactSha256 := n.run.sourceArtifactSha256
    requestId := n.run.requestId
    reasonDetail := n.fsm.detail ++ if n.releaseNote = "" then "" else "; release: " ++ n.releaseNote
    gateReasonCode := n.fsm.gateReason
    waitingOn := n.waitingOn
    startRunIndex := n.run.startRunIndex })

def publishPoint (n : Node) (ev : PointEvent) : Node := n.emit (.point ⟨n.fsm.missionId, ev⟩)

def publishPoints (n : Node) (evs : List PointEvent) : Node := evs.foldl publishPoint n

def finishJournal (n : Node) : Node :=
  match n.journal with
  | some j => { n with journal := some j.finish.1 }.publishPoints j.finish.2
  | none => n

/-- ERROR unloads the execution: nothing can drive it later. -/
def unloadOnError (n : Node) : Node :=
  if n.fsm.state = .error then
    { n with run := { n.run with pathArtifactSha256 := "" }, artifact := none, journal := none }
  else n

def onTerminalEntry (n : Node) : Node :=
  let n := { n with dirty := true }.finishJournal
  let n := { n with readySince := none }.unloadOnError
  { n with px4 := n.px4.release (n.fsm.reason = reasonEstop) }

/-- An event of the state machine with what its observer does: every transition is logged, a state change is
published at once, a terminal state's entry actions come before that. -/
def fire (n : Node) (t : Clock) (c : MissionFsm.Call) : Node :=
  let s := n.fsm.call t.steady c
  let n := { n with fsm := s.fsm }.emit (.logged s.fsm.missionId s.logged)
  if s.logged.refused || (s.logged.src = s.logged.dst && s.logged.event ≠ .ekfReset) then n
  else (if n.fsm.terminal then n.onTerminalEntry else n).publishState

/-! ### Persisted progress -/

def launchProgressJob (n : Node) : Node :=
  if n.progressJob.valid || n.progressQueue.isEmpty then n
  else { n with progressQueue := [], progressJob := .running (n.progressQueue.map (·.2)) }

def noteProgress (n : Node) (t : Clock) : Node :=
  if !n.progressTracking then n
  else
    let p : MissionProgress := {
      pathArtifactSha256 := n.run.sourceArtifactSha256
      missionId := n.fsm.missionId
      runIndex := n.progressRun
      pointIndex := n.run.pointIndex
      completedPoints := n.completed
      state := n.fsm.state.text
      updatedUtc := t.utc }
    launchProgressJob { n with
      progressTracking := if n.fsm.terminal then false else n.progressTracking
      progress := putKey p.pathArtifactSha256 p n.progress
      progressQueue := putKey p.pathArtifactSha256 p n.progressQueue }

def recordResolved (n : Node) (t : Clock) (evs : List PointEvent) : Node :=
  if evs.isEmpty then n
  else { n with completed := n.completed ++ evs.map PointEvent.pointIndex }.noteProgress t

/-! ### The lifecycle -/

/-- A re-engage runs again once the guard also sees armed and OFFBOARD. -/
def confirmReengage (n : Node) (t : Clock) : Node :=
  if n.fsm.awaitingReengageGate then
    let n := { n with reengageConfirmedAt := some t.steady }
    if (n.gateOk t).1 then n.fire t (.reengageGate true) else n
  else n

def handlePx4 (n : Node) (t : Clock) (o : Px4Outcome) : Node :=
  let n := { n with dirty := true }
  let what := o.op.text ++ " " ++ o.result.text ++
    if o.result = .refused then " by px4_link (reason " ++ toString o.reasonCode.toNat ++ ")" else ""
  if o.abandoned then n
  else
    let ok : Bool := o.result = .ok
    let timeout := o.result = .timeout ∨ (o.op = .arm ∧ o.reasonCode = armReasonTimeout)
    match o.op with
    | .arm =>
      if n.fsm.state = .arming then n.fire t (.armed ok (if timeout then reasonArmTimeout else reasonArmRefused) what)
      else n
    | .offboardOn =>
      if n.fsm.state = .engaging then
        (n.fire t (.engaged ok (if timeout then reasonOffboardTimeout else reasonOffboardRefused) what)).confirmReengage t
      else n
    | .offboardOff | .disarm =>
      if ok then n else { n with releaseNote := n.releaseNote ++ (if n.releaseNote = "" then "" else "; ") ++ what }

def pollProgress (n : Node) : Node :=
  match n.progressJob with
  | .ready _ => launchProgressJob { n with progressJob := .none }
  | _ => n

def pollLoad (n : Node) (t : Clock) : Node :=
  match n.loadJob with
  | .ready r =>
    let n := { n with loadJob := .none }
    if n.jobMissionId = n.fsm.missionId ∧ n.fsm.state = .loading then
      if !r.ok then n.fire t (.artifactLoaded false r.error)
      else
        { n with artifact := some r.artifact, progressTracking := true }.fire t
          (.artifactLoaded true "artifact verified")
    else n
  | _ => n

def pollPlace (n : Node) (t : Clock) : Node :=
  match n.placeJob with
  | .ready r =>
    let n := { n with placeJob := .none }
    let p := r.placement
    if n.jobMissionId ≠ n.fsm.missionId ∨ n.fsm.state ≠ .placing then n
    else if !p.ok then n.fire t (.placed false (placementReason p.error) p.detail)
    else if !r.stored then n.fire t (.placed false reasonInternalError r.storeError)
    else
      match PointJournal.make p.execution.points (.fin (n.params.value .pointCaptureRadius)) with
      | .error e => n.fire t (.placed false reasonPathError e)
      | .ok j =>
        match if n.resumePoints.isEmpty then some j else j.restoreResolved n.resumePoints.length with
        | none =>
          { n with journal := none }.fire t (.placed false reasonInternalError
            ("persisted progress (" ++ toString n.resumePoints.length ++
              " points) does not fit the execution artifact (" ++ toString j.pointCount ++ " must-hit points)"))
        | some j =>
          { n with
            journal := some j
            placement := n.placement.map fun (r : PlacementRecord) => { r with anchored := p.transformed }
            run := { n.run with pathArtifactSha256 := p.execution.sha256, pointIndex := j.activePoint.getD 0 }
          }.fire t (.placed true reasonNone p.detail)
  | _ => n

/-- The entry actions of a state. -/
def enter (n : Node) (t : Clock) (s : State) : Node :=
  let n := { n with dirty := true }
  match s with
  | .loading => { n with jobMissionId := n.fsm.missionId, loadJob := .running n.run.sourceArtifactSha256 }
  | .placing =>
    match n.artifact, n.vehicle with
    | none, _ => n.fire t (.placed false reasonInternalError "no loaded artifact")
    | some a, some v =>
      if !n.vehicleFresh t then
        n.fire t (.placed false reasonEkfReferenceInvalid "no fresh VehicleState to place against")
      else
        { n with
          placement := some ⟨false, v.referenceLatitude, v.referenceLongitude, v.xyResetCounter⟩
          jobMissionId := n.fsm.missionId
          placeJob := .running (a, ⟨v.globalReferenceValid, v.referenceLatitude, v.referenceLongitude⟩,
            n.params.value .placementMaxDistance) }
    | some _, none => n.fire t (.placed false reasonEkfReferenceInvalid "no fresh VehicleState to place against")
  | .arming | .engaging =>
    -- never arm or engage unless every pre-arm gate is ok at this instant
    let (ok, why) := n.preArmOk t
    if !ok then if why = gateEstop then n.fire t .estop else n.fire t (.gateLost why)
    else { n with px4 := n.px4.engage (if s = .arming then .arm else .offboardOn) }
  | .ready => { n with readySince := some t.steady, rppStamp := none }
  | _ => n

/-- The entry actions of the states entered since the last call, and whether there were any. -/
def enterAll (t : Clock) : ℕ → Node → Node × Bool
  | 0, n => (n, false)
  | fuel + 1, n =>
    if n.enteredChanges = n.fsm.changes then (n, false)
    else ((enterAll t fuel (enter { n with enteredChanges := n.fsm.changes } t n.fsm.state)).1, true)

/-- The requests that may go out now; each one takes its step from the queue. -/
def sendAll (t : Clock) : ℕ → Node → Node
  | 0, n => n
  | fuel + 1, n =>
    match n.px4.next t.steady with
    | (_, none) => n
    | (px4, some r) => sendAll t fuel ({ n with px4, dirty := true }.emit (.request r))

/-- The PX4 requests past their deadline. -/
def tickPx4 (n : Node) (t : Clock) : Node :=
  let (px4, outcomes) := n.px4.onTick t.steady
  outcomes.foldl (fun n o => n.handlePx4 t o) { n with px4 }

/-- Entry actions change the state at most once more, to a terminal one. -/
def enterStates (n : Node) (t : Clock) : Node :=
  let (n, changed) := enterAll t 2 n
  if changed then n.noteProgress t else n

def flush (n : Node) (t : Clock) : Node :=
  let n := sendAll t n.px4.queue.length n
  if n.dirty then n.publishState else n

/-- Everything the lifecycle owes. -/
def advance (n : Node) (t : Clock) : Node :=
  let n := ((n.pollProgress).pollLoad t).pollPlace t
  ((n.tickPx4 t).enterStates t).flush t

/-! ### The callbacks -/

structure StartOutcome where
  accepted : Bool := false
  reason : UInt8 := 0
  missionId : ℕ
  duplicate : Bool := false
  gateReason : UInt8 := 0
  resumedRunIndex : ℕ := 0
  deriving DecidableEq

inductive Answer where
  | none
  | start (o : StartOutcome)
  | pause (accepted : Bool) (reason : UInt8)
  | resume (accepted : Bool) (reason : UInt8)
  | abort (accepted : Bool) (reason : UInt8)
  | skip (accepted : Bool) (reason : UInt8) (skippedPointIndex : ℕ)
  | parameters (refused : Option String)
  deriving DecidableEq

def isLowerHex64 (s : String) : Bool :=
  s.toList.length = 64 && s.toList.all fun c => ('0' ≤ c && c ≤ '9') || ('a' ≤ c && c ≤ 'f')

def validRequestId (s : String) : Bool :=
  s.toList.length ≤ 64 && s.toList.all fun c =>
    ('A' ≤ c && c ≤ 'Z') || ('a' ≤ c && c ≤ 'z') || ('0' ≤ c && c ≤ '9') || c = '.' || c = '_' || c = ':' || c = '-'

/-- The run and the resolved points a start begins with. -/
def restored (n : Node) (sha : String) (resume : Bool) : ℕ × List ℕ :=
  match if resume then n.progress.lookup sha else none with
  | some p => if p.complete then (0, []) else (p.runIndex, p.completedPoints)
  | none => (0, [])

def withRun (n : Node) (run : RunState) : Node := { n with run }

/-- A new execution begins with nothing of the one before. -/
def resetExecution (n : Node) (startRun : ℕ) (points : List ℕ) : Node :=
  { n with
    artifact := none
    journal := none
    placement := none
    ekfResetReported := false
    releaseNote := ""
    rppStamp := none
    readySince := none
    reengageConfirmedAt := none
    pivotTimeoutLatched := false
    px4 := n.px4.beginExecution
    progressTracking := false
    progressRun := startRun
    resumePoints := points
    completed := points }

/-- The one admission of a mission (the start service and the action server). -/
def beginMission (n : Node) (t : Clock) (sha requestId : String) (resume : Bool) : Node × StartOutcome :=
  let out : StartOutcome := { missionId := n.fsm.missionId }
  if !validRequestId requestId then (n, { out with reason := 4 })
  else if requestId ≠ "" ∧ n.fsm.missionId ≠ 0 ∧ requestId = n.run.requestId then
    (n, { out with accepted := true, duplicate := true, resumedRunIndex := n.run.startRunIndex })
  else if !isLowerHex64 sha then (n, { out with reason := 1 })
  else if !n.fsm.active && (n.px4.busy || n.jobsPending) then (n, { out with reason := 2 })
  else
    let (pre, why) := n.preArmOk t
    let (startRun, points) := n.restored sha resume
    let run : RunState := {
      missionId := n.fsm.missionId + 1
      sourceArtifactSha256 := sha
      requestId
      startRunIndex := startRun
      runIndex := startRun
      pointIndex := points.length }
    let r := (n.fsm.call t.steady (.start pre)).result
    -- the new execution's identity is in place before the transition publishes it
    let m := (n.withRun run).fire t (.start pre)
    if !r.accepted then
      (m.withRun n.run,
        { out with reason := if r.reject = .busy then 2 else 3, gateReason := if r.reject = .safetyGate then why else 0 })
    else
      ((m.resetExecution startRun points).advance t,
        { out with accepted := true, missionId := m.fsm.missionId, resumedRunIndex := startRun })

def onPause (n : Node) (t : Clock) : Node × Answer :=
  let r := (n.fsm.call t.steady .pause).result
  ((n.fire t .pause).advance t, .pause r.accepted (if r.accepted then 0 else 1))

/-- The FSM event of a resume call. It re-engages when only the arming gate fails and the pre-arm gate is ok. -/
def resumeCall (n : Node) (t : Clock) : MissionFsm.Call :=
  let paused := n.fsm.state = .paused
  let referenceOk := !decide paused || n.referenceMatchesPlacement t
  let (full, why) := n.gateOk t
  let rppOk := n.rppStatusFresh t
  if paused ∧ referenceOk ∧ rppOk ∧ !full ∧ (n.preArmOk t).1 ∧ why = gateArming then .reengage
  else .resume (referenceOk && full && rppOk)

/-- The operator saw the EKF reset and resumes on the same reference. -/
def rebaseline (n : Node) (r : Result) : Node :=
  if r.accepted ∧ r.transitioned then
    { n with
      placement := match n.placement, n.vehicle with
        | some p, some v => some { p with xyResetCounter := v.xyResetCounter }
        | p, _ => p
      ekfResetReported := false }
  else n

def onResume (n : Node) (t : Clock) : Node × Answer :=
  let referenceOk := !decide (n.fsm.state = .paused) || n.referenceMatchesPlacement t
  let (full, why) := n.gateOk t
  let r := (n.fsm.call t.steady (n.resumeCall t)).result
  let reason : UInt8 :=
    if r.accepted then 0
    else if r.reject = .notPaused then 1
    else if !referenceOk then 4
    else if !full ∧ why = gateArming then 3
    else 2
  (((n.fire t (n.resumeCall t)).rebaseline r).advance t, .resume r.accepted reason)

def onAbort (n : Node) (t : Clock) (reason : UInt8) : Node × Answer :=
  let r := (n.fsm.call t.steady (.abort reason)).result
  ((n.fire t (.abort reason)).advance t, .abort r.accepted (if r.accepted then 0 else 1))

/-- The cancel of an action goal. -/
def onCancel (n : Node) (t : Clock) : Node := (n.fire t (.abort reasonOperator)).advance t

/-- The point the operator skips. -/
def skipPoint (n : Node) (t : Clock) : Node × Option PointEvent :=
  match n.journal with
  | none => (n, none)
  | some j =>
    match j.skip with
    | (j, none) => ({ n with journal := some j }, none)
    | (j, some ev) =>
      let n := { n with journal := some j }.publishPoint ev
      ({ n with run := { n.run with pointIndex := j.activePoint.getD j.pointCount } }.recordResolved t [ev], some ev)

def onSkip (n : Node) (t : Clock) : Node × Answer :=
  let active := (n.journal.bind (·.activePoint)).isSome
  let r := (n.fsm.call t.steady (.skipPoint active)).result
  let n := n.fire t (.skipPoint active)
  if r.accepted then ((n.skipPoint t).1.publishState, .skip true 0 ((n.skipPoint t).2.elim 0 (·.pointIndex)))
  else (n.publishState, .skip false (if r.reject = .notRunning then 2 else 1) 0)

def evaluateGate (n : Node) (t : Clock) : Node :=
  if !n.fsm.active then n
  else
    let (pre, preWhy) := n.preArmOk t
    let (full, fullWhy) := n.gateOk t
    if preWhy = gateEstop ∨ fullWhy = gateEstop then n.fire t .estop
    else if n.fsm.beforeRunning then
      -- before motion the vehicle may be disarmed: the pre-arm gate is the one that must hold
      if !pre then n.fire t (.gateLost preWhy)
      else if full ∧ n.fsm.awaitingReengageGate then n.fire t (.reengageGate true)
      else n
    else if n.fsm.state = .running then if !full then n.fire t (.gateLost fullWhy) else n
    else n

def onGate (n : Node) (t : Clock) (m : SafetyGateStatus) : Node :=
  ({ n with gate := ⟨some t.steady, m.ok, m.reasonCode, m.preArmOk, m.preArmReasonCode⟩ }.evaluateGate t).advance t

/-- The run RPP reports is the one in progress. -/
def noteRun (n : Node) (t : Clock) (m : RppStatus) : Node :=
  let driven := n.fsm.state = .running ∨ n.fsm.state = .paused ∨ n.fsm.reengaging
  if driven ∧ m.holdsPath ∧ n.progressRun < m.runIndex then { n with progressRun := m.runIndex }.noteProgress t else n

/-- ERROR and COMPLETE come before the acknowledgement in READY. -/
def rppEvent (n : Node) (t : Clock) (m : RppStatus) : Node :=
  if m.state = rppErrorState then n.fire t .rppError
  else if n.fsm.state = .ready ∧ m.holdsPath then n.fire t (.rppAck (n.gateOk t).1)
  else if n.fsm.state = .running ∧ m.pivotTimedOut ∧ !n.pivotTimeoutLatched then
    { n with pivotTimeoutLatched := true }.fire t .rppPivotTimeout
  else if m.state = rppCompleteState ∧ n.fsm.state ≠ .ready then n.fire t .rppComplete
  else n

def unlatchPivot (n : Node) (m : RppStatus) : Node :=
  if !m.pivotTimedOut then { n with pivotTimeoutLatched := false } else n

/-- Only the current mission's status counts. -/
def onRpp (n : Node) (t : Clock) (m : RppStatus) : Node :=
  if m.missionId ≠ n.fsm.missionId then n
  else
    let n := { n with rppStamp := some t.steady, run := { n.run with runIndex := m.runIndex } }
    (((n.noteRun t m).rppEvent t m).unlatchPivot m).advance t

/-- Why the placement no longer fits the vehicle's reference. -/
def ekfResetDetail (r : PlacementRecord) (v : VehicleState) : Option String :=
  if v.xyResetCounter ≠ r.xyResetCounter then
    some ("EKF xy reset (counter " ++ toString r.xyResetCounter.toNat ++ " -> " ++ toString v.xyResetCounter.toNat ++ ")")
  else if r.anchored ∧ !sameReference r v then
    some "EKF global reference changed or became invalid since placement"
  else none

def checkEkfReset (n : Node) (t : Clock) : Node :=
  let s := n.fsm.state
  let placedState := s = .arming ∨ s = .engaging ∨ s = .ready ∨ s = .running ∨ s = .paused
  match n.placement, n.vehicle with
  | some r, some v =>
    if ¬ placedState ∨ n.ekfResetReported then n
    else
      match ekfResetDetail r v with
      | none => n
      | some why => { n with ekfResetReported := true }.fire t (.ekfReset why)
  | _, _ => n

/-- The must-hit points the rover's position resolves while RUNNING. -/
def trackPoints (hypot : Flt → Flt → Flt) (n : Node) (t : Clock) (m : VehicleState) : Node :=
  match n.journal with
  | some j =>
    if n.fsm.state = .running ∧ m.positionValid then
      let (j, evs) := j.update hypot m.north m.east
      let n := { n with journal := some j }.publishPoints evs
      { n with run := { n.run with pointIndex := j.activePoint.getD j.pointCount } }.recordResolved t evs
    else n
  | none => n

def onVehicle (hypot : Flt → Flt → Flt) (n : Node) (t : Clock) (m : VehicleState) : Node :=
  let n := { n with vehicle := some m, vehicleStamp := t.steady }.checkEkfReset t
  (trackPoints hypot n t m).advance t

/-- RPP is silent while RUNNING. -/
def checkRppStale (n : Node) (t : Clock) : Node :=
  if n.fsm.state = .running ∧ !n.rppStatusFresh t then n.fire t .rppStale else n

def checkRppAck (n : Node) (t : Clock) : Node :=
  if n.fsm.state = .ready ∧
      n.readySince.any (fun since => n.params.value .rppAckTimeout ≤ seconds (t.steady - since)) then
    let (full, why) := n.gateOk t
    n.fire t (.rppAckTimeout full why)
  else n

/-- The hold after a re-engage's OFFBOARD confirmation is bounded by the engage step's own timeout. -/
def checkReengage (n : Node) (t : Clock) : Node :=
  if n.fsm.awaitingReengageGate ∧
      n.reengageConfirmedAt.any (fun since => n.params.value .offboardTimeout ≤ seconds (t.steady - since)) then
    n.fire t (.reengageTimeout (n.gateOk t).2)
  else n

def onTimer (n : Node) (t : Clock) : Node :=
  let n := (((n.evaluateGate t).checkRppStale t).checkRppAck t).checkReengage t
  (n.advance t).publishState

def onPx4Reply (n : Node) (t : Clock) (id : ℕ) (accepted : Bool) (reason : UInt8) : Node :=
  match n.px4.onResponse id accepted reason with
  | (px4, some o) => ({ n with px4 }.handlePx4 t o).advance t
  | (px4, none) => { n with px4 }.advance t

def setParam (idle : Bool) (next : Params) (p : String × ParamValue) : Except String Params :=
  if p.1 = "missions_dir" then .error "missions_dir is RESTART-class"
  else
    match idleOnlyParams.find? (·.text = p.1) with
    | none => .ok next
    | some q =>
      if !idle then .error (p.1 ++ " is IDLE_ONLY: mission must be IDLE")
      else
        match p.2 with
        | .other => .error (p.1 ++ " must be a double")
        | .double v => if valid : validValue q v = true then .ok (next.set q v valid) else .error (p.1 ++ " out of range")

def onParameters (n : Node) (ps : List (String × ParamValue)) : Node × Answer :=
  match ps.foldlM (setParam (n.fsm.state = .idle)) n.params with
  | .error why => (n, .parameters (some why))
  | .ok params => ({ n with params, px4 := { n.px4 with timeouts := timeouts params } }, .parameters none)

inductive Event where
  | start (sha requestId : String) (resume : Bool)
  | pause
  | resume
  | abort (reason : UInt8)
  | skip
  | cancelGoal
  | gate (m : SafetyGateStatus)
  | rpp (m : RppStatus)
  | vehicle (m : VehicleState)
  | px4Reply (id : ℕ) (accepted : Bool) (reason : UInt8)
  | loadDone (r : ArtifactResult)
  | placeDone (r : PlaceResult)
  | progressDone (errors : List String)
  | timer
  | workTimer
  | parameters (ps : List (String × ParamValue))
  deriving DecidableEq

structure Input where
  clock : Clock
  event : Event
  deriving DecidableEq

def handle (hypot : Flt → Flt → Flt) (n : Node) (t : Clock) : Event → Node × Answer
  | .start sha requestId resume => ((n.beginMission t sha requestId resume).1,
      .start (n.beginMission t sha requestId resume).2)
  | .pause => n.onPause t
  | .resume => n.onResume t
  | .abort reason => n.onAbort t reason
  | .skip => n.onSkip t
  | .cancelGoal => (n.onCancel t, .none)
  | .gate m => (n.onGate t m, .none)
  | .rpp m => (n.onRpp t m, .none)
  | .vehicle m => (onVehicle hypot n t m, .none)
  | .px4Reply id accepted reason => (n.onPx4Reply t id accepted reason, .none)
  | .loadDone r => ({ n with loadJob := n.loadJob.finish r }, .none)
  | .placeDone r => ({ n with placeJob := n.placeJob.finish r }, .none)
  | .progressDone errors => ({ n with progressJob := n.progressJob.finish errors }, .none)
  | .timer => (n.onTimer t, .none)
  | .workTimer => (n.advance t, .none)
  | .parameters ps => n.onParameters ps

structure Reply where
  answer : Answer
  outputs : List Output
  deriving DecidableEq

/-- One callback: its answer and its outputs, oldest first. -/
def step (hypot : Flt → Flt → Flt) (n : Node) (i : Input) : Node × Reply :=
  let (m, answer) := handle hypot { n with out := [] } i.clock i.event
  (m, ⟨answer, m.out⟩)

end Node

end Dyx3.Mission
