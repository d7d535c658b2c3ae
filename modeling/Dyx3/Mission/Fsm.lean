import Mathlib.Data.Int.Notation
import Mathlib.Data.Nat.Notation
import Mathlib.Logic.Basic

/-!
`MissionFsm` (dyx3_mission/mission_fsm): the mission lifecycle. Every event is logged, refused or not. The clock
is nanoseconds of the steady clock; mission and log numbers are natural numbers.
-/

namespace Dyx3.Mission

inductive State where
  | idle | loading | ready | running | paused | completed | aborted | error | placing | arming | engaging
  deriving DecidableEq, Repr

def State.text : State → String
  | .idle => "IDLE"
  | .loading => "LOADING"
  | .ready => "READY"
  | .running => "RUNNING"
  | .paused => "PAUSED"
  | .completed => "COMPLETED"
  | .aborted => "ABORTED"
  | .error => "ERROR"
  | .placing => "PLACING"
  | .arming => "ARMING"
  | .engaging => "ENGAGING"

def reasonNone : UInt8 := 0
def reasonOperator : UInt8 := 1
def reasonSafety : UInt8 := 2
def reasonRtk : UInt8 := 3
def reasonPathError : UInt8 := 4
def reasonInternalError : UInt8 := 5
def reasonEkfReset : UInt8 := 6
def reasonEkfReferenceInvalid : UInt8 := 7
def reasonPlacementOutOfBounds : UInt8 := 8
def reasonNoPlacementFrame : UInt8 := 9
def reasonArmRefused : UInt8 := 10
def reasonArmTimeout : UInt8 := 11
def reasonOffboardRefused : UInt8 := 12
def reasonOffboardTimeout : UInt8 := 13
def reasonRppAckTimeout : UInt8 := 14
def reasonEstop : UInt8 := 15
def reasonRppError : UInt8 := 16
def reasonRppStale : UInt8 := 17
def reasonRppPivotTimeout : UInt8 := 18

inductive Event where
  | start | artifactLoaded | placed | armed | engaged | rppAck | pause | resume | abort | rppComplete | rppError
  | gateLost | estop | ekfReset | skipPoint | rppStale | rppAckTimeout | reengage | reengaged | reengageTimeout
  | rppPivotTimeout
  deriving DecidableEq, Repr

inductive Reject where
  | none | busy | safetyGate | notRunning | notPaused | notActive | invalidArtifact | noActivePoint | illegal
  deriving DecidableEq, Repr

def guardReasonRtkGate : UInt8 := 6

/-- The RTK gate keeps its own code, every other gate is SAFETY. -/
def mapGuardReason (guardReason : UInt8) : UInt8 :=
  if guardReason = guardReasonRtkGate then reasonRtk else reasonSafety

structure Transition where
  seq : ℕ
  src : State
  dst : State
  event : Event
  reason : UInt8
  refused : Bool := false
  reject : Reject := .none
  detail : String
  stamp : ℤ
  deriving DecidableEq, Repr

structure Result where
  accepted : Bool
  reject : Reject := .none
  transitioned : Bool := false
  state : State
  deriving DecidableEq, Repr

structure MissionFsm where
  state : State := .idle
  reason : UInt8 := reasonNone
  gateReason : UInt8 := 0
  detail : String := ""
  entered : ℤ := 0
  missionId : ℕ := 0
  seq : ℕ := 0
  changes : ℕ := 0
  reengaging : Bool := false
  reengageConfirmed : Bool := false
  log : List Transition := []
  deriving DecidableEq

namespace MissionFsm

def logCapacity : ℕ := 256

def terminal (f : MissionFsm) : Bool := f.state = .completed || f.state = .aborted || f.state = .error

def active (f : MissionFsm) : Bool := f.state ≠ .idle && !f.terminal

def beforeRunning (f : MissionFsm) : Bool :=
  f.state = .loading || f.state = .placing || f.state = .arming || f.state = .engaging || f.state = .ready

def awaitingReengageGate (f : MissionFsm) : Bool := f.reengaging && f.reengageConfirmed

/-- The machine after an event, the answer and what was logged. -/
structure Step where
  fsm : MissionFsm
  result : Result
  logged : Transition

/-- The log keeps the newest entries. -/
def record (f : MissionFsm) (t : Transition) : MissionFsm :=
  let log := f.log ++ [t]
  { f with seq := f.seq + 1, log := log.drop (log.length - logCapacity) }

/-- The marks of a re-engage live exactly as long as its ARMING and ENGAGING. -/
def go (f : MissionFsm) (dst : State) (event : Event) (reason : UInt8) (detail : String) (now : ℤ)
    (gateReason : UInt8 := 0) : Step :=
  let t : Transition := { seq := f.seq + 1, src := f.state, dst, event, reason, detail, stamp := now }
  let keeps := dst = .arming ∨ dst = .engaging
  let f := { f with
    state := dst
    reengaging := if keeps then f.reengaging else false
    reengageConfirmed := if keeps then f.reengageConfirmed else false
    reason
    gateReason
    detail
    entered := now
    changes := f.changes + 1 }
  ⟨f.record t, { accepted := true, transitioned := true, state := dst }, t⟩

def refuse (f : MissionFsm) (event : Event) (why : Reject) (detail : String) (now : ℤ) : Step :=
  let t : Transition :=
    { seq := f.seq + 1, src := f.state, dst := f.state, event, reason := f.reason, refused := true, reject := why, detail,
      stamp := now }
  ⟨f.record t, { accepted := false, reject := why, state := f.state }, t⟩

def okNoChange (f : MissionFsm) (event : Event) (detail : String) (now : ℤ) : Step :=
  let t : Transition :=
    { seq := f.seq + 1, src := f.state, dst := f.state, event, reason := f.reason, detail, stamp := now }
  ⟨f.record t, { accepted := true, state := f.state }, t⟩

/-- One step before RUNNING: to `next` on success, to ERROR on failure. -/
def step (f : MissionFsm) (expected next : State) (event : Event) (ok : Bool) (reason : UInt8) (detail : String)
    (now : ℤ) : Step :=
  if f.state ≠ expected then f.refuse event .illegal "not in the step this event completes" now
  else if ok then f.go next event reasonNone detail now
  else f.go .error event reason detail now

def start (f : MissionFsm) (preArmOk : Bool) (now : ℤ) : Step :=
  if f.active then f.refuse .start .busy "a mission is already active" now
  else if !preArmOk then f.refuse .start .safetyGate "pre-arm gate not ok" now
  else { f with missionId := f.missionId + 1 }.go .loading .start reasonNone "start accepted" now

def artifactLoaded (f : MissionFsm) (valid : Bool) (detail : String) (now : ℤ) : Step :=
  f.step .loading .placing .artifactLoaded valid reasonPathError detail now

def placed (f : MissionFsm) (ok : Bool) (reason : UInt8) (detail : String) (now : ℤ) : Step :=
  f.step .placing .arming .placed ok reason detail now

def armed (f : MissionFsm) (ok : Bool) (reason : UInt8) (detail : String) (now : ℤ) : Step :=
  f.step .arming .engaging .armed ok reason detail now

/-- A re-engage waits for the full gate in ENGAGING. -/
def engaged (f : MissionFsm) (ok : Bool) (reason : UInt8) (detail : String) (now : ℤ) : Step :=
  if f.state = .engaging ∧ f.reengaging ∧ ok then
    if f.reengageConfirmed then f.okNoChange .engaged "duplicate" now
    else
      { f with reengageConfirmed := true }.okNoChange .engaged
        "re-engage: OFFBOARD confirmed, waiting for the full gate" now
  else f.step .engaging .ready .engaged ok reason detail now

def rppAck (f : MissionFsm) (gateOk : Bool) (now : ℤ) : Step :=
  match f.state with
  | .ready =>
    if !gateOk then f.okNoChange .rppAck "ack held: full safety gate not ok yet" now
    else f.go .running .rppAck reasonNone "rpp acknowledged the execution" now
  | .running | .paused => f.okNoChange .rppAck "duplicate ack ignored" now
  | _ => f.refuse .rppAck .illegal "no mission awaiting ack" now

def pause (f : MissionFsm) (now : ℤ) : Step :=
  if f.state = .running then f.go .paused .pause reasonOperator "operator pause" now
  else f.refuse .pause .notRunning "not running" now

def resume (f : MissionFsm) (gateOk : Bool) (now : ℤ) : Step :=
  if f.reengaging then f.okNoChange .resume "re-engage already in progress" now
  else if f.state ≠ .paused then f.refuse .resume .notPaused "not paused" now
  else if !gateOk then f.refuse .resume .safetyGate "resume conditions not met" now
  else f.go .running .resume reasonNone "operator resume" now

def reengage (f : MissionFsm) (now : ℤ) : Step :=
  if f.state ≠ .paused then
    if f.reengaging then f.okNoChange .reengage "re-engage already in progress" now
    else f.refuse .reengage .notPaused "not paused" now
  else
    { f with reengaging := true, reengageConfirmed := false }.go .arming .reengage reasonNone
      "operator resume: re-engaging (arm, then OFFBOARD)" now

def reengageGate (f : MissionFsm) (gateOk : Bool) (now : ℤ) : Step :=
  if !f.awaitingReengageGate || f.state ≠ .engaging then
    f.refuse .reengaged .illegal "no re-engage awaiting the gate" now
  else if !gateOk then f.okNoChange .reengaged "re-engage held: full safety gate not ok yet" now
  else f.go .running .reengaged reasonNone "re-engaged: armed and OFFBOARD" now

def reengageTimeout (f : MissionFsm) (guardReason : UInt8) (now : ℤ) : Step :=
  if !f.awaitingReengageGate || f.state ≠ .engaging then
    f.okNoChange .reengageTimeout "no re-engage awaiting the gate" now
  else
    f.go .error .reengageTimeout (mapGuardReason guardReason) "full safety gate never passed after the re-engage" now
      guardReason

def abort (f : MissionFsm) (reason : UInt8) (now : ℤ) : Step :=
  if !f.active then f.refuse .abort .notActive "no active mission" now
  else
    f.go .aborted .abort (if reason = reasonSafety then reasonSafety else reasonOperator) "abort requested" now

def rppComplete (f : MissionFsm) (now : ℤ) : Step :=
  if f.state = .running then f.go .completed .rppComplete reasonNone "rpp reports complete" now
  else if f.state = .paused ∨ f.reengaging then f.okNoChange .rppComplete "complete while paused ignored" now
  else f.refuse .rppComplete .illegal "not running" now

/-- RPP still holds the execution during a re-engage. -/
def rppError (f : MissionFsm) (now : ℤ) : Step :=
  if f.state = .ready ∨ f.state = .running ∨ f.state = .paused ∨ f.reengaging then
    f.go .error .rppError reasonRppError "rpp reports error" now
  else if f.active then f.okNoChange .rppError "rpp holds no path of this execution yet" now
  else f.refuse .rppError .illegal "no active mission" now

def gateLost (f : MissionFsm) (guardReason : UInt8) (now : ℤ) : Step :=
  let r := mapGuardReason guardReason
  if f.beforeRunning then f.go .error .gateLost r "safety gate lost before motion" now guardReason
  else if f.state = .running then f.go .paused .gateLost r "automatic safety pause" now guardReason
  else f.okNoChange .gateLost "no running mission" now

def estop (f : MissionFsm) (now : ℤ) : Step :=
  if f.active then f.go .aborted .estop reasonEstop "emergency stop" now
  else f.okNoChange .estop "no active mission" now

/-- In PAUSED the pause reason becomes EKF_RESET. -/
def ekfReset (f : MissionFsm) (detail : String) (now : ℤ) : Step :=
  match f.state with
  | .arming | .engaging => f.go .error .ekfReset reasonEkfReset detail now
  | .ready | .running | .paused => f.go .paused .ekfReset reasonEkfReset detail now
  | _ => f.okNoChange .ekfReset "no placed execution" now

def rppStale (f : MissionFsm) (now : ℤ) : Step :=
  if f.state = .running then f.go .paused .rppStale reasonRppStale "rpp status stale: automatic pause" now
  else f.okNoChange .rppStale "no running mission" now

def rppPivotTimeout (f : MissionFsm) (now : ℤ) : Step :=
  if f.state = .running then
    f.go .paused .rppPivotTimeout reasonRppPivotTimeout "rpp pivot watchdog expired (heading not reached)" now
  else f.okNoChange .rppPivotTimeout "no running mission" now

def rppAckTimeout (f : MissionFsm) (gateOk : Bool) (guardReason : UInt8) (now : ℤ) : Step :=
  if f.state ≠ .ready then f.okNoChange .rppAckTimeout "not waiting for an ack" now
  else if !gateOk then
    f.go .error .rppAckTimeout (mapGuardReason guardReason) "full safety gate never passed while READY" now guardReason
  else f.go .error .rppAckTimeout reasonRppAckTimeout "rpp never acknowledged the execution" now

/-- A re-engage is still a paused execution to the operator. -/
def skipPoint (f : MissionFsm) (hasActivePoint : Bool) (now : ℤ) : Step :=
  if f.state ≠ .running ∧ f.state ≠ .paused ∧ !f.reengaging then f.refuse .skipPoint .notRunning "not running" now
  else if !hasActivePoint then f.refuse .skipPoint .noActivePoint "no active point" now
  else f.okNoChange .skipPoint "point skip accepted" now

inductive Call where
  | start (preArmOk : Bool)
  | artifactLoaded (valid : Bool) (detail : String)
  | placed (ok : Bool) (reason : UInt8) (detail : String)
  | armed (ok : Bool) (reason : UInt8) (detail : String)
  | engaged (ok : Bool) (reason : UInt8) (detail : String)
  | rppAck (gateOk : Bool)
  | pause
  | resume (gateOk : Bool)
  | reengage
  | reengageGate (gateOk : Bool)
  | reengageTimeout (guardReason : UInt8)
  | abort (reason : UInt8)
  | rppComplete
  | rppError
  | gateLost (guardReason : UInt8)
  | estop
  | ekfReset (detail : String)
  | rppStale
  | rppPivotTimeout
  | rppAckTimeout (gateOk : Bool) (guardReason : UInt8)
  | skipPoint (hasActivePoint : Bool)
  deriving DecidableEq

def call (f : MissionFsm) (now : ℤ) : Call → Step
  | .start preArmOk => f.start preArmOk now
  | .artifactLoaded valid detail => f.artifactLoaded valid detail now
  | .placed ok reason detail => f.placed ok reason detail now
  | .armed ok reason detail => f.armed ok reason detail now
  | .engaged ok reason detail => f.engaged ok reason detail now
  | .rppAck gateOk => f.rppAck gateOk now
  | .pause => f.pause now
  | .resume gateOk => f.resume gateOk now
  | .reengage => f.reengage now
  | .reengageGate gateOk => f.reengageGate gateOk now
  | .reengageTimeout guardReason => f.reengageTimeout guardReason now
  | .abort reason => f.abort reason now
  | .rppComplete => f.rppComplete now
  | .rppError => f.rppError now
  | .gateLost guardReason => f.gateLost guardReason now
  | .estop => f.estop now
  | .ekfReset detail => f.ekfReset detail now
  | .rppStale => f.rppStale now
  | .rppPivotTimeout => f.rppPivotTimeout now
  | .rppAckTimeout gateOk guardReason => f.rppAckTimeout gateOk guardReason now
  | .skipPoint hasActivePoint => f.skipPoint hasActivePoint now

/-! ### The transition table -/

/-- The state changes: which call makes one, from where and to where. -/
inductive Moves (f : MissionFsm) : Call → State → Prop where
  | start (idle : f.active = false) : Moves f (.start true) .loading
  | loaded {detail} (at_ : f.state = .loading) : Moves f (.artifactLoaded true detail) .placing
  | notLoaded {detail} (at_ : f.state = .loading) : Moves f (.artifactLoaded false detail) .error
  | placed {reason detail} (at_ : f.state = .placing) : Moves f (.placed true reason detail) .arming
  | notPlaced {reason detail} (at_ : f.state = .placing) : Moves f (.placed false reason detail) .error
  | armed {reason detail} (at_ : f.state = .arming) : Moves f (.armed true reason detail) .engaging
  | notArmed {reason detail} (at_ : f.state = .arming) : Moves f (.armed false reason detail) .error
  | engaged {reason detail} (at_ : f.state = .engaging) (first : f.reengaging = false) :
      Moves f (.engaged true reason detail) .ready
  | notEngaged {reason detail} (at_ : f.state = .engaging) : Moves f (.engaged false reason detail) .error
  | rppAck (at_ : f.state = .ready) : Moves f (.rppAck true) .running
  | pause (at_ : f.state = .running) : Moves f .pause .paused
  | resume (at_ : f.state = .paused) (first : f.reengaging = false) : Moves f (.resume true) .running
  | reengage (at_ : f.state = .paused) : Moves f .reengage .arming
  | reengaged (at_ : f.state = .engaging) (again : f.reengaging = true) (confirmed : f.reengageConfirmed = true) :
      Moves f (.reengageGate true) .running
  | reengageTimeout {guardReason} (at_ : f.state = .engaging) (again : f.reengaging = true) :
      Moves f (.reengageTimeout guardReason) .error
  | abort {reason} (active : f.active = true) : Moves f (.abort reason) .aborted
  | rppComplete (at_ : f.state = .running) : Moves f .rppComplete .completed
  | rppError (at_ : f.state = .ready ∨ f.state = .running ∨ f.state = .paused ∨ f.reengaging = true) :
      Moves f .rppError .error
  | gateLost {guardReason} (before : f.beforeRunning = true) : Moves f (.gateLost guardReason) .error
  | safetyPause {guardReason} (at_ : f.state = .running) : Moves f (.gateLost guardReason) .paused
  | estop (active : f.active = true) : Moves f .estop .aborted
  | ekfReset {detail} (at_ : f.state = .arming ∨ f.state = .engaging) : Moves f (.ekfReset detail) .error
  | ekfPause {detail} (at_ : f.state = .ready ∨ f.state = .running ∨ f.state = .paused) :
      Moves f (.ekfReset detail) .paused
  | rppStale (at_ : f.state = .running) : Moves f .rppStale .paused
  | rppPivotTimeout (at_ : f.state = .running) : Moves f .rppPivotTimeout .paused
  | rppAckTimeout {gateOk guardReason} (at_ : f.state = .ready) : Moves f (.rppAckTimeout gateOk guardReason) .error

theorem Moves.of_start {f : MissionFsm} {dst : State} (moves : Moves f (.start true) dst) : dst = .loading := by
  cases moves
  rfl

theorem Moves.start_idle {f : MissionFsm} {dst : State} (moves : Moves f (.start true) dst) : f.active = false := by
  cases moves with
  | start idle => exact idle

theorem Moves.of_reengage {f : MissionFsm} {dst : State} (moves : Moves f .reengage dst) : f.state = .paused := by
  cases moves with
  | reengage at_ => exact at_

/-- The event leaves the state and logs that. -/
structure Stays (f : MissionFsm) (s : Step) : Prop where
  state : s.fsm.state = f.state
  changes : s.fsm.changes = f.changes
  missionId : s.fsm.missionId = f.missionId
  reengaging : s.fsm.reengaging = f.reengaging
  quiet : s.result.transitioned = false
  src : s.logged.src = f.state
  dst : s.logged.dst = f.state

/-- The event makes one of the state changes and logs it. -/
structure Goes (f : MissionFsm) (c : Call) (s : Step) : Prop where
  moves : Moves f c s.fsm.state
  changes : s.fsm.changes = f.changes + 1
  missionId : s.fsm.missionId = if c = .start true then f.missionId + 1 else f.missionId
  reengaging : s.fsm.reengaging = true →
    (f.reengaging = true ∨ c = .reengage) ∧ (s.fsm.state = .arming ∨ s.fsm.state = .engaging)
  result : s.result = { accepted := true, transitioned := true, state := s.fsm.state }
  src : s.logged.src = f.state
  dst : s.logged.dst = s.fsm.state
  accepted : s.logged.refused = false

variable {f : MissionFsm} {c : Call} {now : ℤ}

theorem stays_refuse (event : Event) (why : Reject) (detail : String) : Stays f (f.refuse event why detail now) :=
  ⟨rfl, rfl, rfl, rfl, rfl, rfl, rfl⟩

theorem stays_okNoChange (event : Event) (detail : String) : Stays f (f.okNoChange event detail now) :=
  ⟨rfl, rfl, rfl, rfl, rfl, rfl, rfl⟩

/-- A state change of `f`, made on `g`: `f` with its mission number or its marks already set. -/
theorem goes_go {g : MissionFsm} {dst : State} (moves : Moves f c dst) (event : Event) (reason : UInt8)
    (detail : String) (gateReason : UInt8) (state : g.state = f.state) (changes : g.changes = f.changes)
    (missionId : g.missionId = if c = .start true then f.missionId + 1 else f.missionId)
    (marks : g.reengaging = true → f.reengaging = true ∨ c = .reengage) :
    Goes f c (g.go dst event reason detail now gateReason) := by
  refine ⟨moves, by rw [← changes]; rfl, missionId, fun again => ?_, rfl, state, rfl, rfl⟩
  simp only [go, record, Bool.if_false_right, Bool.and_eq_true, decide_eq_true_eq] at again
  exact ⟨marks again.2, again.1⟩

/-- A state change made on the machine as it is. -/
theorem goes_here {dst : State} (moves : Moves f c dst) (other : c ≠ .start true) (event : Event) (reason : UInt8)
    (detail : String) (gateReason : UInt8) : Goes f c (f.go dst event reason detail now gateReason) :=
  goes_go moves event reason detail gateReason rfl rfl (by rw [if_neg other]) .inl

theorem step_goes {expected next : State} {ok : Bool} (event : Event) (reason : UInt8) (detail : String)
    (other : c ≠ .start true) (success : f.state = expected → ok = true → Moves f c next)
    (failure : f.state = expected → ok = false → Moves f c .error) :
    Stays f (f.step expected next event ok reason detail now) ∨
      Goes f c (f.step expected next event ok reason detail now) := by
  unfold step
  split
  · exact .inl (stays_refuse ..)
  case isFalse at_ =>
    rw [not_not] at at_
    cases ok with
    | true => exact .inr (goes_here (success at_ rfl) other ..)
    | false => exact .inr (goes_here (failure at_ rfl) other ..)

theorem start_goes (f : MissionFsm) (preArmOk : Bool) (now : ℤ) :
    Stays f (f.start preArmOk now) ∨ Goes f (.start preArmOk) (f.start preArmOk now) := by
  unfold start
  split
  · exact .inl (stays_refuse ..)
  case isFalse idle =>
    cases preArmOk with
    | false => exact .inl (stays_refuse ..)
    | true => exact .inr (goes_go (.start (by simpa using idle)) _ _ _ _ rfl rfl rfl .inl)

theorem engaged_goes (f : MissionFsm) (ok : Bool) (reason : UInt8) (detail : String) (now : ℤ) :
    Stays f (f.engaged ok reason detail now) ∨ Goes f (.engaged ok reason detail) (f.engaged ok reason detail now) := by
  unfold engaged
  split
  · split
    · exact .inl (stays_okNoChange ..)
    · exact .inl ⟨rfl, rfl, rfl, rfl, rfl, rfl, rfl⟩
  case isFalse first =>
    refine step_goes _ _ _ nofun ?_ ?_
    · rintro at_ rfl
      refine .engaged at_ ?_
      simpa [at_] using first
    · rintro at_ rfl
      exact .notEngaged at_

theorem resume_goes (f : MissionFsm) (gateOk : Bool) (now : ℤ) :
    Stays f (f.resume gateOk now) ∨ Goes f (.resume gateOk) (f.resume gateOk now) := by
  unfold resume
  split
  · exact .inl (stays_okNoChange ..)
  case isFalse first =>
    split
    · exact .inl (stays_refuse ..)
    case isFalse at_ =>
      rw [not_not] at at_
      cases gateOk with
      | false => exact .inl (stays_refuse ..)
      | true => exact .inr (goes_here (.resume at_ (by simpa using first)) nofun ..)

theorem reengage_goes (f : MissionFsm) (now : ℤ) :
    Stays f (f.reengage now) ∨ Goes f .reengage (f.reengage now) := by
  unfold reengage
  split
  · split
    · exact .inl (stays_okNoChange ..)
    · exact .inl (stays_refuse ..)
  case isFalse at_ =>
    rw [not_not] at at_
    exact .inr (goes_go (.reengage at_) _ _ _ _ rfl rfl rfl fun _ => .inr rfl)

theorem awaitingReengageGate_iff :
    f.awaitingReengageGate = true ↔ f.reengaging = true ∧ f.reengageConfirmed = true := by
  rw [awaitingReengageGate, Bool.and_eq_true]

theorem reengageGate_goes (f : MissionFsm) (gateOk : Bool) (now : ℤ) :
    Stays f (f.reengageGate gateOk now) ∨ Goes f (.reengageGate gateOk) (f.reengageGate gateOk now) := by
  unfold reengageGate
  split
  · exact .inl (stays_refuse ..)
  case isFalse waits =>
    simp only [Bool.or_eq_true, Bool.not_eq_true', decide_eq_true_eq, not_or, not_not, Bool.not_eq_false] at waits
    obtain ⟨again, confirmed⟩ := awaitingReengageGate_iff.mp waits.1
    cases gateOk with
    | false => exact .inl (stays_okNoChange ..)
    | true => exact .inr (goes_here (.reengaged waits.2 again confirmed) nofun ..)

/-- What an event does. -/
theorem call_cases (f : MissionFsm) (now : ℤ) (c : Call) : Stays f (f.call now c) ∨ Goes f c (f.call now c) := by
  cases c with
  | start preArmOk => exact start_goes f preArmOk now
  | artifactLoaded valid detail =>
    exact step_goes _ _ _ nofun (fun at_ ok => ok ▸ .loaded at_) (fun at_ ok => ok ▸ .notLoaded at_)
  | placed ok reason detail =>
    exact step_goes _ _ _ nofun (fun at_ ok => ok ▸ .placed at_) (fun at_ ok => ok ▸ .notPlaced at_)
  | armed ok reason detail =>
    exact step_goes _ _ _ nofun (fun at_ ok => ok ▸ .armed at_) (fun at_ ok => ok ▸ .notArmed at_)
  | engaged ok reason detail => exact engaged_goes f ok reason detail now
  | resume gateOk => exact resume_goes f gateOk now
  | reengage => exact reengage_goes f now
  | reengageGate gateOk => exact reengageGate_goes f gateOk now
  | rppAck gateOk =>
    simp only [call, rppAck]
    split
    case h_1 at_ =>
      cases gateOk with
      | false => exact .inl (stays_okNoChange ..)
      | true => exact .inr (goes_here (.rppAck at_) nofun ..)
    · exact .inl (stays_okNoChange ..)
    · exact .inl (stays_okNoChange ..)
    · exact .inl (stays_refuse ..)
  | pause =>
    simp only [call, pause]
    split
    case isTrue at_ => exact .inr (goes_here (.pause at_) nofun ..)
    · exact .inl (stays_refuse ..)
  | reengageTimeout guardReason =>
    simp only [call, reengageTimeout]
    split
    · exact .inl (stays_okNoChange ..)
    case isFalse waits =>
      simp only [Bool.or_eq_true, Bool.not_eq_true', decide_eq_true_eq, not_or, not_not, Bool.not_eq_false] at waits
      exact .inr (goes_here (.reengageTimeout waits.2 (awaitingReengageGate_iff.mp waits.1).1) nofun ..)
  | abort reason =>
    simp only [call, abort]
    split
    · exact .inl (stays_refuse ..)
    case isFalse active => exact .inr (goes_here (.abort (by simpa using active)) nofun ..)
  | rppComplete =>
    simp only [call, rppComplete]
    split
    case isTrue at_ => exact .inr (goes_here (.rppComplete at_) nofun ..)
    · split
      · exact .inl (stays_okNoChange ..)
      · exact .inl (stays_refuse ..)
  | rppError =>
    simp only [call, rppError]
    split
    case isTrue at_ => exact .inr (goes_here (.rppError at_) nofun ..)
    · split
      · exact .inl (stays_okNoChange ..)
      · exact .inl (stays_refuse ..)
  | gateLost guardReason =>
    simp only [call, gateLost]
    split
    case isTrue before => exact .inr (goes_here (.gateLost before) nofun ..)
    · split
      case isTrue at_ => exact .inr (goes_here (.safetyPause at_) nofun ..)
      · exact .inl (stays_okNoChange ..)
  | estop =>
    simp only [call, estop]
    split
    case isTrue active => exact .inr (goes_here (.estop active) nofun ..)
    · exact .inl (stays_okNoChange ..)
  | ekfReset detail =>
    simp only [call, ekfReset]
    split
    case h_1 at_ => exact .inr (goes_here (.ekfReset (.inl at_)) nofun ..)
    case h_2 at_ => exact .inr (goes_here (.ekfReset (.inr at_)) nofun ..)
    case h_3 at_ => exact .inr (goes_here (.ekfPause (.inl at_)) nofun ..)
    case h_4 at_ => exact .inr (goes_here (.ekfPause (.inr (.inl at_))) nofun ..)
    case h_5 at_ => exact .inr (goes_here (.ekfPause (.inr (.inr at_))) nofun ..)
    · exact .inl (stays_okNoChange ..)
  | rppStale =>
    simp only [call, rppStale]
    split
    case isTrue at_ => exact .inr (goes_here (.rppStale at_) nofun ..)
    · exact .inl (stays_okNoChange ..)
  | rppPivotTimeout =>
    simp only [call, rppPivotTimeout]
    split
    case isTrue at_ => exact .inr (goes_here (.rppPivotTimeout at_) nofun ..)
    · exact .inl (stays_okNoChange ..)
  | rppAckTimeout gateOk guardReason =>
    simp only [call, rppAckTimeout]
    split
    · exact .inl (stays_okNoChange ..)
    case isFalse at_ =>
      rw [not_not] at at_
      cases gateOk with
      | true => exact .inr (goes_here (.rppAckTimeout at_) nofun ..)
      | false => exact .inr (goes_here (.rppAckTimeout at_) nofun ..)
  | skipPoint hasActivePoint =>
    simp only [call, skipPoint]
    split
    · exact .inl (stays_refuse ..)
    · split
      · exact .inl (stays_refuse ..)
      · exact .inl (stays_okNoChange ..)

end MissionFsm

end Dyx3.Mission
