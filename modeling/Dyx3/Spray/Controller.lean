import Dyx3.Spray.Fsm
import Dyx3.Spray.Params
import Dyx3.Spray.Watchdog

/-!
`SprayController` (dyx3_spray/spray_controller): the manual override, the mission lock, the gates that the state
machine reads directly, the debounce and the wire payload. What the geometry and its cuts decide in a tick, and the
modulated flow, come with the tick: nothing here restricts them.
-/

namespace Dyx3.Spray

open Lib

inductive MissionPhase where
  | idle | loading | ready | running | paused | completed | aborted | error
  | other (state : Nat)
  deriving DecidableEq, Repr

inductive RppState where
  | idle | tracking | stopping | pivoting | creeping | complete | error | loaded
  | other (state : Nat)
  deriving DecidableEq, Repr

inductive ManualResult where
  | ok | disabled | disarmed | watchdogNotReady | missionActive
  deriving DecidableEq, Repr

/-- What a tick's decision leaves for the debounce and the safety gate. -/
structure Decision where
  desired : Bool := false
  safetyOk : Bool := false
  safetyReason : String := ""
  deriving DecidableEq

structure ActuatorWire where
  backend : Int
  on : Bool
  actuatorSetIndex : Int
  value : Flt
  servoInstance : Int
  pwmUs : Int
  deriving DecidableEq

structure Controller where
  fsm : Fsm := {}
  commandedFlow : Option Flt := none
  lastDecision : Option Decision := none
  haveVeh : Bool := false
  armed : Bool := false
  offboard : Bool := false
  vehRecv : ℚ := 0
  estopKnown : Bool := false
  estopAsserted : Bool := true
  estopRecv : ℚ := 0
  wdKnown : Bool := false
  wdReady : Bool := false
  wdRecv : ℚ := 0
  missionRunning : Bool := false
  missionKnown : Bool := false
  missionPhase : MissionPhase := .idle
  missionId : Nat := 0
  rppKnown : Bool := false
  rppState : RppState := .idle
  rppMissionId : Nat := 0
  rppRecv : ℚ := 0
  manualActive : Bool := false
  manualDeadline : ℚ := 0
  desiredRaw : Bool := false
  desiredDebounced : Bool := false
  haveCandidate : Bool := false
  candidate : Bool := false
  candidateCount : Nat := 0
  shutDown : Bool := false
  lastTick : ℚ := 0

namespace Controller

def estopMaxAge : ℚ := 1 / 2

def noteVehicle (c : Controller) (armed offboard : Bool) (now : ℚ) : Controller :=
  { c with haveVeh := true, armed, offboard, vehRecv := now }

def noteRpp (c : Controller) (state : RppState) (missionId : Nat) (now : ℚ) : Controller :=
  { c with rppKnown := true, rppState := state, rppMissionId := missionId, rppRecv := now }

def noteEstop (c : Controller) (asserted : Bool) (now : ℚ) : Controller :=
  { c with estopKnown := true, estopAsserted := asserted, estopRecv := now }

def noteWatchdog (c : Controller) (alive offAuthorityReady : Bool) (now : ℚ) : Controller :=
  { c with wdKnown := true, wdReady := alive && offAuthorityReady, wdRecv := now }

/-- A new path, or none: the decision is forgotten and a machine in RECOVERY retries at once. -/
def loadPath (c : Controller) : Controller := { c with lastDecision := none, fsm := c.fsm.noteEventReset c.lastTick }

/-- Manual spray only while no mission owns the valve; closed before any mission state. -/
def manualLocked (c : Controller) : Bool :=
  if !c.missionKnown then true
  else match c.missionPhase with
    | .idle | .completed | .aborted | .error => false
    | _ => true

def setMission (c : Controller) (phase : MissionPhase) (missionId : Nat) : Controller :=
  let c := { c with missionKnown := true, missionPhase := phase }
  { c with
    manualActive := c.manualActive && !c.manualLocked
    missionRunning := phase = .running
    missionId }

def vehicleFresh (p : ParamSet) (c : Controller) (now : ℚ) : Bool :=
  c.haveVeh && decide (Flt.fin (now - c.vehRecv) ≤ Flt.max (.fin 0) (p.num .poseTimeoutS))

def estopClear (c : Controller) (now : ℚ) : Bool :=
  c.estopKnown && !c.estopAsserted && decide (now - c.estopRecv ≤ estopMaxAge)

/-- The reason autonomous spray has no owner; none when it has one. -/
def ownership (p : ParamSet) (c : Controller) (now : ℚ) : Option String :=
  if !c.missionRunning then some "mission not running"
  else if !c.rppKnown || !decide (Flt.fin (now - c.rppRecv) ≤ Flt.max (.fin 0) (p.num .rppTimeoutS)) then some "rpp stale"
  else if c.rppMissionId ≠ c.missionId then some "rpp mission mismatch"
  else match c.rppState with
    | .tracking | .stopping | .pivoting | .creeping => none
    | _ => some "rpp not marking"

/-- The reason the watchdog gate is closed; none when it is open. -/
def watchdogOk (p : ParamSet) (c : Controller) (now : ℚ) : Option String :=
  let age := now - c.wdRecv
  if !p.flag .sprayWatchdogRequired then none
  else if !c.wdKnown then some "spray safety watchdog heartbeat missing"
  else if Flt.max (.fin (1 / 10)) (p.num .sprayWatchdogTimeoutS) < .fin age then
    some ("spray safety watchdog stale (" ++ fixed 2 age ++ "s)")
  else if !c.wdReady then some "spray safety watchdog has not confirmed OFF authority"
  else none

def safetyAllowsOn (p : ParamSet) (c : Controller) (now : ℚ) : Bool :=
  if !p.flag .sprayEnabled then false
  else if !c.estopClear now then false
  else if !(c.vehicleFresh p now && c.armed) then false
  else if (c.watchdogOk p now).isSome then false
  else if c.manualActive then !c.manualLocked
  else if (c.ownership p now).isSome then false
  else !(p.flag .requireOffboard && !c.offboard)

/-- The reason the state machine must not keep an ON; none when it may. -/
def fsmSafetyOk (p : ParamSet) (c : Controller) (now : ℚ) : Option String :=
  if !c.estopClear now then some "emergency stop asserted or unknown"
  else if !(c.vehicleFresh p now && c.armed) then some "disarmed"
  else match c.watchdogOk p now with
    | some why => some why
    | none =>
      if c.manualActive && !c.manualLocked then none
      else match c.lastDecision with
        | some d => if d.safetyOk then none else some d.safetyReason
        | none => some "distance-aware safety not yet evaluated"

def effectiveDesired (c : Controller) : Bool := if c.manualActive then true else c.desiredDebounced

/-- Bench override, refused in this order. -/
def setManual (p : ParamSet) (c : Controller) (on : Bool) (now : ℚ) : Controller × ManualResult :=
  let ended := { c with manualActive := false }
  if !on then (ended, .ok)
  else if !p.flag .sprayEnabled then (ended, .disabled)
  else if !(c.vehicleFresh p now && c.armed) then (ended, .disarmed)
  else if (c.watchdogOk p now).isSome then (ended, .watchdogNotReady)
  else if c.manualLocked then (ended, .missionActive)
  else
    let timeout := Flt.max (.fin (1 / 2)) (p.num .manualOverrideTimeoutS)
    ({ c with manualActive := true, manualDeadline := now + timeout.toRat }, .ok)

/-- The hard expiry of the override, and the fail-safes that outrank it. -/
def expireManual (p : ParamSet) (c : Controller) (now : ℚ) : Controller :=
  if c.manualActive && (decide (c.manualDeadline ≤ now) || c.manualLocked || !c.safetyAllowsOn p now) then
    { c with manualActive := false }
  else c

/-- N identical samples in a row before the debounced desire follows. -/
def debounce (p : ParamSet) (c : Controller) (desired : Bool) : Controller :=
  let c :=
    if !c.haveCandidate || c.candidate ≠ desired then
      { c with desiredRaw := desired, candidate := desired, candidateCount := 1, haveCandidate := true }
    else { c with desiredRaw := desired, candidateCount := c.candidateCount + 1 }
  if max 1 (max 0 (p.integer .debounceSamples)) ≤ c.candidateCount then { c with desiredDebounced := c.candidate } else c

def driveFsm (p : ParamSet) (c : Controller) (now : ℚ) : Controller × Option SprayCommand :=
  let (fsm, out) := c.fsm.tick {} c.effectiveDesired (c.fsmSafetyOk p now).isNone (p.flag .sprayEnabled) now
  ({ c with fsm }, out)

def tick (p : ParamSet) (c : Controller) (now : ℚ) (d : Decision) (flow : Option Flt) :
    Controller × Option SprayCommand :=
  let c := c.expireManual p now
  let c := { c with lastTick := now, commandedFlow := flow, lastDecision := some d }
  (c.debounce p d.desired).driveFsm p now

def onAck (c : Controller) (seq : Nat) (success : Bool) (now : ℚ) : Controller × Option SprayCommand :=
  let (fsm, out) := c.fsm.onAck {} seq success now
  ({ c with fsm }, out)

def shutdown (c : Controller) (now : ℚ) : Controller × Option SprayCommand :=
  let (fsm, out) := (c.fsm.noteEventReset now).tick {} false false false now
  ({ c with
      fsm, desiredRaw := false, desiredDebounced := false, haveCandidate := false, candidateCount := 0
      manualActive := false, shutDown := true }, out)

def backend (p : ParamSet) : Int := if p.str .actuatorBackend = "mavlink_actuator" then 0 else 1

def wireFor (p : ParamSet) (c : Controller) (on : Bool) : ActuatorWire where
  backend := backend p
  on := on
  actuatorSetIndex := p.integer .actuatorSetIndex
  value := if on then c.commandedFlow.getD (p.num .onValue) else p.num .offValue
  servoInstance := p.integer .servoInstance
  pwmUs := p.integer (if on then .onPwmUs else .offPwmUs)

def reassertDue (p : ParamSet) (c : Controller) (now : ℚ) : Bool :=
  !c.shutDown && c.effectiveDesired && c.fsm.commanded && c.safetyAllowsOn p now

def lease (p : ParamSet) (c : Controller) (now : ℚ) : Lease where
  allowOn := !c.shutDown && c.effectiveDesired && (c.fsmSafetyOk p now).isNone && p.flag .sprayEnabled && c.fsm.commanded
  commandSeq := c.fsm.seq
  backend := backend p
  actuatorSetIndex := p.integer .actuatorSetIndex
  offValue := p.num .offValue
  servoInstance := p.integer .servoInstance
  offPwmUs := p.integer .offPwmUs

end Controller

end Dyx3.Spray
