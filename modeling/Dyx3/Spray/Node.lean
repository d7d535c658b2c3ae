import Dyx3.Px4Link.SprayTransactions
import Dyx3.Spray.Controller

/-!
`SprayNode` (dyx3_spray/spray_node): the callbacks around the controller, with every command it has published.
Whether a conditioned artifact can be read for the mission's source comes with the call that loads it.
-/

namespace Dyx3.Spray

open Lib Px4Link

structure Node where
  params : ParamSet
  ctl : Controller := {}
  loadedSha : String := ""
  missionSourceSha : String := ""
  rppConditionedSha : String := ""
  rppMissionId : Nat := 0
  missionId : Nat := 0
  missionRunning : Bool := false
  nextReassert : ℚ := 0
  /-- The commands published so far, newest first. -/
  published : List SprayActuatorCommand := []

namespace Node

/-- The payload is read from the parameters when the command is published, and cast to the field widths. -/
def command (s : Node) (seq : Nat) (on : Bool) : SprayActuatorCommand :=
  let w := s.ctl.wireFor s.params on
  { seq
    source := sourceController
    backend := (w.backend % 2 ^ 8).toNat
    on
    actuatorSetIndex := (w.actuatorSetIndex % 2 ^ 8).toNat
    value := w.value
    servoInstance := (w.servoInstance % 2 ^ 8).toNat
    pwmUs := (w.pwmUs % 2 ^ 16).toNat }

def publishCommand (s : Node) (seq : Nat) (on : Bool) : Node :=
  { s with published := s.command seq on :: s.published }

/-- What a call of the controller answers is published at once. -/
def answer (s : Node) (r : Controller × Option SprayCommand) : Node :=
  match r.2 with
  | some c => { s with ctl := r.1 }.publishCommand c.seq c.on
  | none => { s with ctl := r.1 }

/-- An ON that is commanded already is sent again at `reassert_hz`. -/
def reassert (s : Node) (now : ℚ) : Node :=
  let hz := s.params.num .reassertHz
  if .fin 0 < hz ∧ s.nextReassert ≤ now ∧ s.ctl.reassertDue s.params now = true then
    { s with nextReassert := now + (Flt.fin 1 / hz).toRat }.publishCommand s.ctl.fsm.seq true
  else s

def step (s : Node) (now : ℚ) (d : Decision) (flow : Option Flt) : Node :=
  (s.answer (s.ctl.tick s.params now d flow)).reassert now

def loadArtifact (s : Node) (sha : String) (loads : Bool) : Node :=
  { s with loadedSha := if loads then sha else "", ctl := s.ctl.loadPath }

def clearPath (s : Node) : Node := { s with loadedSha := "", ctl := s.ctl.loadPath }

def onMissionState (s : Node) (phase : MissionPhase) (missionId : Nat) (sha : String) (loads : Bool) : Node :=
  let s := { s with
    missionRunning := phase = .running
    missionId
    ctl := s.ctl.setMission phase missionId
    missionSourceSha := sha }
  if sha = "" then s.clearPath
  else if s.rppMissionId ≠ s.missionId ∨ s.rppConditionedSha = "" then s.clearPath
  else if s.rppConditionedSha ≠ s.loadedSha then s.loadArtifact s.rppConditionedSha loads
  else s

def onRppStatus (s : Node) (state : RppState) (missionId : Nat) (sha : String) (loads : Bool) (now : ℚ) : Node :=
  let s := { s with rppMissionId := missionId, rppConditionedSha := sha }
  let s :=
    if s.missionRunning ∧ s.missionId = missionId ∧ sha ≠ "" ∧ s.loadedSha ≠ sha then s.loadArtifact sha loads else s
  { s with ctl := s.ctl.noteRpp state missionId now }

/-- The parameter callback: every name is looked up before the batch is tried. -/
def onSetParameters (s : Node) (items : List Item) : Except String ParamSet :=
  let items := items.filter fun it => it.name ≠ "use_sim_time"
  match items.find? fun it => (findIndex it.name).isNone with
  | some it => .error ("unknown parameter " ++ it.name)
  | none => s.params.setMany items s.missionRunning

inductive Event where
  | step (now : ℚ) (d : Decision) (flow : Option Flt)
  | ack (a : SprayActuatorAck) (now : ℚ)
  | setManual (on : Bool) (now : ℚ) (d : Decision) (flow : Option Flt)
  | setParameters (items : List Item)
  | missionState (phase : MissionPhase) (missionId : Nat) (sha : String) (loads : Bool)
  | rppStatus (state : RppState) (missionId : Nat) (sha : String) (loads : Bool) (now : ℚ)
  | vehicle (armed offboard : Bool) (now : ℚ)
  | estop (asserted : Bool) (now : ℚ)
  | watchdog (alive offAuthorityReady : Bool) (now : ℚ)
  | shutdown (now : ℚ)
  deriving DecidableEq

/-- The lease a call publishes and what a service caller hears. -/
structure Reply where
  lease : Option Lease := none
  manual : Option ManualResult := none
  refused : Option String := none
  deriving DecidableEq

def publishLease (s : Node) (now : ℚ) : Node × Reply := (s, { lease := some (s.ctl.lease s.params now) })

def handle (s : Node) : Event → Node × Reply
  | .step now d flow => (s.step now d flow).publishLease now
  | .ack a now =>
    if a.source ≠ sourceController then (s, {}) else (s.answer (s.ctl.onAck a.seq a.success now), {})
  | .setManual on now d flow =>
    let (ctl, r) := s.ctl.setManual s.params on now
    let (s, reply) := ({ s with ctl }.step now d flow).publishLease now  -- act at once, do not wait for the next tick
    (s, { reply with manual := some r })
  | .setParameters items =>
    match s.onSetParameters items with
    | .ok params => ({ s with params }, {})
    | .error why => (s, { refused := some why })
  | .missionState phase missionId sha loads => (s.onMissionState phase missionId sha loads, {})
  | .rppStatus state missionId sha loads now => (s.onRppStatus state missionId sha loads now, {})
  | .vehicle armed offboard now => ({ s with ctl := s.ctl.noteVehicle armed offboard now }, {})
  | .estop asserted now => ({ s with ctl := s.ctl.noteEstop asserted now }, {})
  | .watchdog alive ready now => ({ s with ctl := s.ctl.noteWatchdog alive ready now }, {})
  | .shutdown now => (s.answer (s.ctl.shutdown now)).publishLease now

abbrev Record := Entry Event Reply

end Node

end Dyx3.Spray
