import Dyx3.Px4Link.Commands
import Dyx3.Px4Link.Offboard

/-!
The arm and OFFBOARD side of `Px4LinkNode` (dyx3_px4_link/px4_link_node): the arm and set_offboard
services, vehicle_status, the acknowledgements of both commands and the writer cycle `step`.

The clock, the link's health and the handshake generation come with the events. A command to PX4 names the
service request it is published for. Topic monitoring, spray transactions and telemetry are not part
of this model.
-/

namespace Dyx3.Px4Link

open Lib

def navStateOffboard : Nat := 14
def armed : Nat := 2
def mainModeManual : ℚ := 1
def mainModeOffboard : ℚ := 6
def leaveOffboardRetry : ℚ := 1 / 2
def leaveOffboardTimeout : ℚ := 3 / 2
def linkSystemId : Nat := 1
def linkComponentId : Nat := 1

inductive ArmReason where
  | ok | linkUnhealthy | rejectedByFcu | timeout
  deriving DecidableEq, Repr

inductive OffReason where
  | ok | linkUnhealthy | notArmedOrRejected
  deriving DecidableEq, Repr

structure NodeParams where
  timing : OffboardTiming := {}
  publishRate : ℚ := 100
  eventDriven : Bool := true
  armConfirmTimeout : ℚ := 2
  staleVehicleStatus : ℚ := 1
  ulogStreamingEnabled : Bool := false

/-- A service request that is not answered yet; `header` is the middleware's request id. -/
structure Pending where
  isArm : Bool := true
  armTarget : Bool := false
  armAfterLeaveOffboard : Bool := false
  header : Nat
  deadline : ℚ := 0
  cmdSent : Bool := false
  cmdSentAt : ℚ := 0
  fcuAccepted : Bool := false
  deriving DecidableEq

/-- An arm request that waits for PX4 to leave OFFBOARD. -/
def Pending.parked (p : Pending) : Bool := p.isArm && p.armAfterLeaveOffboard

inductive Out where
  | setpointSet (stop : Bool)
  | vehicleCommand (command : Nat) (param1 param2 : ℚ) (request : Option Nat)
  | armResponse (header : Nat) (accepted : Bool) (reason : ArmReason)
  | offResponse (header : Nat) (accepted : Bool) (reason : OffReason)
  deriving DecidableEq

structure Node where
  pending : List Pending := []
  offboard : OffboardSession := {}
  armingState : Nat := 0
  navState : Nat := 0
  statusAt : ℚ := -10 ^ 18
  navOffboard : Bool := false
  leaveUntil : ℚ := -10 ^ 18
  leaveSent : ℚ := -10 ^ 18
  lastStep : ℚ := -1
  lastHeartbeatPublished : Bool := false
  shuttingDown : Bool := false
  ulogStarted : Bool := false
  lastUlogGen : Nat := 2 ^ 64 - 1
  deriving DecidableEq

namespace Node

/-- A repeated request extends the window. -/
def requestLeaveOffboard (p : NodeParams) (n : Node) (now : ℚ) : Node :=
  { n with leaveUntil := now + leaveOffboardTimeout + p.timing.disableStop }

def arm (p : NodeParams) (n : Node) (header : Nat) (target : Bool) (now : ℚ) (healthy : Bool) : Node × List Out :=
  if target && !healthy then (n, [.armResponse header false .linkUnhealthy])
  else if target && n.navOffboard && n.offboard.state = .disabled then
    let n := n.requestLeaveOffboard p now
    ({ n with pending := n.pending ++ [{
        armTarget := target, header, armAfterLeaveOffboard := true, deadline := now + leaveOffboardTimeout }] }, [])
  else
    ({ n with pending := n.pending ++ [{
        armTarget := target, header, cmdSent := true, cmdSentAt := now, deadline := now + p.armConfirmTimeout }] },
      [.vehicleCommand cmdArmDisarm (if target then 1 else 0) 0 (some header)])

def setOffboard (p : NodeParams) (n : Node) (header : Nat) (enable : Bool) (now : ℚ) (healthy : Bool) :
    Node × List Out :=
  if !enable then
    ({ n with offboard := n.offboard.enable p.timing false now }.requestLeaveOffboard p now,
      [.offResponse header true .ok])
  else if !healthy then (n, [.offResponse header false .linkUnhealthy])
  else
    ({ n with
      offboard := n.offboard.enable p.timing true now
      pending := n.pending ++ [{
        isArm := false, header, deadline := now + p.timing.prestream + p.timing.confirmTimeout + 1 }] }, [])

def noteModeCommandPublished (n : Node) (offboard : Bool) (now : ℚ) : Node :=
  { n with pending := n.pending.map fun p =>
      if p.isArm then p
      else { p with
        cmdSent := offboard
        cmdSentAt := if offboard then now else p.cmdSentAt
        fcuAccepted := false } }

def eligible (isArmAck : Bool) (now : ℚ) (p : Pending) : Bool :=
  p.isArm == isArmAck && p.cmdSent && !p.fcuAccepted && p.cmdSentAt ≤ now

/-- The oldest arm request still waiting for its ack takes it: accepted marks it, a refusal answers it. -/
def takeArmAck (accepted : Bool) (now : ℚ) : List Pending → List Pending × List Out
  | [] => ([], [])
  | p :: rest =>
    if eligible true now p then
      if accepted then ({ p with fcuAccepted := true } :: rest, [])
      else (rest, [.armResponse p.header false .rejectedByFcu])
    else
      let (rest, out) := takeArmAck accepted now rest
      (p :: rest, out)

def onArmModeCommandAck (n : Node) (a : VehicleCommandAck) (now : ℚ) : Node × List Out :=
  if a.targetSystem ≠ linkSystemId ∨ a.targetComponent ≠ linkComponentId then (n, [])
  else
    let accepted := a.result == resultAccepted
    if a.command = cmdArmDisarm then
      let (pending, out) := takeArmAck accepted now n.pending
      ({ n with pending }, out)
    else if !n.pending.any (eligible false now) then (n, [])
    else if accepted then
      ({ n with pending := n.pending.map fun p => if eligible false now p then { p with fcuAccepted := true } else p },
        [])
    else
      let (offboard, failed) := n.offboard.failRequested
      if !failed then (n, [])
      else
        ({ n with offboard, pending := n.pending.filter fun p => !eligible false now p },
          (n.pending.filter (eligible false now)).map fun p => .offResponse p.header false .notArmedOrRejected)

/-- The spray commands' acks are handled by the spray transactions. -/
def onVehicleCommandAck (n : Node) (a : VehicleCommandAck) (now : ℚ) : Node × List Out :=
  if a.result = resultInProgress then (n, [])
  else if a.command = cmdArmDisarm ∨ a.command = cmdDoSetMode then n.onArmModeCommandAck a now
  else (n, [])

def startUlogIfDue (p : NodeParams) (n : Node) (linkOk : Bool) (generation : Nat) : Node × List Out :=
  if !p.ulogStreamingEnabled || !linkOk then (n, [])
  else if n.ulogStarted && n.lastUlogGen = generation then (n, [])
  else ({ n with ulogStarted := true, lastUlogGen := generation }, [.vehicleCommand cmdLoggingStart 0 0 none])

/-- One turn of the loop over the pending requests: what becomes of the request, and what is sent. -/
def serviceOne (p : NodeParams) (n : Node) (now : ℚ) (linkHealthy : Bool) (ofb : OffboardStep) (it : Pending) :
    Option Pending × List Out :=
  if it.parked then
    if !n.navOffboard then
      (some { it with
          armAfterLeaveOffboard := false, cmdSent := true, cmdSentAt := now, deadline := now + p.armConfirmTimeout },
        [.vehicleCommand cmdArmDisarm 1 0 (some it.header)])
    else if it.deadline < now then (none, [.armResponse it.header false .timeout])
    else (some it, [])
  else if it.isArm then
    let fresh := now - n.statusAt ≤ p.staleVehicleStatus
    if fresh && (decide (n.armingState = armed) == it.armTarget) && n.armingState ≠ 0 then
      (none, [.armResponse it.header true .ok])
    else if it.deadline < now then (none, [.armResponse it.header false .timeout])
    else (some it, [])
  else if ofb.state = .active then (none, [.offResponse it.header true .ok])
  else if ofb.state = .failed ∨ ofb.state = .lost then (none, [.offResponse it.header false .notArmedOrRejected])
  else if ofb.state = .disabled ∨ linkHealthy = false ∨ it.deadline < now then
    (none, [.offResponse it.header false .linkUnhealthy])
  else (some it, [])

def servicePending (p : NodeParams) (n : Node) (now : ℚ) (linkHealthy : Bool) (ofb : OffboardStep) :
    Node × List Out :=
  ({ n with pending := n.pending.filterMap fun it => (n.serviceOne p now linkHealthy ofb it).1 },
    n.pending.flatMap fun it => (n.serviceOne p now linkHealthy ofb it).2)

/-- While a release is wanted, the heartbeat is off and PX4 still reports OFFBOARD, MANUAL is requested. -/
def leaveOffboard (n : Node) (now : ℚ) (linkOk : Bool) (ofb : OffboardStep) : Node × List Out :=
  if now ≤ n.leaveUntil then
    if !n.navOffboard then ({ n with leaveUntil := -10 ^ 18 }, [])
    else if !ofb.publishHeartbeat && linkOk && leaveOffboardRetry - 1 / 10 ^ 9 ≤ now - n.leaveSent then
      ({ n.noteModeCommandPublished false now with leaveSent := now },
        [.vehicleCommand cmdDoSetMode 1 mainModeManual none])
    else (n, [])
  else (n, [])

def askOffboard (n : Node) (now : ℚ) (ofb : OffboardStep) : Node × List Out :=
  if ofb.sendModeCommand then
    (n.noteModeCommandPublished true now, [.vehicleCommand cmdDoSetMode 1 mainModeOffboard none])
  else (n, [])

/-- A fresh vehicle_status reports OFFBOARD. -/
def seesOffboard (p : NodeParams) (n : Node) (now : ℚ) : Bool :=
  now - n.statusAt ≤ p.staleVehicleStatus ∧ n.navState = navStateOffboard

/-- The session's part of a writer cycle. -/
def stepOffboard (p : NodeParams) (n : Node) (now : ℚ) (linkOk : Bool) : Node × OffboardStep :=
  let nav := n.seesOffboard p now
  let (offboard, ofb) := n.offboard.step p.timing now linkOk nav
  ({ n with lastStep := now, navOffboard := nav, offboard, lastHeartbeatPublished := ofb.publishHeartbeat }, ofb)

/-- A writer cycle at a usable time. -/
def cycle (p : NodeParams) (n : Node) (now : ℚ) (linkOk : Bool) (generation : Nat) : Node × List Out :=
  let (n, ofb) := n.stepOffboard p now linkOk
  let beat := if ofb.publishHeartbeat then [Out.setpointSet ofb.stopOnly] else []
  let (n, asked) := n.askOffboard now ofb
  let (n, left) := n.leaveOffboard now linkOk ofb
  let (n, logged) := n.startUlogIfDue p linkOk generation
  let (n, served) := n.servicePending p now linkOk ofb
  (n, beat ++ asked ++ left ++ logged ++ served)

/-- `now` is none when the clock reading is not finite. -/
def step (p : NodeParams) (n : Node) (now : Option ℚ) (linkOk : Bool) (generation : Nat) : Node × List Out :=
  if n.shuttingDown then (n, [])
  else match now with
    | none => (n, [.setpointSet true])
    | some now =>
      if now < 0 ∨ (0 ≤ n.lastStep ∧ now < n.lastStep) then (n, [.setpointSet true])
      else n.cycle p now linkOk generation

def onTimer (p : NodeParams) (n : Node) (now : Option ℚ) (linkOk : Bool) (generation : Nat) : Node × List Out :=
  match now with
  | none => n.step p none linkOk generation
  | some t =>
    if p.eventDriven ∧ 0 ≤ n.lastStep ∧ n.lastStep ≤ t ∧ t - n.lastStep < 1 / 2 / p.publishRate then (n, [])
    else n.step p now linkOk generation

def publishShutdownStop (n : Node) (handshakeOk : Bool) : Node × List Out :=
  if !n.lastHeartbeatPublished || !handshakeOk then (n, [])
  else ({ n with shuttingDown := true }, [.setpointSet true])

inductive Event where
  | arm (header : Nat) (target : Bool) (now : ℚ) (healthy : Bool)
  | setOffboard (header : Nat) (enable : Bool) (now : ℚ) (healthy : Bool)
  | vehicleStatus (armingState navState : Nat) (now : ℚ)
  | commandAck (ack : VehicleCommandAck) (now : ℚ)
  | step (now : Option ℚ) (linkOk : Bool) (generation : Nat)
  | timer (now : Option ℚ) (linkOk : Bool) (generation : Nat)
  | shutdownStop (handshakeOk : Bool)
  deriving DecidableEq

def handle (p : NodeParams) (n : Node) : Event → Node × List Out
  | .arm header target now healthy => n.arm p header target now healthy
  | .setOffboard header enable now healthy => n.setOffboard p header enable now healthy
  | .vehicleStatus armingState navState now => ({ n with armingState, navState, statusAt := now }, [])
  | .commandAck ack now => n.onVehicleCommandAck ack now
  | .step now linkOk generation => n.step p now linkOk generation
  | .timer now linkOk generation => n.onTimer p now linkOk generation
  | .shutdownStop handshakeOk => n.publishShutdownStop handshakeOk

abbrev Record := Entry Event (List Out)

end Node

end Dyx3.Px4Link
