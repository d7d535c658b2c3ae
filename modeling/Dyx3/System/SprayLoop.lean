import Dyx3.Px4Link.SprayCases
import Dyx3.Spray.Fsm
import Dyx3.Spray.Watchdog

/-!
The spray loop: the controller's state machine with its reasserts, the watchdog, the transactions of px4_link and
PX4, joined by their messages. Messages of one sender arrive in order; any of them may be late or lost. Acks of the
FCU come from the commands it was sent or from anywhere. What the controller's inputs and the payload of its commands
are is left open.
-/

namespace Dyx3.System

open Lib Px4Link Spray

/-- The payload of a command as `wire_for` reads it from the parameters. -/
structure Output where
  backend : Nat := backendActuator
  actuatorSetIndex : Nat := 1
  value : Flt := .fin 1
  servoInstance : Nat := 1
  pwmUs : Nat := 0
  deriving DecidableEq

/-- `SprayNode::publish_command`. -/
def controllerMessage (seq : Nat) (on : Bool) (o : Output) : SprayActuatorCommand where
  seq := seq
  source := sourceController
  backend := o.backend
  on := on
  actuatorSetIndex := o.actuatorSetIndex
  value := o.value
  servoInstance := o.servoInstance
  pwmUs := o.pwmUs

/-- `SafetyWatchdogNode::send`, with the casts to the message's field widths. -/
def watchdogMessage (c : OffCommand) : SprayActuatorCommand where
  seq := c.seq
  source := sourceWatchdog
  backend := (c.mapping.backend % 2 ^ 8).toNat
  on := false
  actuatorSetIndex := (c.mapping.actuatorSetIndex % 2 ^ 8).toNat
  value := c.mapping.offValue
  servoInstance := (c.mapping.servoInstance % 2 ^ 8).toNat
  pwmUs := (c.mapping.offPwmUs % 2 ^ 16).toNat

structure Params where
  fsm : FsmParams := {}
  watchdog : WatchdogParams := {}
  transactionTimeout : ℚ := 3 / 10

structure Loop where
  fsm : Fsm := {}
  wd : Watchdog := {}
  link : SprayLink
  toLink : List SprayActuatorCommand := []
  wdToLink : List SprayActuatorCommand := []
  toFsm : List SprayActuatorAck := []
  toWd : List SprayActuatorAck := []
  /-- Commands PX4 has not acknowledged yet, oldest first. -/
  px4 : List SprayPending := []
  /-- Every command published so far, newest first. -/
  published : List SprayPending := []
  clock : ℚ := 0

namespace Loop

inductive Channel where
  | toLink | wdToLink | toFsm | toWd | px4
  deriving DecidableEq

inductive Action where
  | tick (desired safetyOk enabled : Bool) (output : Output)
  | eventReset
  | reassert (output : Output)
  | fsmAck (output : Output)
  | wdTick
  | wdLease (lease : Lease)
  | wdAck
  | wdShutdown
  | deliver (linkOk persistOk : Bool)
  | deliverWd (linkOk persistOk : Bool)
  | px4Ack (linkOk persistOk : Bool)
  | strayAck (ack : VehicleCommandAck) (linkOk persistOk : Bool)
  | service (linkOk persistOk : Bool)
  | lose (channel : Channel) (index : Nat)
  deriving DecidableEq

structure Event where
  now : ℚ
  action : Action
  deriving DecidableEq

/-- Nothing is lost and every ack comes from PX4. -/
def Event.lossless (e : Event) : Bool :=
  match e.action with
  | .lose .. | .strayAck .. => false
  | _ => true

/-- A call of the controller: what its state machine answers goes to the link. -/
def control (p : Params) (s : Loop) (e : Fsm.Event) (o : Output) : Loop :=
  let (fsm, out) := s.fsm.step p.fsm e
  { s with fsm, toLink := s.toLink ++ (out.map fun c => controllerMessage c.seq c.on o).toList }

/-- The heartbeat of an ON that is already commanded: no transition, the current seq. -/
def reassert (s : Loop) (o : Output) : Loop :=
  if s.fsm.commanded then { s with toLink := s.toLink ++ [controllerMessage s.fsm.seq true o] } else s

def watch (p : Params) (s : Loop) (wd : Watchdog) (now : ℚ) : Loop :=
  let (wd, out) := wd.tick p.watchdog now
  { s with wd, wdToLink := s.wdToLink ++ (out.map watchdogMessage).toList }

def acksFor (source : Nat) : List SprayOut → List SprayActuatorAck
  | [] => []
  | .ack a :: outs => if a.source = source then a :: acksFor source outs else acksFor source outs
  | .command _ :: outs => acksFor source outs

/-- Each receiver of the ack topic keeps the acks of its own source. -/
def absorb (s : Loop) (r : SprayLink × List SprayOut) : Loop :=
  { s with
    link := r.1
    toFsm := s.toFsm ++ acksFor sourceController r.2
    toWd := s.toWd ++ acksFor sourceWatchdog r.2
    px4 := s.px4 ++ SprayLink.commands r.2
    published := (SprayLink.commands r.2).reverse ++ s.published }

/-- A PX4 that accepts the command; it echoes the source identity as the target. -/
def accept (w : SprayPending) : VehicleCommandAck :=
  ⟨w.vehicleCommand.command, resultAccepted, w.vehicleCommand.sourceSystem, w.vehicleCommand.sourceComponent⟩

def lose (s : Loop) : Channel → Nat → Loop
  | .toLink, i => { s with toLink := s.toLink.eraseIdx i }
  | .wdToLink, i => { s with wdToLink := s.wdToLink.eraseIdx i }
  | .toFsm, i => { s with toFsm := s.toFsm.eraseIdx i }
  | .toWd, i => { s with toWd := s.toWd.eraseIdx i }
  | .px4, i => { s with px4 := s.px4.eraseIdx i }

def act (p : Params) (s : Loop) (now : ℚ) : Action → Loop
  | .tick desired safetyOk enabled o => s.control p (.tick desired safetyOk enabled now) o
  | .eventReset => s.control p (.eventReset now) {}
  | .reassert o => s.reassert o
  | .fsmAck o =>
    match s.toFsm with
    | [] => s
    | a :: rest => { s with toFsm := rest }.control p (.ack a.seq a.success now) o
  | .wdTick => s.watch p s.wd now
  | .wdLease l => { s with wd := s.wd.onLease p.watchdog l now }
  | .wdAck =>
    match s.toWd with
    | [] => s
    | a :: rest => { s with wd := s.wd.onAck p.watchdog a.seq a.success, toWd := rest }
  | .wdShutdown => s.watch p s.wd.beginShutdown now
  | .deliver linkOk persistOk =>
    match s.toLink with
    | [] => s
    | m :: rest => { s with toLink := rest }.absorb (s.link.onSprayCommand m ⟨linkOk, persistOk, now⟩)
  | .deliverWd linkOk persistOk =>
    match s.wdToLink with
    | [] => s
    | m :: rest => { s with wdToLink := rest }.absorb (s.link.onSprayCommand m ⟨linkOk, persistOk, now⟩)
  | .px4Ack linkOk persistOk =>
    match s.px4 with
    | [] => s
    | w :: rest => { s with px4 := rest }.absorb (s.link.onVehicleCommandAck (accept w) ⟨linkOk, persistOk, now⟩)
  | .strayAck a linkOk persistOk => s.absorb (s.link.onVehicleCommandAck a ⟨linkOk, persistOk, now⟩)
  | .service linkOk persistOk =>
    s.absorb (s.link.serviceSprayTransactions ⟨linkOk, persistOk, now⟩ p.transactionTimeout)
  | .lose channel i => s.lose channel i

def step (p : Params) (s : Loop) (e : Event) : Loop × Unit :=
  ({ s.act p e.now e.action with clock := e.now }, ())

/-- Everything at its start-up values, with `index` in the ledger of ack identities. -/
def start (index : Nat) : Loop := { link := { tokens := .load index } }

/-- No message on its way, and nothing queued or in flight in px4_link. -/
def Quiet (s : Loop) : Prop :=
  s.toLink = [] ∧ s.wdToLink = [] ∧ s.toFsm = [] ∧ s.toWd = [] ∧ s.px4 = [] ∧ s.link.queue = [] ∧
    s.link.inflight = none

instance (s : Loop) : Decidable s.Quiet := inferInstanceAs (Decidable (_ ∧ _))

end Loop

end Dyx3.System
