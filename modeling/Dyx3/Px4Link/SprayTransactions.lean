import Mathlib.Data.List.AList
import Dyx3.Lib.Flt
import Dyx3.Lib.Run
import Dyx3.Px4Link.Commands
import Dyx3.Px4Link.AckTokens

/-!
The spray transactions of `Px4LinkNode` (dyx3_px4_link/px4_link_node): one request in flight, a queue behind it, and
per producer the last dispatched and the last confirmed request. The state of the link, the clock and the
outcome of a ledger write come with the events; message stamps are left out.
-/

namespace Dyx3.Px4Link

open Lib

def sourceController : Nat := 0
def sourceWatchdog : Nat := 1
def backendActuator : Nat := 0
def backendServoPwm : Nat := 1
def resultLinkRefused : Nat := 255
def maxSprayTransactions : Nat := 16

structure SprayActuatorCommand where
  seq : Nat
  source : Nat := sourceController
  backend : Nat := backendActuator
  on : Bool
  actuatorSetIndex : Nat := 1
  value : Flt := .fin 0
  servoInstance : Nat := 0
  pwmUs : Nat := 0
  deriving DecidableEq

structure SprayActuatorAck where
  seq : Nat
  source : Nat
  success : Bool
  result : Nat
  deriving DecidableEq

structure VehicleCommand where
  command : Nat
  param1 : Flt
  param2 : Flt
  param3 : Flt
  param4 : Flt
  param5 : Flt
  param6 : Flt
  param7 : Flt := .fin 0
  targetSystem : Nat := 1
  targetComponent : Nat := 1
  sourceSystem : Nat := 1
  sourceComponent : Nat := 0
  fromExternal : Bool := true
  deriving DecidableEq

structure SprayPending extends SprayActuatorCommand where
  vehicleCommand : VehicleCommand
  command : Nat
  ackToken : Nat := 0
  ackSystem : Nat := 0
  sent : ℚ := 0
  deriving DecidableEq

def sameFloat (a b : Flt) : Bool := a.same b || (a.isNan && b.isNan)

/-- The wire fields are compared as well, the source component and the ack identity are not. -/
def sameSprayTransaction (a b : SprayPending) : Bool :=
  let l := a.vehicleCommand
  let r := b.vehicleCommand
  a.source = b.source && a.seq = b.seq && a.on = b.on && a.backend = b.backend &&
    a.actuatorSetIndex = b.actuatorSetIndex && sameFloat a.value b.value && a.servoInstance = b.servoInstance &&
    a.pwmUs = b.pwmUs && a.command = b.command && l.targetSystem = r.targetSystem &&
    l.targetComponent = r.targetComponent && l.sourceSystem = r.sourceSystem && l.fromExternal = r.fromExternal &&
    sameFloat l.param1 r.param1 && sameFloat l.param2 r.param2 && sameFloat l.param3 r.param3 &&
    sameFloat l.param4 r.param4 && sameFloat l.param5 r.param5 && sameFloat l.param6 r.param6 &&
    sameFloat l.param7 r.param7

/-- The VehicleCommand of a request, before an identity is assigned; none when the mapping is refused. -/
def translateWire (m : SprayActuatorCommand) : Option VehicleCommand :=
  let slot (i : Nat) : Flt := if m.actuatorSetIndex = i then m.value else .nan
  if m.backend = backendServoPwm then
    some {
      command := cmdDoSetServo, param1 := .fin m.servoInstance, param2 := .fin (min m.pwmUs 2200 : Nat)
      param3 := .fin 0, param4 := .fin 0, param5 := .fin 0, param6 := .fin 0 }
  else if m.backend = backendActuator ∧ 1 ≤ m.actuatorSetIndex ∧ m.actuatorSetIndex ≤ 6 ∧ m.value.isFinite then
    some {
      command := cmdDoSetActuator, param1 := slot 1, param2 := slot 2, param3 := slot 3, param4 := slot 4
      param5 := slot 5, param6 := slot 6 }
  else none

def translate (m : SprayActuatorCommand) : Option SprayPending :=
  (translateWire m).map fun wire => { m with vehicleCommand := wire, command := wire.command }

/-- What px4_link publishes: a VehicleCommand, named by the request it carries, or an ack. -/
inductive SprayOut where
  | command (request : SprayPending)
  | ack (ack : SprayActuatorAck)
  deriving DecidableEq

abbrev BySource := AList (fun _ : Nat => SprayPending)

structure SprayLink where
  tokens : AckTokens
  queue : List SprayPending := []
  inflight : Option SprayPending := none
  epochs : BySource := ∅
  barredOn : Option SprayPending := none
  confirmed : BySource := ∅
  lateAckCount : Nat := 0

namespace SprayLink

def refuse (seq source : Nat) : SprayOut := .ack ⟨seq, source, false, resultLinkRefused⟩

def isWatchdogOff (m : SprayActuatorCommand) : Bool := m.source = sourceWatchdog && !m.on

def isControllerOn (m : SprayActuatorCommand) : Bool := m.source = sourceController && m.on

/-- The environment of a call: the link as the handshake and the session report it, the outcome of a
ledger write, and the clock. -/
structure Env where
  linkOk : Bool := true
  persistOk : Bool := true
  now : ℚ := 0
  deriving DecidableEq

/-- Give the request its identity: the one it has kept from its epoch, or a new one. -/
def identify (tokens : AckTokens) (persistOk : Bool) (r : SprayPending) : AckTokens × SprayPending :=
  if r.ackToken = 0 then
    match tokens.reserve persistOk with
    | (tokens, some id) => (tokens, { r with ackSystem := id.system, ackToken := id.component })
    | (tokens, none) => (tokens, r)
  else (tokens, r)

/-- The request as it goes on the wire. -/
def stampWire (r : SprayPending) (now : ℚ) : SprayPending :=
  { r with
    vehicleCommand := { r.vehicleCommand with sourceSystem := r.ackSystem, sourceComponent := r.ackToken }
    sent := now }

def dispatchNext (s : SprayLink) (env : Env) : SprayLink × List SprayOut :=
  if s.inflight.isSome || !env.linkOk then (s, [])
  else match s.queue with
    | [] => (s, [])
    | r :: rest =>
      match identify s.tokens env.persistOk r with
      | (tokens, r) =>
        if r.ackToken = 0 then ({ s with queue := rest, tokens }, [refuse r.seq r.source])
        else
          let wire := stampWire r env.now
          ({ s with queue := rest, tokens, epochs := s.epochs.insert r.source wire, inflight := some wire },
            [.command wire])

/-- A watchdog OFF retires the controller ON it displaces. -/
def retire (s : SprayLink) (r : SprayPending) : SprayLink :=
  if isWatchdogOff r.toSprayActuatorCommand then
    match s.epochs.lookup sourceController with
    | some e => if e.on then { s with barredOn := some e } else s
    | none => s
  else s

def barred (s : SprayLink) (r : SprayPending) : Bool :=
  isControllerOn r.toSprayActuatorCommand && s.barredOn.any (sameSprayTransaction · r)

/-- A controller ON that is not the retired one ends the bar. -/
def clearBar (s : SprayLink) (r : SprayPending) : SprayLink :=
  if isControllerOn r.toSprayActuatorCommand then { s with barredOn := none } else s

/-- An ON is ignored while a watchdog OFF waits for or is receiving its proof. -/
def blocked (s : SprayLink) (r : SprayPending) : Bool :=
  r.on && (s.inflight.any (isWatchdogOff ·.toSprayActuatorCommand) ||
    s.queue.any (isWatchdogOff ·.toSprayActuatorCommand))

/-- The answer to another physical send of a request that is in flight, queued or confirmed. -/
def reassert (s : SprayLink) (r : SprayPending) : Option (List SprayOut) :=
  match s.inflight.filter (sameSprayTransaction · r) with
  | some i => some [.command i]
  | none =>
    if s.queue.any (sameSprayTransaction · r) then some []
    else match (s.confirmed.lookup r.source).filter (sameSprayTransaction · r) with
      | some c => some [.command c]
      | none => none

/-- The identity of the source's epoch is kept for an exact repeat, otherwise the epoch ends. -/
def adopt (s : SprayLink) (r : SprayPending) : SprayLink × SprayPending :=
  match s.epochs.lookup r.source with
  | some e =>
    if sameSprayTransaction e r then (s, { r with ackToken := e.ackToken, ackSystem := e.ackSystem })
    else ({ s with epochs := s.epochs.erase r.source }, r)
  | none => (s, r)

/-- Newest request from each source wins while queued, and a watchdog OFF over every other source. -/
def supersedes (r q : SprayPending) : Bool :=
  (isWatchdogOff r.toSprayActuatorCommand && q.source ≠ sourceWatchdog) || q.source = r.source

def dropSuperseded (s : SprayLink) (r : SprayPending) : SprayLink × List SprayOut :=
  ({ s with queue := s.queue.filter fun q => !supersedes r q },
    (s.queue.filter (supersedes r)).map fun q => refuse q.seq q.source)

def preempts (s : SprayLink) (r : SprayPending) : Bool := !r.on && s.inflight.any (·.on)

/-- An OFF never waits behind an in-flight ON. -/
def preempt (s : SprayLink) (r : SprayPending) : SprayLink × List SprayOut :=
  match s.inflight with
  | some i => if !r.on && i.on then ({ s with inflight := none }, [refuse i.seq i.source]) else (s, [])
  | none => (s, [])

/-- Room for the request; none when only watchdog OFFs are queued. -/
def makeRoom (s : SprayLink) : Option (SprayLink × List SprayOut) :=
  if s.queue.length + (if s.inflight.isSome then 1 else 0) < maxSprayTransactions then some (s, [])
  else match s.queue.find? (fun q => !isWatchdogOff q.toSprayActuatorCommand) with
    | none => none
    | some evict => some ({ s with queue := s.queue.erase evict }, [refuse evict.seq evict.source])

/-- What a new request takes away: superseded requests of the queue and an in-flight ON. -/
def replace (s : SprayLink) (r : SprayPending) : SprayLink × List SprayOut :=
  let (s, dropped) := s.dropSuperseded r
  let (s, preempted) := s.preempt r
  (s, dropped ++ preempted)

/-- Queue the request, a watchdog OFF or a pre-empting OFF first, and dispatch what can go. -/
def place (s : SprayLink) (r : SprayPending) (env : Env) : SprayLink × List SprayOut :=
  let first := isWatchdogOff r.toSprayActuatorCommand || s.preempts r
  let (s, replaced) := s.replace r
  match s.makeRoom with
  | none => (s, replaced ++ [refuse r.seq r.source])
  | some (s, evicted) =>
    let (s, sent) := { s with queue := if first then r :: s.queue else s.queue ++ [r] }.dispatchNext env
    (s, replaced ++ evicted ++ sent)

/-- A request that repeats nothing in flight, queued or confirmed. -/
def enqueue (s : SprayLink) (r : SprayPending) (env : Env) : SprayLink × List SprayOut :=
  let (s, r) := { s with confirmed := s.confirmed.erase r.source }.adopt r
  s.place r env

def onSprayCommand (s : SprayLink) (m : SprayActuatorCommand) (env : Env) : SprayLink × List SprayOut :=
  if !env.linkOk then (s, [refuse m.seq m.source])
  else match translate m with
    | none => (s, [refuse m.seq m.source])
    | some r =>
      let s := s.retire r
      if s.barred r then (s, [])
      else
        let s := s.clearBar r
        if s.blocked r then (s, [])
        else match s.reassert r with
          | some out => (s, out)
          | none => s.enqueue r env

def matchesAck (r : SprayPending) (a : VehicleCommandAck) : Bool :=
  r.command = a.command && r.ackSystem = a.targetSystem && r.ackToken = a.targetComponent

/-- Acks of arm and mode commands are handled by the node. -/
def onVehicleCommandAck (s : SprayLink) (a : VehicleCommandAck) (env : Env) : SprayLink × List SprayOut :=
  if a.result = resultInProgress ∨ a.command = cmdArmDisarm ∨ a.command = cmdDoSetMode then (s, [])
  else match s.inflight.filter (matchesAck · a) with
    | none =>
      if a.command = cmdDoSetServo ∨ a.command = cmdDoSetActuator then
        if s.confirmed.entries.any (matchesAck ·.2 a) || s.epochs.entries.any (matchesAck ·.2 a) then (s, [])
        else ({ s with lateAckCount := s.lateAckCount + 1 }, [])
      else (s, [])
    | some completed =>
      let accepted := a.result == resultAccepted
      let s := { s with
        inflight := none
        confirmed := if accepted then s.confirmed.insert completed.source completed else s.confirmed }
      let (s, sent) := s.dispatchNext env
      (s, .ack ⟨completed.seq, completed.source, accepted, a.result⟩ :: sent)

/-- A lost link or an overdue ack fails the transaction; `timeout` is spray_transaction_timeout_s. -/
def expire (s : SprayLink) (env : Env) (timeout : ℚ) : SprayLink × List SprayOut :=
  match s.inflight with
  | some i => if timeout < env.now - i.sent then ({ s with inflight := none }, [refuse i.seq i.source]) else (s, [])
  | none => (s, [])

def serviceSprayTransactions (s : SprayLink) (env : Env) (timeout : ℚ) : SprayLink × List SprayOut :=
  if !env.linkOk then
    ({ s with inflight := none, queue := [] },
      (s.inflight.toList ++ s.queue).map fun r => refuse r.seq r.source)
  else
    let (s, failed) := s.expire env timeout
    let (s, sent) := s.dispatchNext env
    (s, failed ++ sent)

inductive Event where
  | command (m : SprayActuatorCommand) (env : Env)
  | fcuAck (a : VehicleCommandAck) (env : Env)
  | service (env : Env)
  deriving DecidableEq

def step (timeout : ℚ) (s : SprayLink) : Event → SprayLink × List SprayOut
  | .command m env => s.onSprayCommand m env
  | .fcuAck a env => s.onVehicleCommandAck a env
  | .service env => s.serviceSprayTransactions env timeout

abbrev Record := Entry Event (List SprayOut)

end SprayLink

end Dyx3.Px4Link
