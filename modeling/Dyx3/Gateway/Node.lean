import Mathlib.Data.List.Sort
import Mathlib.Data.Nat.Notation
import Dyx3.Lib.Flt
import Dyx3.Lib.Run

/-!
The command side of the gateway: lines are queued by the socket thread, `step` hands a batch of them to the services,
and the answers come back through the table of pending calls. What a line parses to, whether a service is there and what it
answers come from outside.
-/

namespace Dyx3.Gateway

open Lib

inductive CmdKind where
  | heartbeat
  | getSnapshot
  | startMission
  | abortMission
  | pauseMission
  | resumeMission
  | skipPoint
  | estop
  | arm
  | offboard
  | sprayManual
  deriving DecidableEq, Repr

def CmdKind.toString : CmdKind → String
  | .heartbeat => "heartbeat"
  | .getSnapshot => "get_snapshot"
  | .startMission => "start_mission"
  | .abortMission => "abort_mission"
  | .pauseMission => "pause_mission"
  | .resumeMission => "resume_mission"
  | .skipPoint => "skip_point"
  | .estop => "estop"
  | .arm => "arm"
  | .offboard => "offboard"
  | .sprayManual => "spray_manual"

structure Command where
  kind : CmdKind := .heartbeat
  sha256 : String := ""
  requestId : String := ""
  resume : Bool := false
  abortReason : ℕ := 0
  flag : Bool := false
  source : String := ""
  deriving DecidableEq, Repr

/-- `id` is the line's id when it had one. -/
structure ParseResult where
  ok : Bool := false
  code : String := ""
  reason : String := ""
  id : Option ℤ := none
  cmd : Command := {}
  deriving DecidableEq, Repr

namespace GatewayNode

/-- A queued line. `number` counts the lines the node has received; the node itself never looks at it but to tell two
queued lines apart. -/
structure Inbound where
  number : ℕ
  client : ℕ
  pr : ParseResult
  deriving DecidableEq, Repr

structure Pending where
  number : ℕ
  client : ℕ
  id : Option ℤ
  kind : CmdKind
  deadline : Flt
  requestId : String
  deriving DecidableEq

inductive Value where
  | bool (b : Bool)
  | int (n : ℤ)
  | str (s : String)
  deriving DecidableEq, Repr

/-- The `data` of a reply: an object of its own, or the snapshot's text. -/
inductive Data where
  | object (fields : List (String × Value))
  | snapshot (text : String)
  deriving DecidableEq, Repr

structure Reply where
  client : ℕ
  id : Option ℤ
  ok : Bool
  code : String
  reason : String
  data : Data
  deriving DecidableEq, Repr

/-- The requests of the nine services. -/
inductive Request where
  | startMission (sha256 requestId : String) (resume : Bool)
  | abortMission (reasonCode : ℕ)
  | pauseMission
  | resumeMission
  | skipPoint
  | setEmergencyStop (asserted : Bool) (source : String)
  | armDisarm (arm : Bool)
  | setOffboard (enable : Bool)
  | setSprayManual (on : Bool)
  deriving DecidableEq, Repr

/-- The answers of the nine services; each service fills its own fields. -/
structure Response where
  accepted : Bool
  reasonCode : ℕ := 0
  missionId : ℕ := 0
  duplicate : Bool := false
  gateReasonCode : ℕ := 0
  resumedRunIndex : ℕ := 0
  skippedPointIndex : ℕ := 0
  deriving DecidableEq, Repr

def reasonInvalidRequest : ℕ := 4
def kInboxCap : ℕ := 256
def kPendingCap : ℕ := 64

structure Timeouts where
  service : Flt
  estop : Flt
  arm : Flt
  offboard : Flt

def Timeouts.timeoutFor (t : Timeouts) : CmdKind → Flt
  | .estop => t.estop
  | .arm => t.arm
  | .offboard => t.offboard
  | _ => t.service

def batchRank (k : CmdKind) : ℕ :=
  if k = .estop then 0 else if k = .heartbeat then 1 else 2

/-- The fields that every reply to a `start_mission` with a request id repeats. -/
def echoFields (requestId : String) : List (String × Value) :=
  if requestId = "" then [] else [("request_id", .str requestId)]

def echoData (requestId : String) : Data := .object (echoFields requestId)

def render (k : CmdKind) (res : Response) : List (String × Value) :=
  let base := [("accepted", .bool res.accepted), ("reason_code", .int res.reasonCode)]
  match k with
  | .startMission => base ++ [("mission_id", .int res.missionId), ("duplicate", .bool res.duplicate),
      ("gate_reason_code", .int res.gateReasonCode), ("resumed_run_index", .int res.resumedRunIndex)]
  | .skipPoint => base ++ [("skipped_point_index", .int res.skippedPointIndex)]
  | _ => base

def refusalCode (k : CmdKind) (res : Response) : String :=
  if k = .startMission ∧ res.reasonCode = reasonInvalidRequest then "invalid_command" else "rejected"

/-- Where a reply is sent from: the socket thread, the loop over the batch, the callback of an answer, the sweep for
deadlines. -/
inductive Origin where
  | line
  | loop
  | answer
  | sweep
  deriving DecidableEq, Repr

/-- What a call shows outside, with the number of the line it is about. -/
inductive Output where
  | reply (origin : Origin) (number : ℕ) (r : Reply)
  | request (number token : ℕ) (req : Request)
  | refreshed (number : ℕ) (now : Flt) (client : ℕ)
  deriving DecidableEq

end GatewayNode

open GatewayNode in
structure GatewayNode where
  inbox : List Inbound := []
  received : ℕ := 0
  /-- the batch of the step that is under way -/
  batch : Option (List Inbound) := none
  /-- the calls that wait for their answer, in the order of their tokens -/
  pending : List (ℕ × Pending) := []
  nextToken : ℕ := 1
  /-- when the last heartbeat came, and from which client -/
  link : Option (Flt × ℕ) := none

namespace GatewayNode

def Inbound.reply (i : Inbound) (ok : Bool) (code reason : String) (data : Data) : Output :=
  .reply .loop i.number ⟨i.client, i.pr.id, ok, code, reason, data⟩

def Inbound.isHeartbeat (i : Inbound) : Bool := i.pr.cmd.kind = .heartbeat

/-- A line is refused at once when it does not parse, or when the inbox is full and it is no E-stop. -/
def onLine (parse : String → ParseResult) (s : GatewayNode) (client : ℕ) (line : String) : GatewayNode × List Output :=
  let pr := parse line
  let refuse := fun code reason => Output.reply .line s.received ⟨client, pr.id, false, code, reason, .object []⟩
  let s' := { s with received := s.received + 1 }
  if pr.ok = false then (s', [refuse pr.code pr.reason])
  else if kInboxCap ≤ s.inbox.length ∧ pr.cmd.kind ≠ .estop then (s', [refuse "busy" "gateway inbox full"])
  else ({ s' with inbox := s.inbox ++ [⟨s.received, client, pr⟩] }, [])

def call (timeouts : Timeouts) (s : GatewayNode) (i : Inbound) (now : Flt) (ready : Bool) (name : String)
    (req : Request) : GatewayNode × List Output :=
  let c := i.pr.cmd
  if ready = false then
    (s, [i.reply false "service_unavailable" (name ++ " is not available") (echoData c.requestId)])
  else if kPendingCap ≤ s.pending.length ∧ c.kind ≠ .estop then
    (s, [i.reply false "busy" "too many commands awaiting an answer" (echoData c.requestId)])
  else
    let p : Pending := ⟨i.number, i.client, i.pr.id, c.kind, now + timeouts.timeoutFor c.kind, c.requestId⟩
    ({ s with pending := s.pending ++ [(s.nextToken, p)], nextToken := s.nextToken + 1 },
      [.request i.number s.nextToken req])

def process (timeouts : Timeouts) (s : GatewayNode) (i : Inbound) (now : Flt) (ready : Bool) (snapshot : String) :
    GatewayNode × List Output :=
  let c := i.pr.cmd
  match c.kind with
  | .heartbeat =>
    ({ s with link := some (now, i.client) },
      [.refreshed i.number now i.client, i.reply true "ok" "" (.object [])])
  | .getSnapshot => (s, [i.reply true "ok" "" (.snapshot snapshot)])
  | .startMission => s.call timeouts i now ready "mission start service" (.startMission c.sha256 c.requestId c.resume)
  | .abortMission => s.call timeouts i now ready "mission abort service" (.abortMission c.abortReason)
  | .pauseMission => s.call timeouts i now ready "mission pause service" .pauseMission
  | .resumeMission => s.call timeouts i now ready "mission resume service" .resumeMission
  | .skipPoint => s.call timeouts i now ready "mission skip service" .skipPoint
  | .estop => s.call timeouts i now ready "motion_guard emergency-stop service" (.setEmergencyStop c.flag c.source)
  | .arm => s.call timeouts i now ready "px4_link arm service" (.armDisarm c.flag)
  | .offboard => s.call timeouts i now ready "px4_link offboard service" (.setOffboard c.flag)
  | .sprayManual => s.call timeouts i now ready "spray manual service" (.setSprayManual c.flag)

/-- One turn of the loop: a heartbeat that is not the last one of the batch is acknowledged without further effect. -/
def workOne (timeouts : Timeouts) (now : Flt) (ready : ℕ → Bool) (snapshot : ℕ → String) (lastHb : Option ℕ)
    (s : GatewayNode) (i : Inbound) : GatewayNode × List Output :=
  if i.isHeartbeat ∧ some i.number ≠ lastHb then (s, [i.reply true "ok" "" (.object [])])
  else s.process timeouts i now (ready i.number) (snapshot i.number)

def workAll (timeouts : Timeouts) (now : Flt) (ready : ℕ → Bool) (snapshot : ℕ → String) (lastHb : Option ℕ) :
    List Inbound → GatewayNode → GatewayNode × List Output
  | [], s => (s, [])
  | i :: rest, s =>
    let one := workOne timeouts now ready snapshot lastHb s i
    let more := workAll timeouts now ready snapshot lastHb rest one.1
    (more.1, one.2 ++ more.2)

/-- The number of the last heartbeat of a batch. -/
def lastHb (work : List Inbound) : Option ℕ := (lastWhere Inbound.isHeartbeat work).map (·.number)

def timedOut (p : Pending) : Output :=
  .reply .sweep p.number
    ⟨p.client, p.id, false, "timeout", p.kind.toString ++ " was not answered in time", echoData p.requestId⟩

def sweep (s : GatewayNode) (now : Flt) : GatewayNode × List Output :=
  ({ s with pending := s.pending.filter fun e => ¬ e.2.deadline ≤ now },
    (s.pending.filter fun e => e.2.deadline ≤ now).map fun e => timedOut e.2)

/-- How `step` begins: it takes the whole inbox, and sorts it stably. -/
def swap (s : GatewayNode) : GatewayNode :=
  { s with
    inbox := []
    batch := some (s.inbox.insertionSort fun a b => batchRank a.pr.cmd.kind ≤ batchRank b.pr.cmd.kind) }

/-- How `step` goes on: the loop over the batch, then the sweep. -/
def serve (timeouts : Timeouts) (s : GatewayNode) (work : List Inbound) (now : Flt) (ready : ℕ → Bool)
    (snapshot : ℕ → String) : GatewayNode × List Output :=
  let worked := workAll timeouts now ready snapshot (lastHb work) work { s with batch := none }
  let swept := worked.1.sweep now
  (swept.1, worked.2 ++ swept.2)

def answered (p : Pending) (res : Response) : Output :=
  .reply .answer p.number
    ⟨p.client, p.id, res.accepted, if res.accepted then "ok" else refusalCode p.kind res,
      if res.accepted then "" else "refused by the target (see data.reason_code)",
      .object (render p.kind res ++ echoFields p.requestId)⟩

/-- The callback of an answer; a call that is no longer pending was answered with a timeout. -/
def answer (s : GatewayNode) (token : ℕ) (res : Response) : GatewayNode × List Output :=
  match s.pending.find? fun e => e.1 = token with
  | none => (s, [])
  | some e => ({ s with pending := s.pending.eraseP fun e => e.1 = token }, [answered e.2 res])

/-- What happens to the node. A call of `step` is a `swap` and a `serve`: after the swap it shares nothing with the
socket thread, so that lines may come between the two. `ready` and `snapshot` say for each line what the node finds when it
handles it. -/
inductive Event where
  | line (client : ℕ) (text : String)
  | swap
  | serve (now : Flt) (ready : ℕ → Bool) (snapshot : ℕ → String)
  | answer (token : ℕ) (res : Response)

def handle (parse : String → ParseResult) (timeouts : Timeouts) (s : GatewayNode) : Event → GatewayNode × List Output
  | .line client text => s.onLine parse client text
  | .swap => (s.swap, [])
  | .serve now ready snapshot => s.serve timeouts (s.batch.getD []) now ready snapshot
  | .answer token res => s.answer token res

/-- There is one executor thread: a step is not entered before the last one is over. -/
def InTurn (s : GatewayNode) : Event → Prop
  | .swap => s.batch = none
  | .serve .. => s.batch ≠ none
  | _ => True

end GatewayNode

end Dyx3.Gateway
