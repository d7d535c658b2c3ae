import Dyx3.GnssRtk.RtkConfig

/-!
`RtkNode` (dyx3_gnss_rtk, rtk_node): how the configuration is loaded, changed and saved. The control socket serves one
request at a time; the texts in the configuration file are a parameter, since the JSON library writes and reads them.
-/

namespace Dyx3.GnssRtk

open Lib

inductive WorkerState where
  | stopped
  | starting
  | waitSource
  | waitRtcm
  | waitTransport
  | injecting
  | degraded
  | reconfiguring
  | error
deriving DecidableEq

/-- A correction source with what it was configured with. -/
inductive Source where
  | ntrip (profile : Json)
  | lora (settings : Json)

/-- What `activate_config` starts. -/
structure Workers where
  /-- How often workers have been started. -/
  started : ℕ := 0
  usb : Json := .null
  transport : Json := .null
  source : Option Source := none

structure RtkNode where
  config : Json
  workers : Workers := {}
  state : WorkerState := .stopped
  reasonCode : String := "SERVICE_STOPPED"

/-- `config.json` in the state directory. -/
inductive File (Text : Type*) where
  | absent
  | unreadable
  | text (t : Text)

/-- The steps of `save` that can fail. -/
inductive SaveStep where
  | openDirectory
  | create
  | write
  | sync
  | close
  | beforeRename
  | rename
  | syncDirectory
deriving DecidableEq

def SaveStep.error : SaveStep → Error
  | .openDirectory => .config "cannot open RTK state directory"
  | .create => .config "cannot create RTK temporary config"
  | .write => .config "cannot write RTK config"
  | .sync => .config "cannot sync RTK config"
  | .close => .config "cannot close RTK config"
  | .beforeRename => .config "interrupt"
  | .rename => .config "cannot replace RTK config"
  | .syncDirectory => .config "cannot sync RTK state directory"

def defaults : Json :=
  .obj [("desired_state", .str "RUNNING"),
    ("lora", .obj [("baud", .int 0), ("read_timeout_s", .float (.ofInt 0)), ("reopen_delay_s", .float (.ofInt 0)),
      ("serial_device", .str "")]),
    ("ntrip", .obj [("active_profile_id", .str ""), ("profiles", .arr [])]),
    ("revision", .int 1), ("schema", .int 1), ("source", .str "NTRIP"), ("transport", .str "USB_DIRECT"),
    ("updated_at", .str ""),
    ("usb", .obj [("baud", .int 0), ("receiver_device", .str ""), ("reopen_delay_s", .float (.ofInt 0)),
      ("write_timeout_s", .float (.ofInt 0))])]

/-! ### Workers -/

/-- The profile that is active, when it has all it takes: its other texts are nonempty in a validated configuration. -/
def activeProfile (config : Json) : Option Json := do
  let ntrip ← config.find? "ntrip"
  let .str id ← ntrip.find? "active_profile_id" | none
  let .arr profiles ← ntrip.find? "profiles" | none
  let profile ← profiles.find? fun p => (p.find? "id").any (·.is id)
  let .str password ← profile.find? "password" | none
  if password = "" then none else some profile

def selectedSource (config : Json) : Option Source :=
  if (config.find? "source").any (·.is "NTRIP") then (activeProfile config).map .ntrip
  else do
    let lora ← config.find? "lora"
    let .str device ← lora.find? "serial_device" | none
    if device = "" then none else some (.lora lora)

namespace RtkNode

def activateConfig (n : RtkNode) : RtkNode :=
  let workers : Workers :=
    { started := n.workers.started + 1
      usb := (n.config.find? "usb").getD .null
      transport := (n.config.find? "transport").getD .null }
  if (n.config.find? "desired_state").any (·.is "STOPPED") then
    { n with workers, state := .stopped, reasonCode := "STOP_REQUESTED" }
  else
    match selectedSource n.config with
    | some source => { n with workers := { workers with source }, state := .starting, reasonCode := "SERVICE_START" }
    | none => { n with workers, state := .waitSource, reasonCode := "SOURCE_NOT_CONFIGURED" }

/-- Break before make: the old source is stopped and joined. -/
def stopWorkers (n : RtkNode) : RtkNode :=
  { n with workers := { n.workers with source := none }, state := .reconfiguring, reasonCode := "CONFIG_CHANGE" }

end RtkNode

/-- `config.at("revision").get<uint64_t>()` -/
def revisionOf (config : Json) : Option ℕ := ((config.find? "revision").bind Json.integer?).map asUint64

/-- The first part of `apply_config`: the configuration that would take the place of `config`. -/
def nextConfig (config candidate : Json) (utcNow : String) : Checked Json := do
  let oldRevision ← match revisionOf config with
    | some revision => pure revision
    | none => .error .json
  need (revisionOf candidate = some oldRevision) "configuration revision conflict"
  let merged ← mergeWriteOnlyPasswords config candidate
  let next := (merged.set "revision" (.int ((oldRevision + 1) % 2 ^ 64 : ℕ))).set "updated_at" (.str utcNow)
  validate next
  return next

/-! ### The file -/

section

variable {Text : Type*} (dump : Json → Text) (parse : Text → Option Json)

def load : File Text → Checked (Option Json)
  | .absent => .ok none
  | .unreadable => .error (.config "cannot read RTK configuration")
  | .text t =>
    match parse t with
    | some config =>
      match validate config with
      | .ok _ => .ok (some config)
      | .error _ => .error (.config "RTK configuration is invalid")
    | none => .error (.config "RTK configuration is invalid")

/-- A failure before the rename leaves the old file; the new file is there when only the directory was not synced. -/
def save (file : File Text) (config : Json) (fault : Option SaveStep) : File Text × Checked Unit :=
  match validate config with
  | .error e => (file, .error e)
  | .ok _ =>
    match fault with
    | none => (.text (dump config), .ok ())
    | some .syncDirectory => (.text (dump config), .error SaveStep.syncDirectory.error)
    | some step => (file, .error step.error)

structure Service (Text : Type*) where
  node : RtkNode
  file : File Text

/-- The constructor: `initial` is what the environment gives when there is no file yet. -/
def boot (file : File Text) (initial : Checked Json) (fault : Option SaveStep) : Service Text :=
  let failed (file : File Text) : Service Text :=
    { node := { ({ config := defaults.set "desired_state" (.str "STOPPED") } : RtkNode).activateConfig with
        state := .error, reasonCode := "CONFIG_INVALID" }
      file }
  match load parse file with
  | .error _ => failed file
  | .ok (some config) => { node := ({ config } : RtkNode).activateConfig, file }
  | .ok none =>
    match initial with
    | .error _ => failed file
    | .ok config =>
      match save dump file config fault with
      | (file, .ok _) => { node := ({ config } : RtkNode).activateConfig, file }
      | (file, .error _) => failed file

/-- The second part of `apply_config`: the old workers are gone, `next` is to be saved. -/
def replace (s : Service Text) (next : Json) (fault : Option SaveStep) : Service Text × Checked Unit :=
  let node := s.node.stopWorkers
  match save dump s.file next fault with
  | (file, .ok _) => ({ node := { node with config := next }.activateConfig, file }, .ok ())
  | (file, .error e) =>
    -- runtime and persistent authority have to agree again
    match load parse file with
    | .ok (some persisted) => ({ node := { node with config := persisted }.activateConfig, file }, .error e)
    | .ok none => ({ node := node.activateConfig, file }, .error e)
    | .error _ => ({ node := { node with state := .error, reasonCode := "CONFIG_RECOVERY_FAILED" }, file }, .error e)

def applyConfig (s : Service Text) (candidate : Json) (utcNow : String) (fault : Option SaveStep) :
    Service Text × Checked Unit :=
  match nextConfig s.node.config candidate utcNow with
  | .error e => (s, .error e)
  | .ok next => replace dump parse s next fault

/-! ### Requests -/

inductive Command where
  | getStatus
  | getConfig
  | setConfig (config : Option Json)
  | start
  | stop
  | other (cmd : String)

structure Request where
  command : Command
  missionActive : Bool := false
  utcNow : String := ""
  fault : Option SaveStep := none

inductive Reply where
  | status (state : WorkerState) (reasonCode : String)
  | config (view : Json)
  | refused (code reason : String)
  /-- What the control socket makes of an exception. -/
  | error (e : Error)

/-- The configuration that a command asks for. -/
def Command.candidate (config : Json) : Command → Option Json
  | .setConfig candidate => candidate
  | .start => some (config.set "desired_state" (.str "RUNNING"))
  | .stop => some (config.set "desired_state" (.str "STOPPED"))
  | _ => none

def Command.changes : Command → Bool
  | .setConfig _ | .start | .stop => true
  | _ => false

def viewReply (config : Json) : Reply :=
  match publicView config with
  | .ok view => .config view
  | .error e => .error e

def handleControl (s : Service Text) (r : Request) : Service Text × Reply :=
  if r.command.changes && r.missionActive then (s, .refused "conflict" "mission active: configuration is locked")
  else
    match r.command with
    | .getStatus => (s, .status s.node.state s.node.reasonCode)
    | .getConfig => (s, viewReply s.node.config)
    | .other _ => (s, .refused "unknown_command" "unsupported RTK control command")
    | command =>
      match command.candidate s.node.config with
      | none => (s, .error (.config "config object required"))
      | some candidate =>
        match applyConfig dump parse s candidate r.utcNow r.fault with
        | (s, .error e) => (s, .error e)
        | (s, .ok _) =>
          match command with
          | .setConfig _ => (s, viewReply s.node.config)
          | _ => (s, .status s.node.state s.node.reasonCode)

/-- The service after the requests. -/
def serve (s : Service Text) : List Request → Service Text
  | [] => s
  | r :: requests => serve (handleControl dump parse s r).1 requests

end

end Dyx3.GnssRtk
