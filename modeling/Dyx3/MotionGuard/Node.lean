import Dyx3.MotionGuard.FailToZero
import Dyx3.MotionGuard.StallLatch

/-!
`motion_guard_node`: the newest message of each source with its arrival, the latched emergency stop, and the decision on an RPP command
or a watchdog tick. For every motion it lets through, and for every gate verdict, the messages it has heard are the evidence.
-/

namespace Dyx3.MotionGuard

open Lib

/-- Arrival-time freshness on the guard's clock; a source that was never heard is not fresh. -/
structure Watch where
  seen : Bool := false
  t : ℚ := 0
  deriving DecidableEq

def Watch.touch (_ : Watch) (now : ℚ) : Watch := { seen := true, t := now }

def Watch.fresh (w : Watch) (now maxAge : ℚ) : Bool := w.seen && w.t ≤ now && now - w.t ≤ maxAge

structure EstopLatch where
  asserted : Bool := false
  source : String := ""
  deriving DecidableEq

/-- False, and nothing changes, for a source that is not accepted. -/
def EstopLatch.request (l : EstopLatch) (asserted : Bool) (source : String) : EstopLatch × Bool :=
  if source ≠ "tablet" && source ≠ "backend" && source ≠ "ble" && source ≠ "physical" then (l, false)
  else ({ asserted, source := if asserted then source else "" }, true)

structure MaxAges where
  command : ℚ := 1 / 5
  vehicle : ℚ := 1 / 2
  rtk : ℚ := 1 / 2
  estimator : ℚ := 1 / 2
  px4Link : ℚ := 1 / 2
  mission : ℚ := 1 / 2

structure NodeConfig where
  publishRate : ℚ := 50
  eventDriven : Bool := true
  acceptCount : Nat := 3
  age : MaxAges := {}
  gates : GateConfig := {}
  plausibility : PlausibilityConfig := {}
  limits : Limits := {}

namespace NodeConfig

/-- `declare_and_validate_params`: the node does not start with other values. -/
def valid (c : NodeConfig) : Bool :=
  10 ≤ c.publishRate && 1 ≤ c.acceptCount && c.acceptCount ≤ 100 &&
    [c.age.command, c.age.vehicle, c.age.rtk, c.age.estimator, c.age.px4Link, c.age.mission].all (0 < ·) &&
    (c.gates.rtk.minFixType = 5 || c.gates.rtk.minFixType = 6) &&
    c.gates.rtk.maxHrms.isFinite && .fin 0 < c.gates.rtk.maxHrms &&
    plausibilityConfigValid c.plausibility && limitsValid c.limits

def decision (c : NodeConfig) : DecisionConfig :=
  { commandMaxAge := c.age.command, gates := c.gates, limits := c.limits, plausibility := c.plausibility }

end NodeConfig

/-- What goes out on the node's topics, and the answer of its service. -/
inductive Published where
  | command (seq : Nat) (motion : Motion) (sourcePoseSampleNs : Int)
  | status (inputSeq : Nat) (reason : Reason) (accepted clamped : Bool) (motion : Motion)
  | safetyGate (ok : Bool) (reason : Reason) (preArmOk : Bool) (preArmReason : Reason)
  | emergencyStop (asserted : Bool) (source : String)
  | response (accepted : Bool)
  deriving DecidableEq

structure MotionGuardNode where
  core : Guard
  estop : EstopLatch := {}
  haveTick : Bool := false
  lastTickWasCommand : Bool := false
  lastTick : ℚ := 0
  wVeh : Watch := {}
  wRtk : Watch := {}
  wEst : Watch := {}
  wLink : Watch := {}
  wMission : Watch := {}
  veh : VehicleIn := {}
  rtk : RtkIn := {}
  est : EstimatorIn := {}
  link : Px4LinkIn := {}
  mission : MissionIn := {}
  vehPoseStamp : Int := 0
  lastStep : ℚ := -1
  lastGatePub : ℚ := -10 ^ 18
  forceSafetyPub : Bool := false
  lastStatusPub : ℚ := -10 ^ 18
  outSeq : Nat := 0
  lastReason : Reason := .ok
  lastStatusInputSeq : Nat := 2 ^ 64 - 1

namespace MotionGuardNode

def start (cfg : NodeConfig) : MotionGuardNode := { core := .start cfg.acceptCount }

/-- A source that was never heard keeps its fail-safe defaults. -/
def gather (cfg : NodeConfig) (n : MotionGuardNode) (now : ℚ) : GateInputs where
  estop := n.estop.asserted
  link := if n.wLink.seen then { n.link with fresh := n.wLink.fresh now cfg.age.px4Link } else {}
  vehicle := if n.wVeh.seen then { n.veh with fresh := n.wVeh.fresh now cfg.age.vehicle } else {}
  rtk := if n.wRtk.seen then { n.rtk with fresh := n.wRtk.fresh now cfg.age.rtk } else {}
  est := if n.wEst.seen then { n.est with fresh := n.wEst.fresh now cfg.age.estimator } else {}
  mission := if n.wMission.seen then { n.mission with fresh := n.wMission.fresh now cfg.age.mission } else {}

/-- The time since the last cycle, which a stalled tick must not widen. -/
def stepDt (cfg : NodeConfig) (n : MotionGuardNode) (now : ℚ) : ℚ :=
  let dt := if n.lastStep < 0 then 1 / cfg.publishRate else now - n.lastStep
  if dt < 0 then 0 else if 1 / 10 < dt then 1 / 10 else dt

/-- While the stall latch is set the full verdict fails after every real gate, never the pre-arm verdict. -/
def safetyVerdict (cfg : NodeConfig) (gates : GateInputs) (stalled : Bool) : Published :=
  let g := firstFailingSafetyGate gates cfg.gates
  let g := if g = .ok && stalled then .actuatorStall else g
  let pre := firstFailingPreArmGate gates cfg.gates
  .safetyGate (g = .ok) g (pre = .ok) pre

/-- One decision cycle. -/
def step (cfg : NodeConfig) (now : ℚ) (n : MotionGuardNode) : MotionGuardNode × List Published :=
  let gates := n.gather cfg now
  let decided := n.core.decide cfg.decision now (n.stepDt cfg now) gates
  let core := decided.1
  let d := decided.2
  let force := n.forceSafetyPub || core.stall.latched ≠ n.core.stall.latched
  let tellStatus := d.reason ≠ n.lastReason || d.inputSeq ≠ n.lastStatusInputSeq || 1 / 10 ≤ now - n.lastStatusPub
  let tellGate := force || 1 / 10 - 1 / 10 ^ 9 ≤ now - n.lastGatePub
  ({ n with
      core, lastStep := now, outSeq := n.outSeq + 1, lastReason := d.reason
      lastStatusInputSeq := if tellStatus then d.inputSeq else n.lastStatusInputSeq
      lastStatusPub := if tellStatus then now else n.lastStatusPub
      forceSafetyPub := force && !tellGate
      lastGatePub := if tellGate then now else n.lastGatePub },
    .command n.outSeq d.out (if d.accepted then d.sourcePoseSampleNs else n.vehPoseStamp) ::
      (if tellStatus then [.status d.inputSeq d.reason d.accepted d.clamped d.out] else []) ++
      (if tellGate then [safetyVerdict cfg gates core.stall.latched, .emergencyStop n.estop.asserted n.estop.source] else []))

/-- A decision cycle counts as a tick of the watchdog. -/
def ticked (command : Bool) (now : ℚ) (p : MotionGuardNode × List Published) : MotionGuardNode × List Published :=
  ({ p.1 with haveTick := true, lastTickWasCommand := command, lastTick := now }, p.2)

/-- In event-driven mode it decides only when no command did. -/
def onWatchdog (cfg : NodeConfig) (now : ℚ) (n : MotionGuardNode) : MotionGuardNode × List Published :=
  let period := 1 / cfg.publishRate
  let need := if n.lastTickWasCommand then 3 / 2 * period else 1 / 2 * period
  if cfg.eventDriven && n.haveTick && now - n.lastTick < need - 1 / 10 ^ 9 then (n, [])
  else ticked false now (n.step cfg now)

/-- A callback with the guard's clock; `fresh` of a message is the node's own. -/
inductive Event where
  | command (c : Command) (now : ℚ)
  | mission (state : Nat) (now : ℚ)
  | vehicle (v : VehicleIn) (sampleNs : Int) (now : ℚ)
  | estimator (e : EstimatorIn) (now : ℚ)
  | rtk (r : RtkIn) (now : ℚ)
  | link (l : Px4LinkIn) (now : ℚ)
  | setEmergencyStop (asserted : Bool) (source : String) (now : ℚ)
  | watchdog (now : ℚ)
  | shutdownStop (now : ℚ)
  deriving DecidableEq

def handle (cfg : NodeConfig) (n : MotionGuardNode) : Event → MotionGuardNode × List Published
  | .command c now =>
    let n := { n with core := n.core.onCommand c now }
    -- decide and forward now, in this callback
    if cfg.eventDriven then ticked true now (n.step cfg now) else (n, [])
  | .mission state now => ({ n with mission := { n.mission with state }, wMission := n.wMission.touch now }, [])
  | .vehicle v sampleNs now =>
    ({ n with veh := v, vehPoseStamp := sampleNs, wVeh := n.wVeh.touch now }, [])
  | .estimator e now => ({ n with est := e, wEst := n.wEst.touch now }, [])
  | .rtk r now => ({ n with rtk := r, wRtk := n.wRtk.touch now }, [])
  | .link l now => ({ n with link := l, wLink := n.wLink.touch now }, [])
  | .setEmergencyStop asserted source now =>
    let request := n.estop.request asserted source
    if request.2 then
      let cycle := { n with estop := request.1, forceSafetyPub := true }.step cfg now
      (cycle.1, cycle.2 ++ [.response true])
    else (n, [.response false])
  | .watchdog now => n.onWatchdog cfg now
  | .shutdownStop _ => ({ n with outSeq := n.outSeq + 1 }, [.command n.outSeq canonicalStop n.vehPoseStamp])

/-! ### The evidence -/

namespace Event

def now : Event → ℚ
  | .command _ now | .mission _ now | .vehicle _ _ now | .estimator _ now | .rtk _ now | .link _ now
  | .setEmergencyStop _ _ now | .watchdog now | .shutdownStop now => now

def mission? : Event → Option (Nat × ℚ)
  | .mission state now => some (state, now)
  | _ => none

def vehicle? : Event → Option (VehicleIn × ℚ)
  | .vehicle v _ now => some (v, now)
  | _ => none

def estimator? : Event → Option (EstimatorIn × ℚ)
  | .estimator e now => some (e, now)
  | _ => none

def rtk? : Event → Option (RtkIn × ℚ)
  | .rtk r now => some (r, now)
  | _ => none

def link? : Event → Option (Px4LinkIn × ℚ)
  | .link l now => some (l, now)
  | _ => none

def emergencyStop? : Event → Option (Bool × ℚ)
  | .setEmergencyStop asserted source now => if source ∈ ["tablet", "backend", "ble", "physical"] then some (asserted, now) else none
  | _ => none

end Event

abbrev Heard := Entry Event (List Published)

/-- The newest message of a kind, with its arrival. -/
def newest {α : Type} (kind : Event → Option (α × ℚ)) (h : List Heard) : Option (α × ℚ) := h.findSome? fun x => kind x.event

/-- The newest message of a kind came at most `maxAge` ago and says what it must. -/
def Says {α : Type} (kind : Event → Option (α × ℚ)) (h : List Heard) (now maxAge : ℚ) (must : α → Prop) : Prop :=
  ∃ m t, newest kind h = some (m, t) ∧ t ≤ now ∧ now - t ≤ maxAge ∧ must m

/-- The commands taken as new ones, newest first. -/
def newCommands : List Heard → List (Command × ℚ)
  | [] => []
  | x :: h => match x.event with
    | .command c now => if (newCommands h).head?.map (·.1.seq) = some c.seq then newCommands h else (c, now) :: newCommands h
    | _ => newCommands h

def emergencyStopped (h : List Heard) : Bool := (newest Event.emergencyStop? h).any (·.1)

/-- Every gate, on the newest messages. -/
structure GatesPass (cfg : NodeConfig) (preArm : Bool) (h : List Heard) (now : ℚ) : Prop where
  estop : emergencyStopped h = false
  link : Says Event.link? h now cfg.age.px4Link fun l => l.sessionAlive = true ∧ l.handshakeOk = true ∧ l.staleTopicsMask = 0
  vehicle : Says Event.vehicle? h now cfg.age.vehicle fun v => vehicleRefused { v with fresh := true } cfg.gates preArm = false ∧
    v.positionValid = true ∧ v.velocityValid = true ∧ v.attitudeValid = true
  rtk : Says Event.rtk? h now cfg.age.rtk fun r => rtkOk { r with fresh := true } cfg.gates.rtk = true
  estimator : Says Event.estimator? h now cfg.age.estimator fun e => e.flagsValid = true ∧ e.gnssYawFault = false ∧ e.rejectYaw = false ∧
    (cfg.gates.requireGnssYawFusion = true → e.gnssYawFusionIntended = true) ∧ e.inertialDeadReckoning = false ∧
    e.rejectHorPos = false ∧ e.rejectHorVel = false

/-- The motion is the newest command, valid and fresh, of an established session, within the limits, and everything lets it through. -/
structure Moves (cfg : NodeConfig) (h : List Heard) (now : ℚ) (motion : Motion) : Prop where
  gates : GatesPass cfg false h now
  mission : Says Event.mission? h now cfg.age.mission fun state => state = missionStateRunning
  session : cfg.acceptCount ≤ (newCommands h).length ∧ Guard.Session ((newCommands h).take cfg.acceptCount)
  command : ∃ c arrival rest mode forward reverse rate, newCommands h = (c, arrival) :: rest ∧ now - arrival ≤ cfg.age.command ∧
    commandIsValid c = true ∧ Mode.ofWire c.mode = some mode ∧ cfg.limits.maxForwardSpeed = .fin forward ∧
    cfg.limits.maxReverseSpeed = .fin reverse ∧ cfg.limits.maxYawRate = .fin rate ∧
    motion = { mode, yawSetpoint := c.yawSetpoint, speedBodyX := Guard.clampInto (-reverse) forward c.speedBodyX
               yawRateSetpoint := if usesRate mode then Guard.clampInto (-rate) rate c.yawRateSetpoint else c.yawRateSetpoint }

/-- What the messages so far say for a published message. -/
def Backed (cfg : NodeConfig) (h : List Heard) (now : ℚ) : Published → Prop
  | .command _ motion _ | .status _ _ _ _ motion => motion = canonicalStop ∨ Moves cfg h now motion
  | .safetyGate ok _ preArmOk _ => (ok = true → GatesPass cfg false h now) ∧
      (preArmOk = true → GatesPass cfg true h now ∧ Says Event.vehicle? h now cfg.age.vehicle fun v => v.globalReferenceValid = true)
  | .emergencyStop asserted _ => asserted = emergencyStopped h
  | .response _ => True

/-! ### What the node keeps of its messages -/

theorem newest_cons {α : Type} (kind : Event → Option (α × ℚ)) (x : Heard) (h : List Heard) :
    newest kind (x :: h) = (kind x.event).or (newest kind h) := by
  rw [newest, List.findSome?_cons]
  cases kind x.event <;> rfl

/-- The watch and the stored message of a source. -/
structure Kept {α : Type} (kind : Event → Option (α × ℚ)) (h : List Heard) (w : Watch) (stored : α → Prop) : Prop where
  never : newest kind h = none → w.seen = false
  last : ∀ m t, newest kind h = some (m, t) → w = ⟨true, t⟩ ∧ stored m

theorem Kept.other {α : Type} {kind : Event → Option (α × ℚ)} {h : List Heard} {w : Watch} {stored : α → Prop}
    (kept : Kept kind h w stored) {x : Heard} (none : kind x.event = none) : Kept kind (x :: h) w stored := by
  have same : newest kind (x :: h) = newest kind h := by
    rw [newest_cons, none, Option.none_or]
  exact ⟨fun never => kept.never (same.symm.trans never), fun m t last => kept.last m t (same.symm.trans last)⟩

theorem Kept.new {α : Type} {kind : Event → Option (α × ℚ)} (h : List Heard) {x : Heard} {m : α} {t : ℚ} (w : Watch)
    {stored : α → Prop} (new : kind x.event = some (m, t)) (same : stored m) : Kept kind (x :: h) (w.touch t) stored := by
  have here : newest kind (x :: h) = some (m, t) := by
    rw [newest_cons, new, Option.some_or]
  refine ⟨fun never => ?_, fun m' t' last => ?_⟩
  · rw [here] at never
    cases never
  · rw [here] at last
    cases last
    exact ⟨rfl, same⟩

theorem Kept.says {α : Type} {kind : Event → Option (α × ℚ)} {h : List Heard} {w : Watch} {stored must : α → Prop}
    (kept : Kept kind h w stored) {now maxAge : ℚ} (fresh : w.fresh now maxAge = true) (told : ∀ m, stored m → must m) :
    Says kind h now maxAge must := by
  simp only [Watch.fresh, Bool.and_eq_true, decide_eq_true_eq] at fresh
  obtain ⟨⟨seen, past⟩, young⟩ := fresh
  cases here : newest kind h with
  | none =>
    rw [kept.never here] at seen
    cases seen
  | some last =>
    obtain ⟨m, t⟩ := last
    obtain ⟨same, stored⟩ := kept.last m t here
    rw [same] at past young
    exact ⟨m, t, here, past, young, told m stored⟩

/-- The state of the node is what it has heard. -/
structure Knows (cfg : NodeConfig) (h : List Heard) (n : MotionGuardNode) : Prop where
  estop : n.estop.asserted = emergencyStopped h
  link : Kept Event.link? h n.wLink fun l => n.link = l
  vehicle : Kept Event.vehicle? h n.wVeh fun v => n.veh = v
  rtk : Kept Event.rtk? h n.wRtk fun r => n.rtk = r
  estimator : Kept Event.estimator? h n.wEst fun e => n.est = e
  mission : Kept Event.mission? h n.wMission fun state => n.mission.state = state
  commands : ∃ records, Guard.Tracks cfg.acceptCount records n.core ∧ Guard.accepted records = newCommands h

theorem Kept.start {α : Type} (kind : Event → Option (α × ℚ)) (stored : α → Prop) : Kept kind [] {} stored := by
  refine ⟨fun _ => rfl, fun m t last => ?_⟩
  cases last

theorem knows_start (cfg : NodeConfig) : Knows cfg [] (start cfg) :=
  ⟨rfl, .start _ _, .start _ _, .start _ _, .start _ _, .start _ _, ⟨[], Guard.tracks_start _, rfl⟩⟩

variable {cfg : NodeConfig} {h : List Heard} {n : MotionGuardNode}

/-- A decision cycle hears nothing. -/
theorem Knows.step (knows : Knows cfg h n) (now : ℚ) : Knows cfg h (n.step cfg now).1 := by
  obtain ⟨records, tracks, same⟩ := knows.commands
  have decided := @Guard.tracks_decide cfg.acceptCount cfg.decision records n.core now (n.stepDt cfg now) (n.gather cfg now) none tracks
  exact { knows with commands := ⟨_, decided, same⟩ }

theorem Knows.ticked (knows : Knows cfg h n) (command : Bool) (now : ℚ) :
    Knows cfg h (ticked command now (n.step cfg now)).1 := { knows.step now with }

/-! ### The gates -/

theorem firstFailing_passes {g : GateInputs} {gates : GateConfig} {preArm : Bool} (ok : firstFailing g gates preArm = .ok) :
    g.estop = false ∧ linkHealthy g.link = true ∧ vehicleRefused g.vehicle gates preArm = false ∧ rtkOk g.rtk gates.rtk = true ∧
      headingHealthy g.est g.vehicle gates = true ∧ estimatorHealthy g.est g.vehicle = true := by
  unfold firstFailing at ok
  iterate 6
    split at ok
    · cases ok
  rename_i estop link vehicle rtk heading estimator
  simp only [Bool.not_eq_true, Bool.not_eq_false'] at estop link vehicle rtk heading estimator
  exact ⟨estop, link, vehicle, rtk, heading, estimator⟩

/-- When every gate passes, every source has just said so. -/
theorem Knows.gatesPass (knows : Knows cfg h n) {now : ℚ} {preArm : Bool}
    (passing : (n.gather cfg now).estop = false ∧ linkHealthy (n.gather cfg now).link = true ∧
      vehicleRefused (n.gather cfg now).vehicle cfg.gates preArm = false ∧ rtkOk (n.gather cfg now).rtk cfg.gates.rtk = true ∧
      headingHealthy (n.gather cfg now).est (n.gather cfg now).vehicle cfg.gates = true ∧
      estimatorHealthy (n.gather cfg now).est (n.gather cfg now).vehicle = true) : GatesPass cfg preArm h now := by
  obtain ⟨estop, link, vehicle, rtk, heading, estimator⟩ := passing
  have heardLink : n.wLink.seen = true := by
    by_contra never
    simp [gather, never, linkHealthy] at link
  have heardVehicle : n.wVeh.seen = true := by
    by_contra never
    simp [gather, never, vehicleRefused] at vehicle
  have heardRtk : n.wRtk.seen = true := by
    by_contra never
    simp [gather, never, rtkOk] at rtk
  have heardEst : n.wEst.seen = true := by
    by_contra never
    simp [gather, never, headingHealthy] at heading
  simp only [gather, heardLink, heardVehicle, heardRtk, heardEst, if_true] at estop link vehicle rtk heading estimator
  have fresh : n.wVeh.fresh now cfg.age.vehicle = true := by
    by_contra stale
    simp [vehicleRefused, stale] at vehicle
  have young : n.wRtk.fresh now cfg.age.rtk = true := by
    by_contra stale
    simp [rtkOk, stale] at rtk
  rw [fresh] at vehicle heading estimator
  rw [young] at rtk
  simp only [linkHealthy, Bool.and_eq_true, decide_eq_true_eq] at link
  simp only [headingHealthy, Bool.and_eq_true, Bool.not_eq_true', Bool.and_eq_false_iff, Bool.not_eq_false'] at heading
  simp only [estimatorHealthy, Bool.and_eq_true, Bool.not_eq_true'] at estimator
  refine ⟨knows.estop.symm.trans estop, knows.link.says link.1.1.1 fun l same => ?_, knows.vehicle.says fresh fun v same => ?_,
    knows.rtk.says young fun r same => ?_, knows.estimator.says heading.1.1.1.1.1 fun e same => ?_⟩
  · rw [same] at link
    exact ⟨link.1.1.2, link.1.2, link.2⟩
  · rw [same] at vehicle heading estimator
    exact ⟨vehicle, estimator.1.1.1.1, estimator.1.1.1.2, heading.2⟩
  · rw [same] at rtk
    exact rtk
  · rw [same] at heading estimator
    refine ⟨heading.1.1.1.1.2, heading.1.1.1.2, heading.1.1.2, fun required => ?_, estimator.1.1.2, estimator.1.2, estimator.2⟩
    rcases heading.1.2 with free | intended
    · rw [required] at free
      cases free
    · exact intended

theorem Knows.missionRuns (knows : Knows cfg h n) {now : ℚ} (fresh : (n.gather cfg now).mission.fresh = true)
    (running : (n.gather cfg now).mission.state = missionStateRunning) :
    Says Event.mission? h now cfg.age.mission fun state => state = missionStateRunning := by
  have heard : n.wMission.seen = true := by
    by_contra never
    simp [gather, never] at fresh
  simp only [gather, heard, if_true] at fresh running
  exact knows.mission.says fresh fun state same => same.symm.trans running

/-! ### What goes out -/

section

variable (valid : limitsValid cfg.limits = true) (production : cfg.limits.profileShapingTestMode = false)

include valid production

theorem Knows.moves (knows : Knows cfg h n) (now dt : ℚ) :
    (n.core.decide cfg.decision now dt (n.gather cfg now)).2.out = canonicalStop ∨
      Moves cfg h now (n.core.decide cfg.decision now dt (n.gather cfg now)).2.out := by
  by_cases moving : (n.core.decide cfg.decision now dt (n.gather cfg now)).2.out = canonicalStop
  · exact .inl moving
  obtain ⟨records, tracks, same⟩ := knows.commands
  have forwarded := @Guard.forwarded_of_decide cfg.acceptCount cfg.decision records n.core now dt (n.gather cfg now) valid production
    tracks moving
  obtain ⟨arrival, rest, accepted, fresh⟩ := forwarded.fresh
  obtain ⟨mode, forward, reverse, rate, wire, limits⟩ := forwarded.motion
  have session := forwarded.session
  rw [same] at session accepted
  exact .inr ⟨knows.gatesPass forwarded.passing, knows.missionRuns forwarded.mission.1 forwarded.mission.2, session,
    _, arrival, rest, mode, forward, reverse, rate, accepted, fresh, forwarded.valid, wire, limits⟩

omit valid production in
theorem Knows.verdict (knows : Knows cfg h n) (now : ℚ) (stalled : Bool) :
    Backed cfg h now (safetyVerdict cfg (n.gather cfg now) stalled) := by
  refine ⟨fun ok => ?_, fun ok => ?_⟩
  · rw [decide_eq_true_eq] at ok
    refine knows.gatesPass (firstFailing_passes ?_)
    split at ok
    · cases ok
    · exact ok
  · rw [decide_eq_true_eq, firstFailingPreArmGate] at ok
    split at ok
    · rename_i passed
      split at ok
      · rename_i reference
        have gates := knows.gatesPass (firstFailing_passes passed)
        have heard : n.wVeh.seen = true := by
          by_contra never
          simp [gather, never] at reference
        have passing := (firstFailing_passes passed).2.2.1
        simp only [gather, heard, if_true] at reference passing
        have fresh : n.wVeh.fresh now cfg.age.vehicle = true := by
          by_contra stale
          simp [vehicleRefused, stale] at passing
        refine ⟨gates, knows.vehicle.says fresh fun v same => ?_⟩
        rw [same] at reference
        exact reference
      · cases ok
    · rename_i other
      exact absurd ok other

/-- Everything a decision cycle publishes. -/
theorem Knows.backed (knows : Knows cfg h n) (now : ℚ) : ∀ p ∈ (n.step cfg now).2, Backed cfg h now p := by
  have moves := knows.moves valid production now (n.stepDt cfg now)
  intro p member
  rw [MotionGuardNode.step] at member
  simp only [List.mem_append, List.mem_cons] at member
  rcases member with (rfl | status) | gate
  · exact moves
  · split at status
    · obtain rfl := List.mem_singleton.mp status
      exact moves
    · cases status
  · split at gate
    · rcases List.mem_cons.mp gate with rfl | state
      · exact knows.verdict now _
      · obtain rfl := List.mem_singleton.mp state
        exact knows.estop
    · cases gate

end

theorem request_accepted (l : EstopLatch) (asserted : Bool) (source : String) :
    (source ∈ ["tablet", "backend", "ble", "physical"] ∧ (l.request asserted source).2 = true ∧
        (l.request asserted source).1.asserted = asserted) ∨
      (source ∉ ["tablet", "backend", "ble", "physical"] ∧ (l.request asserted source).2 = false) := by
  rw [EstopLatch.request]
  by_cases known : source ∈ ["tablet", "backend", "ble", "physical"]
  · refine .inl ⟨known, ?_⟩
    rw [if_neg]
    · exact ⟨rfl, rfl⟩
    · simp only [List.mem_cons, List.not_mem_nil, or_false] at known
      simp only [Bool.and_eq_true, decide_eq_true_eq, not_and, not_not, ne_eq]
      tauto
  · refine .inr ⟨known, ?_⟩
    rw [if_pos]
    simp only [List.mem_cons, List.not_mem_nil, or_false, not_or] at known
    simpa [and_assoc] using known

theorem onWatchdog_cases (cfg : NodeConfig) (now : ℚ) (n : MotionGuardNode) :
    n.onWatchdog cfg now = (n, []) ∨ n.onWatchdog cfg now = ticked false now (n.step cfg now) := by
  rw [onWatchdog]
  split
  · split
    · exact .inl rfl
    · exact .inr rfl
  · split
    · exact .inl rfl
    · exact .inr rfl

/-- Every callback: what it hears, then what it publishes. -/
theorem handle_backed (valid : limitsValid cfg.limits = true) (production : cfg.limits.profileShapingTestMode = false)
    (knows : Knows cfg h n) (e : Event) :
    Knows cfg (⟨e, (n.handle cfg e).2⟩ :: h) (n.handle cfg e).1 ∧
      ∀ p ∈ (n.handle cfg e).2, Backed cfg (⟨e, (n.handle cfg e).2⟩ :: h) e.now p := by
  cases e with
  | command c now =>
    obtain ⟨records, tracks, same⟩ := knows.commands
    have heard : ∀ out, Knows cfg (⟨.command c now, out⟩ :: h) { n with core := n.core.onCommand c now } := fun out =>
      ⟨knows.estop, knows.link.other rfl, knows.vehicle.other rfl, knows.rtk.other rfl, knows.estimator.other rfl, knows.mission.other rfl,
        ⟨_, Guard.tracks_command tracks c now, by simp only [Guard.accepted, newCommands, same]⟩⟩
    by_cases driven : cfg.eventDriven = true
    · simp only [handle, driven, if_true]
      exact ⟨(heard _).ticked true now, (heard _).backed valid production now⟩
    · simp only [handle, driven]
      exact ⟨heard _, fun p member => absurd member List.not_mem_nil⟩
  | mission state now =>
    exact ⟨⟨knows.estop, knows.link.other rfl, knows.vehicle.other rfl, knows.rtk.other rfl, knows.estimator.other rfl,
      .new h n.wMission rfl rfl, knows.commands⟩, fun p member => absurd member List.not_mem_nil⟩
  | vehicle v sampleNs now =>
    exact ⟨⟨knows.estop, knows.link.other rfl, .new h n.wVeh rfl rfl, knows.rtk.other rfl, knows.estimator.other rfl,
      knows.mission.other rfl, knows.commands⟩, fun p member => absurd member List.not_mem_nil⟩
  | estimator e now =>
    exact ⟨⟨knows.estop, knows.link.other rfl, knows.vehicle.other rfl, knows.rtk.other rfl, .new h n.wEst rfl rfl,
      knows.mission.other rfl, knows.commands⟩, fun p member => absurd member List.not_mem_nil⟩
  | rtk r now =>
    exact ⟨⟨knows.estop, knows.link.other rfl, knows.vehicle.other rfl, .new h n.wRtk rfl rfl, knows.estimator.other rfl,
      knows.mission.other rfl, knows.commands⟩, fun p member => absurd member List.not_mem_nil⟩
  | link l now =>
    exact ⟨⟨knows.estop, .new h n.wLink rfl rfl, knows.vehicle.other rfl, knows.rtk.other rfl, knows.estimator.other rfl,
      knows.mission.other rfl, knows.commands⟩, fun p member => absurd member List.not_mem_nil⟩
  | setEmergencyStop asserted source now =>
    have request := request_accepted n.estop asserted source
    rcases request with ⟨known, taken, latched⟩ | ⟨unknown, refused⟩
    · have stopped : ∀ out, emergencyStopped (⟨.setEmergencyStop asserted source now, out⟩ :: h) = asserted := fun out => by
        rw [emergencyStopped, newest_cons, Event.emergencyStop?, if_pos known, Option.some_or, Option.any_some]
      have heard : ∀ out, Knows cfg (⟨.setEmergencyStop asserted source now, out⟩ :: h)
          { n with estop := (n.estop.request asserted source).1, forceSafetyPub := true } := fun out =>
        ⟨latched.trans (stopped out).symm, knows.link.other rfl, knows.vehicle.other rfl, knows.rtk.other rfl, knows.estimator.other rfl,
          knows.mission.other rfl, knows.commands⟩
      simp only [handle, taken, if_true]
      refine ⟨(heard _).step now, fun p member => ?_⟩
      rcases List.mem_append.mp member with cycle | response
      · exact (heard _).backed valid production now p cycle
      · obtain rfl := List.mem_singleton.mp response
        exact trivial
    · have same : ∀ out, emergencyStopped (⟨.setEmergencyStop asserted source now, out⟩ :: h) = emergencyStopped h := fun out => by
        rw [emergencyStopped, newest_cons, Event.emergencyStop?, if_neg unknown, Option.none_or, emergencyStopped]
      simp only [handle, refused, Bool.false_eq_true, if_false]
      refine ⟨⟨knows.estop.trans (same _).symm, knows.link.other rfl, knows.vehicle.other rfl, knows.rtk.other rfl,
        knows.estimator.other rfl, knows.mission.other rfl, knows.commands⟩, fun p member => ?_⟩
      obtain rfl := List.mem_singleton.mp member
      exact trivial
  | watchdog now =>
    have heard : ∀ out, Knows cfg (⟨.watchdog now, out⟩ :: h) n := fun out =>
      ⟨knows.estop, knows.link.other rfl, knows.vehicle.other rfl, knows.rtk.other rfl, knows.estimator.other rfl, knows.mission.other rfl,
        knows.commands⟩
    simp only [handle]
    rcases onWatchdog_cases cfg now n with same | same
    · rw [same]
      exact ⟨heard _, fun p member => absurd member List.not_mem_nil⟩
    · rw [same]
      exact ⟨(heard _).ticked false now, (heard _).backed valid production now⟩
  | shutdownStop now =>
    refine ⟨⟨knows.estop, knows.link.other rfl, knows.vehicle.other rfl, knows.rtk.other rfl, knows.estimator.other rfl,
      knows.mission.other rfl, knows.commands⟩, fun p member => ?_⟩
    obtain rfl := List.mem_singleton.mp member
    exact .inl rfl

/-- Whatever comes in whatever order, every motion that is no canonical STOP, every gate verdict and every emergency-stop state that the
node publishes is backed by what it has heard. -/
theorem run_backed (cfg : NodeConfig) (valid : cfg.valid = true) (production : cfg.limits.profileShapingTestMode = false) {h : List Heard}
    {n : MotionGuardNode} (run : Run (handle cfg) (start cfg) h n) :
    Everywhere (fun x earlier => ∀ p ∈ x.out, Backed cfg (x :: earlier) x.event.now p) h := by
  have limits : limitsValid cfg.limits = true := by
    rw [NodeConfig.valid, Bool.and_eq_true] at valid
    exact valid.2
  refine (run.invariant (fun h n => Knows cfg h n ∧ Everywhere (fun x earlier => ∀ p ∈ x.out, Backed cfg (x :: earlier) x.event.now p) h)
    ⟨knows_start cfg, trivial⟩ ?_).2
  rintro h n e ⟨knows, all⟩ _
  obtain ⟨next, backed⟩ := handle_backed limits production knows e
  exact ⟨next, backed, all⟩

/-- Every source healthy and a session of three commands; then the tablet stops. -/
def stopped : List Event :=
  let track (seq : Nat) : Command :=
    { seq, mode := 2, speedBodyX := .fin 2, yawSetpoint := .nan, yawRateSetpoint := .fin (1 / 10), valid := true }
  [.link Guard.healthy.link 0, .vehicle Guard.healthy.vehicle 7 0, .rtk Guard.healthy.rtk 0, .estimator Guard.healthy.est 0,
    .mission missionStateRunning 0, .command (track 1) (1 / 10), .command (track 2) (1 / 5), .command (track 3) (3 / 10),
    .setEmergencyStop true "tablet" (2 / 5)]

theorem run_backed_stopped :
    Everywhere (fun x earlier => ∀ p ∈ x.out, Backed {} (x :: earlier) x.event.now p) (exec (handle {}) [] (start {}) stopped).1 ∧
      (exec (handle {}) [] (start {}) stopped).1.map (fun x => x.out.head?) =
        [some (.command 3 canonicalStop 7), some (.command 2 ⟨.trackRate, .fin 1, .nan, .fin (1 / 10)⟩ 0),
          some (.command 1 canonicalStop 7), some (.command 0 canonicalStop 7), none, none, none, none, none] :=
  ⟨run_backed {} (by decide +kernel) rfl (exec_run stopped .start), by decide +kernel⟩

end MotionGuardNode

end Dyx3.MotionGuard
