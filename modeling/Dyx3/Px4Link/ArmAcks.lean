import Dyx3.Px4Link.ArmOffboard

/-!
The acks of arm and disarm commands: PX4 answers each of them once, in the order of their publication, and px4_link
gives an answer to the oldest request that waits for one. The two agree while no request leaves before its answer
and none is published out of turn.
-/

namespace Dyx3.Px4Link

open Lib

/-- The command of the request was published and its ack has not been taken. -/
def Pending.waits (p : Pending) : Bool := p.isArm && p.cmdSent && !p.fcuAccepted

namespace Node

variable {p : NodeParams} {n m : Node} {now : ℚ} {it q : Pending} {linkOk : Bool} {ofb : OffboardStep} {generation : Nat}

def arms (n : Node) : List Pending := n.pending.filter (·.isArm)

/-- The arm and disarm requests that wait for their ack. -/
def waiting (n : Node) : List Nat := (n.arms.filter (·.waits)).map (·.header)

/-- The request an arm or disarm command is published for. -/
def armCommand : Out → Option Nat
  | .vehicleCommand command _ _ request => if command = cmdArmDisarm then request else none
  | _ => none

/-- The request that is answered with REJECTED_BY_FCU. -/
def rejection : Out → Option Nat
  | .armResponse header _ .rejectedByFcu => some header
  | _ => none

/-! ### What a call does to the arm requests -/

/-- vehicle_status shows what the request asked for. -/
def confirms (p : NodeParams) (n : Node) (now : ℚ) (it : Pending) : Bool :=
  now - n.statusAt ≤ p.staleVehicleStatus && (decide (n.armingState = armed) == it.armTarget) && n.armingState ≠ 0

/-- A request whose command was published leaves by confirmation or timeout. -/
def leaves (p : NodeParams) (n : Node) (now : ℚ) (it : Pending) : Bool :=
  it.isArm && !it.parked && (n.confirms p now it || it.deadline < now)

/-- A held arm is let go: PX4 has left OFFBOARD. -/
def letGo (p : NodeParams) (n : Node) (now : ℚ) (it : Pending) : Bool := it.parked && !n.seesOffboard p now

def released (p : NodeParams) (now : ℚ) (it : Pending) : Pending :=
  { it with armAfterLeaveOffboard := false, cmdSent := true, cmdSentAt := now, deadline := now + p.armConfirmTimeout }

/-- What one turn of the loop makes of an arm request. -/
def servedArm (p : NodeParams) (n : Node) (now : ℚ) (it : Pending) : Option Pending :=
  if n.letGo p now it then some (released p now it)
  else if n.leaves p now it || (it.parked && it.deadline < now) then none
  else some it

theorem serviceOne_arm (arm : it.isArm = true) (sees : m.navOffboard = n.seesOffboard p now)
    (status : m.statusAt = n.statusAt) (state : m.armingState = n.armingState) (linkOk : Bool) (ofb : OffboardStep) :
    (m.serviceOne p now linkOk ofb it).1 = n.servedArm p now it ∧
    (m.serviceOne p now linkOk ofb it).2.filterMap armCommand = (if n.letGo p now it then [it.header] else []) ∧
    (m.serviceOne p now linkOk ofb it).2.filterMap rejection = [] := by
  unfold serviceOne servedArm letGo leaves released
  cases parked : it.parked with
  | true =>
    cases nav : n.seesOffboard p now with
    | false => simp [sees, nav, armCommand, rejection]
    | true =>
      by_cases late : it.deadline < now
      · simp [sees, nav, late, armCommand, rejection]
      · simp [sees, nav, late]
  | false =>
    have shows : (decide (now - m.statusAt ≤ p.staleVehicleStatus) && (decide (m.armingState = armed) == it.armTarget) &&
        decide (m.armingState ≠ 0)) = n.confirms p now it := by
      simp [confirms, status, state]
    simp only [shows, arm, Bool.false_eq_true, if_false, if_true]
    by_cases shown : n.confirms p now it = true
    · simp [shown, armCommand, rejection]
    · by_cases late : it.deadline < now
      · simp [shown, late, armCommand, rejection]
      · simp [shown, late]

theorem serviceOne_other (other : it.isArm = false) (p : NodeParams) (m : Node) (now : ℚ) (linkOk : Bool)
    (ofb : OffboardStep) :
    (∀ q, (m.serviceOne p now linkOk ofb it).1 = some q → q.isArm = false) ∧
    (m.serviceOne p now linkOk ofb it).2.filterMap armCommand = [] ∧
    (m.serviceOne p now linkOk ofb it).2.filterMap rejection = [] := by
  unfold serviceOne
  have free : it.parked = false := by simp [Pending.parked, other]
  simp only [free, other, Bool.false_eq_true, if_false]
  split
  · simp [armCommand, rejection]
  split
  · simp [armCommand, rejection]
  split
  · simp [armCommand, rejection]
  · refine ⟨?_, rfl, rfl⟩
    rintro q ⟨⟩
    exact other

theorem arms_noteModeCommandPublished (n : Node) (offboard : Bool) (now : ℚ) :
    (n.noteModeCommandPublished offboard now).arms = n.arms := by
  unfold arms noteModeCommandPublished
  induction n.pending with
  | nil => rfl
  | cons it rest ih =>
    cases arm : it.isArm with
    | true => simpa [arm] using ih
    | false => simpa [arm] using ih

/-- What the loop of a cycle at `now` reads is as the cycle found it, but for the new nav state. -/
structure Unserved (p : NodeParams) (n : Node) (now : ℚ) (m : Node) : Prop where
  arms : m.arms = n.arms
  sees : m.navOffboard = n.seesOffboard p now
  status : m.statusAt = n.statusAt
  state : m.armingState = n.armingState

theorem Unserved.askOffboard (unserved : Unserved p n now m) (ofb : OffboardStep) :
    Unserved p n now (m.askOffboard now ofb).1 ∧ (m.askOffboard now ofb).2.filterMap armCommand = [] ∧
      (m.askOffboard now ofb).2.filterMap rejection = [] := by
  unfold Node.askOffboard
  split
  · exact ⟨⟨(arms_noteModeCommandPublished m _ _).trans unserved.arms, unserved.sees, unserved.status, unserved.state⟩,
      rfl, rfl⟩
  · exact ⟨unserved, rfl, rfl⟩

theorem Unserved.leaveOffboard (unserved : Unserved p n now m) (linkOk : Bool) (ofb : OffboardStep) :
    Unserved p n now (m.leaveOffboard now linkOk ofb).1 ∧
      (m.leaveOffboard now linkOk ofb).2.filterMap armCommand = [] ∧
      (m.leaveOffboard now linkOk ofb).2.filterMap rejection = [] := by
  unfold Node.leaveOffboard
  split
  · split
    · exact ⟨⟨unserved.arms, unserved.sees, unserved.status, unserved.state⟩, rfl, rfl⟩
    split
    · exact ⟨⟨(arms_noteModeCommandPublished m _ _).trans unserved.arms, unserved.sees, unserved.status,
        unserved.state⟩, rfl, rfl⟩
    · exact ⟨unserved, rfl, rfl⟩
  · exact ⟨unserved, rfl, rfl⟩

theorem Unserved.startUlogIfDue (unserved : Unserved p n now m) (linkOk : Bool) (generation : Nat) :
    Unserved p n now (m.startUlogIfDue p linkOk generation).1 ∧
      (m.startUlogIfDue p linkOk generation).2.filterMap armCommand = [] ∧
      (m.startUlogIfDue p linkOk generation).2.filterMap rejection = [] := by
  unfold Node.startUlogIfDue
  split
  · exact ⟨unserved, rfl, rfl⟩
  split
  · exact ⟨unserved, rfl, rfl⟩
  · exact ⟨⟨unserved.arms, unserved.sees, unserved.status, unserved.state⟩, rfl, rfl⟩

theorem servedArm_isArm (arm : it.isArm = true) (served : n.servedArm p now it = some q) : q.isArm = true := by
  unfold servedArm at served
  split at served
  · cases served
    exact arm
  split at served
  · cases served
  · cases served
    exact arm

/-- The loop over the requests: each arm request as `servedArm` says, the commands of those let go, no rejection. -/
theorem Unserved.servicePending (unserved : Unserved p n now m) (linkOk : Bool) (ofb : OffboardStep) :
    (m.servicePending p now linkOk ofb).1.arms = n.arms.filterMap (n.servedArm p now) ∧
    (m.servicePending p now linkOk ofb).2.filterMap armCommand =
      (n.arms.filter (n.letGo p now)).map (·.header) ∧
    (m.servicePending p now linkOk ofb).2.filterMap rejection = [] := by
  obtain ⟨same, sees, status, state⟩ := unserved
  rw [← same]
  simp only [Node.servicePending, Node.arms]
  induction m.pending with
  | nil => exact ⟨rfl, rfl, rfl⟩
  | cons it rest ih =>
    obtain ⟨kept, sent, rejected⟩ := ih
    rw [List.flatMap_cons, List.filterMap_append, List.filterMap_append, sent, rejected]
    cases arm : it.isArm with
    | true =>
      obtain ⟨served, command, none⟩ := serviceOne_arm arm sees status state linkOk ofb
      rw [command, none, List.filter_cons_of_pos arm]
      refine ⟨?_, ?_, rfl⟩
      · cases found : n.servedArm p now it with
        | none => simpa only [List.filterMap_cons, served, found] using kept
        | some q =>
          simp only [List.filterMap_cons, served, found]
          rw [List.filter_cons_of_pos (servedArm_isArm arm found), kept]
      · cases going : n.letGo p now it with
        | true => rw [List.filter_cons_of_pos going, List.map_cons, if_pos rfl, List.singleton_append]
        | false => rw [List.filter_cons_of_neg (by simp [going]), if_neg (by simp), List.nil_append]
    | false =>
      obtain ⟨served, command, none⟩ := serviceOne_other arm p m now linkOk ofb
      rw [command, none, List.filter_cons_of_neg (by simp [arm])]
      refine ⟨?_, rfl, rfl⟩
      cases found : (m.serviceOne p now linkOk ofb it).1 with
      | none => simpa only [List.filterMap_cons, found] using kept
      | some q =>
        simp only [List.filterMap_cons, found]
        rw [List.filter_cons_of_neg (by simp [served q found])]
        exact kept

/-- The writer cycle, as far as the arm requests go. -/
theorem cycle_arms (p : NodeParams) (n : Node) (now : ℚ) (linkOk : Bool) (generation : Nat) :
    (n.cycle p now linkOk generation).1.arms = n.arms.filterMap (n.servedArm p now) ∧
    (n.cycle p now linkOk generation).2.filterMap armCommand = (n.arms.filter (n.letGo p now)).map (·.header) ∧
    (n.cycle p now linkOk generation).2.filterMap rejection = [] := by
  have start : Unserved p n now (n.stepOffboard p now linkOk).1 := ⟨rfl, rfl, rfl, rfl⟩
  unfold cycle
  generalize n.stepOffboard p now linkOk = stepped at start
  obtain ⟨m, ofb⟩ := stepped
  simp only at start ⊢
  obtain ⟨asked, askedCommands, askedRejections⟩ := start.askOffboard ofb
  obtain ⟨left, leftCommands, leftRejections⟩ := asked.leaveOffboard linkOk ofb
  obtain ⟨logged, loggedCommands, loggedRejections⟩ := left.startUlogIfDue linkOk generation
  obtain ⟨served, commands, rejections⟩ := logged.servicePending linkOk ofb
  have beats : (if ofb.publishHeartbeat then [Out.setpointSet ofb.stopOnly] else []).filterMap armCommand = [] ∧
      (if ofb.publishHeartbeat then [Out.setpointSet ofb.stopOnly] else []).filterMap rejection = [] := by
    split <;> exact ⟨rfl, rfl⟩
  refine ⟨served, ?_, ?_⟩
  · simp only [List.filterMap_append, beats.1, askedCommands, leftCommands, loggedCommands, List.nil_append]
    exact commands
  · simp only [List.filterMap_append, beats.2, askedRejections, leftRejections, loggedRejections, List.nil_append]
    exact rejections

/-! ### The order of the acks -/

/-- The oldest request that waits takes the ack; the times of the sent commands are past. -/
theorem takeArmAck_oldest {pending : List Pending} (past : ∀ it ∈ pending, it.waits = true → it.cmdSentAt ≤ now)
    (accepted : Bool) :
    (takeArmAck accepted now pending = (pending, []) ∧ ∀ it ∈ pending, it.waits = false) ∨
    ∃ before it after, pending = before ++ it :: after ∧ (∀ b ∈ before, b.waits = false) ∧ it.waits = true ∧
      takeArmAck accepted now pending =
        (before ++ (if accepted then [{ it with fcuAccepted := true }] else []) ++ after,
          if accepted then [] else [.armResponse it.header false .rejectedByFcu]) := by
  induction pending with
  | nil => exact .inl ⟨rfl, by simp⟩
  | cons it rest ih =>
    have takes : eligible true now it = it.waits := by
      have sent := past it List.mem_cons_self
      have split : eligible true now it = (it.waits && decide (it.cmdSentAt ≤ now)) := by simp [eligible, Pending.waits]
      cases waits : it.waits with
      | true => simp [split, waits, sent waits]
      | false => simp [split, waits]
    cases waits : it.waits with
    | true =>
      refine .inr ⟨[], it, rest, rfl, by simp, waits, ?_⟩
      cases accepted <;> simp [takeArmAck, takes, waits]
    | false =>
      rcases ih (fun q member => past q (List.mem_cons_of_mem it member)) with
        ⟨none, quiet⟩ | ⟨before, q, after, rfl, quiet, waits', taken⟩
      · refine .inl ⟨by simp [takeArmAck, takes, waits, none], ?_⟩
        intro q member
        rcases List.mem_cons.mp member with rfl | old
        · exact waits
        · exact quiet q old
      · refine .inr ⟨it :: before, q, after, rfl, ?_, waits', ?_⟩
        · intro b member
          rcases List.mem_cons.mp member with rfl | old
          · exact waits
          · exact quiet b old
        · simp [takeArmAck, takes, waits, taken]

/-- The times a call reads: none, or one that the clock has shown. -/
def Event.time : Event → Option ℚ
  | .arm _ _ now _ => some now
  | .setOffboard _ _ now _ => some now
  | .vehicleStatus _ _ now => some now
  | .commandAck _ now => some now
  | .step now _ _ => now
  | .timer now _ _ => now
  | .shutdownStop _ => none

/-- Whether the cycle of a step runs at `now`. -/
def runsAt (n : Node) (now : ℚ) : Bool := !n.shuttingDown && !decide (now < 0 ∨ (0 ≤ n.lastStep ∧ now < n.lastStep))

/-- The time of the writer cycle that an event runs, if it runs one. -/
def cycleAt (p : NodeParams) (n : Node) : Event → Option ℚ
  | .step (some now) _ _ => if n.runsAt now then some now else none
  | .timer (some now) _ _ =>
    if p.eventDriven ∧ 0 ≤ n.lastStep ∧ n.lastStep ≤ now ∧ now - n.lastStep < 1 / 2 / p.publishRate then none
    else if n.runsAt now then some now else none
  | _ => none

/-- An ack of this link's arm and disarm commands that ends their wait. -/
def endsArm (a : VehicleCommandAck) : Bool :=
  a.result ≠ resultInProgress && a.command = cmdArmDisarm && a.targetSystem = linkSystemId &&
    a.targetComponent = linkComponentId

/-- An arm call that publishes its command at once: it is not refused and PX4 does not have to leave OFFBOARD first. -/
def armsNow (n : Node) (target healthy : Bool) : Bool :=
  !(target && !healthy) && !(target && n.navOffboard && n.offboard.state = .disabled)

/-- What an event does to the arm requests. -/
inductive ArmMoves (p : NodeParams) (n : Node) : Event → Node → List Out → Prop where
  | quiet {e : Event} {m : Node} {outs : List Out} (arms : m.arms = n.arms) (silent : outs.filterMap armCommand = [])
      (none : outs.filterMap rejection = []) : ArmMoves p n e m outs
  | parks {e : Event} {m : Node} (it : Pending) (arms : m.arms = n.arms ++ [it]) (parked : it.parked = true)
      (unsent : it.cmdSent = false) (unmarked : it.fcuAccepted = false) : ArmMoves p n e m []
  | sends {header : Nat} {target : Bool} {now : ℚ} {healthy : Bool} {m : Node} {outs : List Out} (it : Pending)
      (atOnce : n.armsNow target healthy = true) (arms : m.arms = n.arms ++ [it]) (name : it.header = header)
      (sent : it.cmdSentAt = now) (waits : it.waits = true) (free : it.parked = false)
      (command : outs.filterMap armCommand = [header]) (none : outs.filterMap rejection = []) :
      ArmMoves p n (.arm header target now healthy) m outs
  | serves {e : Event} {now : ℚ} {m : Node} {outs : List Out} (cycle : n.cycleAt p e = some now) (time : e.time = some now)
      (arms : m.arms = n.arms.filterMap (n.servedArm p now))
      (commands : outs.filterMap armCommand = (n.arms.filter (n.letGo p now)).map (·.header))
      (none : outs.filterMap rejection = []) : ArmMoves p n e m outs
  | acked {a : VehicleCommandAck} {now : ℚ} {m : Node} {outs : List Out} (ends : endsArm a = true)
      (taken : takeArmAck (a.result == resultAccepted) now n.pending = (m.pending, outs)) :
      ArmMoves p n (.commandAck a now) m outs

theorem arm_moves (p : NodeParams) (n : Node) (header : Nat) (target : Bool) (now : ℚ) (healthy : Bool) :
    ArmMoves p n (.arm header target now healthy) (n.arm p header target now healthy).1
      (n.arm p header target now healthy).2 := by
  unfold arm
  by_cases refused : (target && !healthy) = true
  · rw [if_pos refused]
    exact .quiet rfl rfl rfl
  rw [if_neg refused]
  by_cases held : (target && n.navOffboard && n.offboard.state = .disabled) = true
  · rw [if_pos held]
    refine .parks { armTarget := target, header, armAfterLeaveOffboard := true, deadline := now + leaveOffboardTimeout }
      ?_ rfl rfl rfl
    simp [arms, requestLeaveOffboard]
  · rw [if_neg held]
    refine .sends { armTarget := target, header, cmdSent := true, cmdSentAt := now, deadline := now + p.armConfirmTimeout }
      ?_ ?_ rfl rfl rfl rfl ?_ rfl
    · rw [armsNow, Bool.eq_false_iff.mpr refused, Bool.eq_false_iff.mpr held]
      rfl
    · simp [arms]
    · simp [armCommand]

theorem commandAck_moves (p : NodeParams) (n : Node) (a : VehicleCommandAck) (now : ℚ) :
    ArmMoves p n (.commandAck a now) (n.onVehicleCommandAck a now).1 (n.onVehicleCommandAck a now).2 := by
  unfold onVehicleCommandAck
  by_cases progress : a.result = resultInProgress
  · rw [if_pos progress]
    exact .quiet rfl rfl rfl
  rw [if_neg progress]
  split
  swap
  · exact .quiet rfl rfl rfl
  unfold onArmModeCommandAck
  split
  · exact .quiet rfl rfl rfl
  rename_i own
  push Not at own
  simp only
  split
  · rename_i command
    exact .acked (by simp [endsArm, progress, command, own]) rfl
  split
  · exact .quiet rfl rfl rfl
  split
  · -- Marks of the OFFBOARD requests.
    refine .quiet ?_ rfl rfl
    simp only [arms]
    induction n.pending with
    | nil => rfl
    | cons it rest ih =>
      cases arm : it.isArm with
      | true => simpa [arm, eligible] using ih
      | false =>
        rw [List.map_cons, List.filter_cons_of_neg (by split <;> simp [arm]), List.filter_cons_of_neg (by simp [arm])]
        exact ih
  split
  · exact .quiet rfl rfl rfl
  · refine .quiet ?_ ?_ ?_
    · simp only [arms, List.filter_filter]
      refine List.filter_congr fun it _ => ?_
      cases arm : it.isArm <;> simp [eligible, arm]
    all_goals
      rw [List.filterMap_map]
      simp [armCommand, rejection]

theorem step_moves (p : NodeParams) (n : Node) {e : Event} {now : Option ℚ} (linkOk : Bool) (generation : Nat)
    (cycle : ∀ t, now = some t → n.runsAt t = true → n.cycleAt p e = some t ∧ e.time = some t) :
    ArmMoves p n e (n.step p now linkOk generation).1 (n.step p now linkOk generation).2 := by
  unfold step
  split
  · exact .quiet rfl rfl rfl
  rename_i live
  split
  · exact .quiet rfl rfl rfl
  rename_i t
  split
  · exact .quiet rfl rfl rfl
  · rename_i fits
    have runs : n.runsAt t = true := by
      simp only [runsAt, Bool.and_eq_true, Bool.not_eq_true', decide_eq_false_iff_not]
      exact ⟨by simpa using live, fits⟩
    obtain ⟨runs, time⟩ := cycle t rfl runs
    obtain ⟨arms, commands, none⟩ := cycle_arms p n t linkOk generation
    exact .serves runs time arms commands none

theorem handle_moves (p : NodeParams) (n : Node) (e : Event) : ArmMoves p n e (n.handle p e).1 (n.handle p e).2 := by
  cases e with
  | arm header target now healthy => exact arm_moves p n header target now healthy
  | setOffboard header enable now healthy =>
    simp only [handle, setOffboard]
    split
    · exact .quiet rfl rfl rfl
    split
    · exact .quiet rfl rfl rfl
    · exact .quiet (by simp [arms]) rfl rfl
  | vehicleStatus => exact .quiet rfl rfl rfl
  | commandAck a now => exact commandAck_moves p n a now
  | step now linkOk generation =>
    refine step_moves p n linkOk generation ?_
    rintro t rfl runs
    simp [cycleAt, runs, Event.time]
  | timer now linkOk generation =>
    simp only [handle, onTimer]
    split
    · exact step_moves p n linkOk generation (by simp)
    split
    · exact .quiet rfl rfl rfl
    · rename_i t due
      refine step_moves p n linkOk generation ?_
      rintro _ ⟨⟩ runs
      refine ⟨?_, rfl⟩
      rw [cycleAt, if_neg due, if_pos runs]
  | shutdownStop handshakeOk =>
    simp only [handle, publishShutdownStop]
    split
    · exact .quiet rfl rfl rfl
    · exact .quiet rfl rfl rfl

/-! ### PX4 -/

/-- px4_link with the commands that PX4 has yet to answer, oldest first. Requests are numbered as they come in. -/
structure ArmWorld where
  node : Node := {}
  owed : List Nat := []
  calls : Nat := 0
  clock : ℚ := 0
  deriving DecidableEq

namespace ArmWorld

/-- A service call, PX4's answer to the oldest command it owes one, or another event of px4_link. -/
inductive Event where
  | arm (target : Bool) (now : ℚ) (healthy : Bool)
  | setOffboard (enable : Bool) (now : ℚ) (healthy : Bool)
  | answer (result : Nat) (now : ℚ)
  | other (e : Node.Event)
  deriving DecidableEq

/-- What px4_link sees of the event. -/
def seen (w : ArmWorld) : Event → Node.Event
  | .arm target now healthy => .arm w.calls target now healthy
  | .setOffboard enable now healthy => .setOffboard w.calls enable now healthy
  | .answer result now => .commandAck ⟨cmdArmDisarm, result, linkSystemId, linkComponentId⟩ now
  | .other e => e

/-- The command that the event answers is no longer owed an answer. -/
def stillOwed (w : ArmWorld) : Event → List Nat
  | .answer _ _ => w.owed.tail
  | _ => w.owed

def step (p : NodeParams) (w : ArmWorld) (e : Event) : ArmWorld × List Out :=
  let (node, outs) := w.node.handle p (w.seen e)
  ({ node, owed := w.stillOwed e ++ outs.filterMap armCommand, calls := w.calls + 1,
     clock := (w.seen e).time.getD w.clock }, outs)

/-- The surroundings: the clock does not run backwards, PX4 gives one final answer to each arm or disarm command in
the order of their publication, and every service call is a new request. -/
def Lawful (w : ArmWorld) (e : Event) : Prop :=
  (∀ t ∈ (w.seen e).time, w.clock ≤ t) ∧
    match e with
    | .arm .. | .setOffboard .. => True
    | .answer result _ => w.owed ≠ [] ∧ result ≠ resultInProgress
    | .other (.arm ..) | .other (.setOffboard ..) => False
    | .other (.commandAck a _) => endsArm a = false
    | .other _ => True

/-- In a writer cycle at `now` a request leaves before its answer only together with all that wait behind it. A held arm
is let go only while every command that PX4 owes an answer belongs to a request that waits for it and goes on waiting,
and while no request waits behind the held one. -/
def CycleInOrder (p : NodeParams) (w : ArmWorld) (now : ℚ) : Prop :=
  (w.node.arms.Pairwise fun a b => a.waits = true → w.node.leaves p now a = true → b.waits = true →
    w.node.leaves p now b = true) ∧
  ((∃ it ∈ w.node.arms, w.node.letGo p now it = true) → w.node.waiting = w.owed ∧
    (∀ it ∈ w.node.arms, it.waits = true → w.node.leaves p now it = false) ∧
    w.node.arms.Pairwise fun a b => w.node.letGo p now a = true → b.waits = false)

/-- A service call publishes its command only while every command that PX4 owes an answer belongs to a request that
waits for it. -/
def InOrder (p : NodeParams) (w : ArmWorld) (e : Event) : Prop :=
  match e with
  | .arm target _ healthy => w.node.armsNow target healthy = true → w.node.waiting = w.owed
  | e => ∀ now ∈ w.node.cycleAt p (w.seen e), w.CycleInOrder p now

theorem InOrder.cycle {w : ArmWorld} {e : Event} (order : InOrder p w e)
    (cycle : w.node.cycleAt p (w.seen e) = some now) : CycleInOrder p w now := by
  cases e with
  | arm => cases cycle
  | setOffboard | answer | other => exact order now cycle

instance (w : ArmWorld) : DecidablePred w.Lawful
  | .arm .. | .setOffboard .. => inferInstanceAs (Decidable (_ ∧ True))
  | .answer result _ => inferInstanceAs (Decidable (_ ∧ w.owed ≠ [] ∧ result ≠ resultInProgress))
  | .other (.arm ..) | .other (.setOffboard ..) => inferInstanceAs (Decidable (_ ∧ False))
  | .other (.commandAck a _) => inferInstanceAs (Decidable (_ ∧ endsArm a = false))
  | .other (.vehicleStatus ..) | .other (.step ..) | .other (.timer ..) | .other (.shutdownStop ..) =>
    inferInstanceAs (Decidable (_ ∧ True))

/-! ### Runs -/

/-- The requests wait in the order of the answers to come, with none before them that they could take for theirs. -/
structure Matched (w : ArmWorld) : Prop where
  order : w.node.waiting <+: w.owed
  past : ∀ it ∈ w.node.arms, it.waits = true → it.cmdSentAt ≤ w.clock
  held : ∀ it ∈ w.node.arms, it.parked = true → it.cmdSent = false ∧ it.fcuAccepted = false

end ArmWorld

theorem waiting_eq (n : Node) : n.waiting = (n.pending.filter (·.waits)).map (·.header) := by
  simp only [waiting, arms, List.filter_filter]
  congr 1
  refine List.filter_congr fun it _ => ?_
  cases arm : it.isArm <;> simp [Pending.waits, arm]

/-- Once an element has `leaves`, all behind it have: what stays is a first part. -/
theorem filter_stays {α : Type} {l : List α} {leaves : α → Bool}
    (order : l.Pairwise fun a b => leaves a = true → leaves b = true) : (l.filter fun a => !leaves a) <+: l := by
  induction l with
  | nil => exact List.prefix_rfl
  | cons a l ih =>
    obtain ⟨later, order⟩ := List.pairwise_cons.mp order
    cases going : leaves a with
    | false =>
      rw [List.filter_cons_of_pos (by simp [going])]
      exact (List.prefix_cons_inj a).mpr (ih order)
    | true =>
      have gone : (a :: l).filter (fun a => !leaves a) = [] := by
        rw [List.filter_eq_nil_iff]
        intro b member
        rcases List.mem_cons.mp member with rfl | old
        · simp [going]
        · simp [later b old going]
      rw [gone]
      exact List.nil_prefix

/-- Elements of two kinds, all of the one before all of the other. -/
theorem filter_sorted {α : Type} {l : List α} {first second : α → Bool}
    (apart : ∀ a ∈ l, second a = true → first a = false)
    (order : l.Pairwise fun a b => second a = true → first b = false) :
    l.filter (fun a => second a || first a) = l.filter first ++ l.filter second := by
  induction l with
  | nil => rfl
  | cons a l ih =>
    obtain ⟨later, order⟩ := List.pairwise_cons.mp order
    have rest := ih (fun b member => apart b (List.mem_cons_of_mem a member)) order
    cases last : second a with
    | true =>
      have none : l.filter first = [] := List.filter_eq_nil_iff.mpr fun b member => by simp [later b member last]
      rw [List.filter_cons_of_pos (by simp [last]), rest, List.filter_cons_of_pos last,
        List.filter_cons_of_neg (by simp [apart a List.mem_cons_self last]), none, List.nil_append, List.nil_append]
    | false =>
      rw [List.filter_cons_of_neg (p := second) (by simp [last])]
      cases early : first a with
      | true => rw [List.filter_cons_of_pos (by simp [early]), List.filter_cons_of_pos early, rest, List.cons_append]
      | false =>
        rw [List.filter_cons_of_neg (by simp [last, early]), List.filter_cons_of_neg (by simp [early]), rest]

/-- After a cycle wait those that waited and did not leave, and those let go. -/
theorem served_waiting {l : List Pending}
    (held : ∀ it ∈ l, it.parked = true → it.cmdSent = false ∧ it.fcuAccepted = false) (arm : ∀ it ∈ l, it.isArm = true) :
    ((l.filterMap (n.servedArm p now)).filter (·.waits)).map (·.header) =
      (l.filter fun it => n.letGo p now it || (it.waits && !n.leaves p now it)).map (·.header) := by
  induction l with
  | nil => rfl
  | cons it rest ih =>
    have rest := ih (fun q member => held q (List.mem_cons_of_mem it member))
      fun q member => arm q (List.mem_cons_of_mem it member)
    have isArm := arm it List.mem_cons_self
    have unsent : it.parked = true → it.waits = false := by
      intro parked
      simp [Pending.waits, (held it List.mem_cons_self parked).1]
    rw [List.filterMap_cons]
    cases going : n.letGo p now it with
    | true =>
      have parked : it.parked = true := by
        simp only [letGo, Bool.and_eq_true] at going
        exact going.1
      have waits : (released p now it).waits = true := by
        simp [Pending.waits, released, isArm, (held it List.mem_cons_self parked).2]
      simp only [servedArm, going, if_true]
      rw [List.filter_cons_of_pos waits, List.filter_cons_of_pos (by simp [going]), List.map_cons, List.map_cons, rest]
      rfl
    | false =>
      by_cases gone : (n.leaves p now it || (it.parked && decide (it.deadline < now))) = true
      · have quiet : (it.waits && !n.leaves p now it) = false := by
          rw [Bool.or_eq_true, Bool.and_eq_true] at gone
          rcases gone with leaves | ⟨parked, _⟩
          · simp [leaves]
          · simp [unsent parked]
        simp only [servedArm, going, Bool.false_eq_true, if_false, gone, if_true]
        rw [List.filter_cons_of_neg (by simp [going, quiet]), rest]
      · have stays : n.leaves p now it = false := by
          rw [Bool.or_eq_true, not_or] at gone
          simpa using gone.1
        simp only [servedArm, going, Bool.false_eq_true, if_false, gone]
        cases waits : it.waits with
        | true =>
          rw [List.filter_cons_of_pos waits, List.filter_cons_of_pos (by simp [waits, stays]), List.map_cons, List.map_cons,
            rest]
        | false =>
          rw [List.filter_cons_of_neg (by simp [waits]), List.filter_cons_of_neg (by simp [going, waits]), rest]

theorem servedArm_cases (served : n.servedArm p now it = some q) :
    q = it ∨ (n.letGo p now it = true ∧ q = released p now it) := by
  unfold servedArm at served
  split at served
  · rename_i going
    cases served
    exact .inr ⟨going, rfl⟩
  split at served
  · cases served
  · cases served
    exact .inl rfl

namespace ArmWorld

variable {w : ArmWorld}

theorem mem_arms : it ∈ n.arms ↔ it ∈ n.pending ∧ it.isArm = true := List.mem_filter

/-- The order and the times after a cycle. -/
theorem Matched.serve (matched : Matched w) (ahead : w.clock ≤ now) (arms : m.arms = w.node.arms.filterMap (w.node.servedArm p now))
    (order : CycleInOrder p w now) (calls : Nat) :
    Matched { node := m, owed := w.owed ++ (w.node.arms.filter (w.node.letGo p now)).map (·.header), calls, clock := now } := by
  have served : m.waiting =
      (w.node.arms.filter fun it => w.node.letGo p now it || (it.waits && !w.node.leaves p now it)).map (·.header) := by
    rw [waiting, arms]
    exact served_waiting matched.held fun it member => (mem_arms.mp member).2
  refine ⟨?_, ?_, ?_⟩
  · rw [served]
    by_cases going : ∃ it ∈ w.node.arms, w.node.letGo p now it = true
    · obtain ⟨all, stay, behind⟩ := order.2 going
      have waiting_eq : (w.node.arms.filter fun it => w.node.letGo p now it || (it.waits && !w.node.leaves p now it)) =
          w.node.arms.filter (·.waits) ++ w.node.arms.filter (w.node.letGo p now) := by
        rw [← filter_sorted ?_ behind]
        · refine List.filter_congr fun it member => ?_
          cases waits : it.waits with
          | true => simp [stay it member waits]
          | false => simp
        · intro it member going
          simp only [letGo, Bool.and_eq_true] at going
          simp [Pending.waits, (matched.held it member going.1).1]
      rw [waiting_eq, List.map_append, ← all]
      exact List.prefix_rfl
    · push Not at going
      have none : w.node.arms.filter (w.node.letGo p now) = [] := by
        rw [List.filter_eq_nil_iff]
        exact going
      have stays : (w.node.arms.filter fun it => w.node.letGo p now it || (it.waits && !w.node.leaves p now it)) =
          (w.node.arms.filter (·.waits)).filter fun it => !w.node.leaves p now it := by
        rw [List.filter_filter]
        refine List.filter_congr fun it member => ?_
        have kept : w.node.letGo p now it = false := by simpa using going it member
        rw [kept, Bool.false_or, Bool.and_comm]
      rw [stays, none, List.map_nil, List.append_nil]
      refine List.IsPrefix.trans ?_ matched.order
      refine List.IsPrefix.map _ (filter_stays ?_)
      rw [List.pairwise_filter]
      exact order.1.imp fun holds first second leaves => holds first leaves second
  · intro q member waits
    rw [arms] at member
    obtain ⟨it, known, served⟩ := List.mem_filterMap.mp member
    rcases servedArm_cases served with rfl | ⟨_, rfl⟩
    · exact (matched.past q known waits).trans ahead
    · exact le_refl _
  · intro q member parked
    rw [arms] at member
    obtain ⟨it, known, served⟩ := List.mem_filterMap.mp member
    rcases servedArm_cases served with rfl | ⟨_, rfl⟩
    · exact matched.held q known parked
    · simp [Pending.parked, released] at parked

theorem handle_answer {result : Nat} (final : result ≠ resultInProgress) :
    n.handle p (.commandAck ⟨cmdArmDisarm, result, linkSystemId, linkComponentId⟩ now) =
      ({ n with pending := (takeArmAck (result == resultAccepted) now n.pending).1 },
        (takeArmAck (result == resultAccepted) now n.pending).2) := by
  simp [handle, onVehicleCommandAck, onArmModeCommandAck, final]

/-- Whom an event answers with REJECTED_BY_FCU or marks as accepted: the request of the command that PX4 answers. -/
structure AnswersOwner (w : ArmWorld) (e : Event) (t : ArmWorld) (outs : List Out) : Prop where
  rejected : ∀ header ∈ outs.filterMap rejection,
    (∃ result now, e = .answer result now) ∧ w.owed.head? = some header
  marked : ∀ q ∈ t.node.arms, q.fcuAccepted = true → q ∈ w.node.arms ∨
    ((∃ result now, e = .answer result now) ∧ w.owed.head? = some q.header)

/-- PX4's next answer is for the oldest request that waits. -/
theorem Matched.answer {result : Nat} (matched : Matched w) (ahead : w.clock ≤ now) (final : result ≠ resultInProgress) :
    Matched (step p w (.answer result now)).1 ∧
      AnswersOwner w (.answer result now) (step p w (.answer result now)).1 (step p w (.answer result now)).2 := by
  have past : ∀ it ∈ w.node.pending, it.waits = true → it.cmdSentAt ≤ now := by
    intro it member waits
    have arm : it.isArm = true := by
      simp only [Pending.waits, Bool.and_eq_true] at waits
      exact waits.1.1
    exact (matched.past it (mem_arms.mpr ⟨member, arm⟩) waits).trans ahead
  simp only [step, seen, handle_answer final]
  rcases takeArmAck_oldest past (result == resultAccepted) with ⟨taken, quiet⟩ | ⟨before, it, after, shape, quiet, waits, taken⟩
  · have none : w.node.waiting = [] := by
      rw [waiting_eq, List.filter_eq_nil_iff.mpr fun it member => by simp [quiet it member]]
      rfl
    rw [taken]
    refine ⟨⟨?_, ?_, matched.held⟩, ⟨by simp, fun q member _ => .inl member⟩⟩
    · change w.node.waiting <+: _
      rw [none]
      exact List.nil_prefix
    · intro it member waits
      exact past it (mem_arms.mp member).1 waits
  · have arm : it.isArm = true := by
      simp only [Pending.waits, Bool.and_eq_true] at waits
      exact waits.1.1
    have silent : before.filter (·.waits) = [] := List.filter_eq_nil_iff.mpr fun b member => by simp [quiet b member]
    have order := matched.order
    rw [waiting_eq, shape, List.filter_append, silent, List.nil_append, List.filter_cons_of_pos waits, List.map_cons] at order
    obtain ⟨behind, owed⟩ := order
    have first : w.owed.head? = some it.header := by
      rw [← owed]
      rfl
    -- The request is marked or gone; the others are as they were.
    have known : ∀ q, q ∈ before ++ (if (result == resultAccepted) = true then [{ it with fcuAccepted := true }] else []) ++ after →
        q ∈ w.node.pending ∨ q = { it with fcuAccepted := true } := by
      intro q member
      rw [shape]
      simp only [List.mem_append, List.mem_cons] at member ⊢
      rcases member with (old | marked) | old
      · exact .inl (.inl old)
      · split at marked
        · exact .inr (List.mem_singleton.mp marked)
        · cases marked
      · exact .inl (.inr (.inr old))
    rw [taken]
    refine ⟨⟨?_, ?_, ?_⟩, ⟨?_, ?_⟩⟩
    · have left : (before ++ (if (result == resultAccepted) = true then [{ it with fcuAccepted := true }] else []) ++
          after).filter (·.waits) = after.filter (·.waits) := by
        rw [List.filter_append, List.filter_append, silent]
        split <;> simp [Pending.waits]
      rw [waiting_eq, left, stillOwed, ← owed]
      exact (List.prefix_append _ behind).trans (List.prefix_append _ _)
    · intro q member waits
      rcases known q (mem_arms.mp member).1 with old | rfl
      · exact past q old waits
      · simp [Pending.waits] at waits
    · intro q member parked
      obtain ⟨found, isArm⟩ := mem_arms.mp member
      rcases known q found with old | rfl
      · exact matched.held q (mem_arms.mpr ⟨old, isArm⟩) parked
      · have stored : it ∈ w.node.arms := mem_arms.mpr ⟨by simp [shape], arm⟩
        have unsent := (matched.held it stored parked).1
        simp [Pending.waits, unsent] at waits
    · intro header member
      refine ⟨⟨result, now, rfl⟩, ?_⟩
      rw [first]
      split at member
      · cases member
      · simpa [rejection, eq_comm] using member
    · intro q member _
      obtain ⟨found, isArm⟩ := mem_arms.mp member
      rcases known q found with old | rfl
      · exact .inl (mem_arms.mpr ⟨old, isArm⟩)
      · exact .inr ⟨⟨result, now, rfl⟩, first⟩

theorem Matched.move {e : Event} (matched : Matched w) (lawful : Lawful w e) (order : InOrder p w e)
    (other : ∀ result now, e ≠ .answer result now) :
    Matched (step p w e).1 ∧ AnswersOwner w e (step p w e).1 (step p w e).2 := by
  have moves := handle_moves p w.node (w.seen e)
  have ahead : w.clock ≤ (w.seen e).time.getD w.clock := by
    cases time : (w.seen e).time with
    | none => exact le_refl _
    | some t => exact lawful.1 t time
  have owed : w.stillOwed e = w.owed := by
    cases e with
    | answer result now => exact absurd rfl (other result now)
    | arm | setOffboard | other => rfl
  simp only [step, owed]
  generalize w.node.handle p (w.seen e) = handled at moves
  obtain ⟨m, outs⟩ := handled
  simp only at moves ⊢
  generalize seen_eq : w.seen e = event at moves ahead
  cases moves with
  | quiet arms silent none =>
    refine ⟨⟨?_, ?_, ?_⟩, ⟨by simp [none], ?_⟩⟩
    · rw [silent, List.append_nil, waiting, arms]
      exact matched.order
    · intro it member waits
      exact (matched.past it (arms ▸ member) waits).trans ahead
    · intro it member
      exact matched.held it (arms ▸ member)
    · intro q member _
      exact .inl (arms ▸ member)
  | parks it arms parked unsent unmarked =>
    have idle : it.waits = false := by simp [Pending.waits, unsent]
    refine ⟨⟨?_, ?_, ?_⟩, ⟨by simp, ?_⟩⟩
    · rw [waiting, arms, List.filter_append, List.filter_cons_of_neg (by simp [idle]), List.filter_nil, List.append_nil]
      rw [List.filterMap_nil, List.append_nil]
      exact matched.order
    · intro q member waits
      rw [arms] at member
      rcases List.mem_append.mp member with old | new
      · exact (matched.past q old waits).trans ahead
      · rw [List.mem_singleton.mp new, idle] at waits
        cases waits
    · intro q member held
      rw [arms] at member
      rcases List.mem_append.mp member with old | new
      · exact matched.held q old held
      · rw [List.mem_singleton.mp new]
        exact ⟨unsent, unmarked⟩
    · intro q member accepted
      rw [arms] at member
      rcases List.mem_append.mp member with old | new
      · exact .inl old
      · rw [List.mem_singleton.mp new, unmarked] at accepted
        cases accepted
  | sends it atOnce arms name sent waits free command none =>
    have all : w.node.waiting = w.owed := by
      cases e with
      | arm target now healthy =>
        cases seen_eq
        exact order atOnce
      | setOffboard => cases seen_eq
      | answer result now => exact absurd rfl (other result now)
      | other e =>
        cases seen_eq
        exact lawful.2.elim
    refine ⟨⟨?_, ?_, ?_⟩, ⟨by simp [none], ?_⟩⟩
    · rw [waiting, arms, List.filter_append, List.filter_cons_of_pos waits, List.map_append, command, ← all]
      simp [waiting, name]
    · intro q member waits
      rw [arms] at member
      rcases List.mem_append.mp member with old | new
      · exact (matched.past q old waits).trans ahead
      · rw [List.mem_singleton.mp new, sent]
        exact le_refl _
    · intro q member held
      rw [arms] at member
      rcases List.mem_append.mp member with old | new
      · exact matched.held q old held
      · rw [List.mem_singleton.mp new, free] at held
        cases held
    · intro q member accepted
      rw [arms] at member
      rcases List.mem_append.mp member with old | new
      · exact .inl old
      · rw [List.mem_singleton.mp new] at accepted
        simp [Pending.waits, accepted] at waits
  | serves cycle time arms commands none =>
    rename_i now
    rw [time] at ahead ⊢
    refine ⟨?_, ⟨by simp [none], ?_⟩⟩
    · rw [commands]
      exact matched.serve ahead arms (order.cycle (seen_eq ▸ cycle)) _
    · intro q member accepted
      rw [arms] at member
      obtain ⟨it, known, served⟩ := List.mem_filterMap.mp member
      rcases servedArm_cases served with rfl | ⟨going, rfl⟩
      · exact .inl known
      · simp only [letGo, Bool.and_eq_true] at going
        rw [show (released p now it).fcuAccepted = it.fcuAccepted from rfl, (matched.held it known going.1).2] at accepted
        cases accepted
  | acked ends taken =>
    cases e with
    | arm | setOffboard => cases seen_eq
    | answer result now => exact absurd rfl (other result now)
    | other e =>
      cases seen_eq
      have foreign := lawful.2
      simp only at foreign
      rw [ends] at foreign
      cases foreign

/-- While requests leave and go out in order, a rejection or a mark goes to the request whose own command PX4 answers. -/
theorem ack_answers_owner (p : NodeParams) (clock : ℚ) (h : List (Entry Event (List Out))) (w : ArmWorld)
    (run : RunIf (step p) (fun _ w e => Lawful w e ∧ InOrder p w e) { clock } h w) (e : Event) (lawful : Lawful w e)
    (order : InOrder p w e) : AnswersOwner w e (step p w e).1 (step p w e).2 := by
  have moved : ∀ {w : ArmWorld} {e : Event}, Matched w → Lawful w e → InOrder p w e →
      Matched (step p w e).1 ∧ AnswersOwner w e (step p w e).1 (step p w e).2 := by
    intro w e matched lawful order
    cases e with
    | answer result now => exact matched.answer (lawful.1 now rfl) lawful.2.2
    | arm | setOffboard | other => exact matched.move lawful order (by simp)
  have matched : Matched w := by
    refine run.invariant (fun _ w => Matched w) ⟨List.nil_prefix, ?_, ?_⟩ ?_
    · intro it member
      cases member
    · intro it member
      cases member
    · rintro h w e matched ⟨lawful, order⟩
      exact (moved matched lawful order).1
  exact (moved matched lawful order).2

/-- Two requests wait at once, and PX4 refuses the first. -/
theorem pipelined_answers_owner :
    let run := exec (step {}) [] {} [.arm true 0 true, .arm false (1 / 10) true]
    run.2.node.waiting = [0, 1] ∧
      AnswersOwner run.2 (.answer 2 (2 / 10)) (step {} run.2 (.answer 2 (2 / 10))).1
        (step {} run.2 (.answer 2 (2 / 10))).2 := by
  intro run
  have first : Lawful {} (.arm true 0 true) ∧ InOrder {} {} (.arm true 0 true) := ⟨by decide +kernel, fun _ => rfl⟩
  have second : Lawful (step {} {} (.arm true 0 true)).1 (.arm false (1 / 10) true) ∧
      InOrder {} (step {} {} (.arm true 0 true)).1 (.arm false (1 / 10) true) := ⟨by decide +kernel, fun _ => by decide +kernel⟩
  have reached : RunIf (step {}) (fun _ w e => Lawful w e ∧ InOrder {} w e) {} run.1 run.2 :=
    (RunIf.start.next _ first).next _ second
  exact ⟨by decide +kernel, ack_answers_owner {} 0 run.1 run.2 reached (.answer 2 (2 / 10)) (by decide +kernel) (by simp [InOrder, seen, cycleAt])⟩

/-- An arm request times out; PX4's late refusal of it answers the arm request that follows. -/
theorem late_answer_hits_next :
    ∃ h w, RunIf (step {}) (fun _ w e => Lawful w e) {} h w ∧ Lawful w (.answer 2 (23 / 10)) ∧
      ∃ header ∈ (step {} w (.answer 2 (23 / 10))).2.filterMap rejection, w.owed.head? ≠ some header := by
  refine ⟨_, _, exec_runIf [.arm true 0 true, .other (.step (some (21 / 10)) true 1), .arm true (22 / 10) true] ?_ .start, ?_⟩
  · decide +kernel
  · decide +kernel

end ArmWorld

end Node

end Dyx3.Px4Link
