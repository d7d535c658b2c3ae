import Dyx3.Px4Link.Node

/-!
What reaches PX4 from the arm and OFFBOARD side of px4_link: the guard's motion only inside a
confirmed session, MANUAL only while no heartbeat runs, and no arm command of a request that an
arm(false) call came after, as long as arm(false) finds no arm request parked.
-/

namespace Dyx3.Px4Link.Node

open Lib

/-- An arm request is parked under `header`. -/
def ParkedFor (n : Node) (header : Nat) : Prop := ∃ q ∈ n.pending, q.parked = true ∧ q.header = header

/-- An arm(true) call. -/
def Event.Arms : Event → Nat → Prop
  | .arm header target _ _, expected => target = true ∧ header = expected
  | _, _ => False

/-- An arm(false) call. -/
def Event.Disarms : Event → Prop
  | .arm _ target _ _ => target = false
  | _ => False

instance : DecidablePred Event.Disarms
  | .arm _ target _ _ => inferInstanceAs (Decidable (target = false))
  | .setOffboard .. | .vehicleStatus .. | .commandAck .. | .step .. | .timer .. | .shutdownStop .. =>
    inferInstanceAs (Decidable False)

/-- A VehicleCommand that arms the vehicle, published for `request`. -/
def ArmCommand (x : Out) (request : Option Nat) : Prop := ∃ param2, x = .vehicleCommand cmdArmDisarm 1 param2 request

/-! ### What one call publishes -/

theorem parkedFor_noteModeCommandPublished {n : Node} {offboard : Bool} {now : ℚ} {header : Nat}
    (found : (n.noteModeCommandPublished offboard now).ParkedFor header) : n.ParkedFor header := by
  obtain ⟨q, member, parked, same⟩ := found
  obtain ⟨before, known, rfl⟩ := List.mem_map.mp member
  by_cases isArm : before.isArm = true
  · simp only [isArm, if_true] at parked same
    exact ⟨before, known, parked, same⟩
  · simp [isArm, Pending.parked] at parked

theorem parkedFor_askOffboard {n : Node} {now : ℚ} {ofb : OffboardStep} {header : Nat}
    (found : (n.askOffboard now ofb).1.ParkedFor header) : n.ParkedFor header := by
  unfold askOffboard at found
  split at found
  · exact parkedFor_noteModeCommandPublished found
  · exact found

theorem parkedFor_leaveOffboard {n : Node} {now : ℚ} {linkOk : Bool} {ofb : OffboardStep} {header : Nat}
    (found : (n.leaveOffboard now linkOk ofb).1.ParkedFor header) : n.ParkedFor header := by
  unfold leaveOffboard at found
  split at found
  · split at found
    · exact found
    split at found
    · exact parkedFor_noteModeCommandPublished found
    · exact found
  · exact found

theorem parkedFor_startUlogIfDue {p : NodeParams} {n : Node} {linkOk : Bool} {generation header : Nat}
    (found : (n.startUlogIfDue p linkOk generation).1.ParkedFor header) : n.ParkedFor header := by
  unfold startUlogIfDue at found
  split at found
  · exact found
  split at found <;> exact found

theorem askOffboard_out {n : Node} {now : ℚ} {ofb : OffboardStep} {x : Out} (sent : x ∈ (n.askOffboard now ofb).2) :
    x = .vehicleCommand cmdDoSetMode 1 mainModeOffboard none := by
  unfold askOffboard at sent
  split at sent
  · simpa using sent
  · simp at sent

theorem leaveOffboard_out {n : Node} {now : ℚ} {linkOk : Bool} {ofb : OffboardStep} {x : Out}
    (sent : x ∈ (n.leaveOffboard now linkOk ofb).2) :
    ofb.publishHeartbeat = false ∧ x = .vehicleCommand cmdDoSetMode 1 mainModeManual none := by
  unfold leaveOffboard at sent
  split at sent
  · split at sent
    · simp at sent
    split at sent
    · rename_i due
      simp only [Bool.and_eq_true, Bool.not_eq_true'] at due
      exact ⟨due.1.1, by simpa using sent⟩
    · simp at sent
  · simp at sent

theorem startUlogIfDue_out {p : NodeParams} {n : Node} {linkOk : Bool} {generation : Nat} {x : Out}
    (sent : x ∈ (n.startUlogIfDue p linkOk generation).2) : x = .vehicleCommand cmdLoggingStart 0 0 none := by
  unfold startUlogIfDue at sent
  split at sent
  · simp at sent
  split at sent
  · simp at sent
  · simpa using sent

/-- The loop over the pending requests answers a request, or publishes the arm command of a parked one. -/
theorem serviceOne_cases (p : NodeParams) (n : Node) (now : ℚ) (linkHealthy : Bool) (ofb : OffboardStep)
    (it : Pending) :
    (∀ q, (n.serviceOne p now linkHealthy ofb it).1 = some q → q.parked = true → q = it) ∧
    ∀ x ∈ (n.serviceOne p now linkHealthy ofb it).2,
      (it.parked = true ∧ x = .vehicleCommand cmdArmDisarm 1 0 (some it.header)) ∨
      (∃ accepted reason, x = .armResponse it.header accepted reason) ∨
      ∃ accepted reason, x = .offResponse it.header accepted reason := by
  unfold serviceOne
  split
  · rename_i parked
    split
    · refine ⟨?_, by simp [parked]⟩
      rintro q ⟨⟩ still
      simp [Pending.parked] at still
    split
    · exact ⟨by simp, by simp⟩
    · exact ⟨by rintro q ⟨⟩ _; rfl, by simp⟩
  rename_i free
  split
  · simp only
    split
    · exact ⟨by simp, by simp⟩
    split
    · exact ⟨by simp, by simp⟩
    · exact ⟨by rintro q ⟨⟩ _; rfl, by simp⟩
  split
  · exact ⟨by simp, by simp⟩
  split
  · exact ⟨by simp, by simp⟩
  split
  · exact ⟨by simp, by simp⟩
  · exact ⟨by rintro q ⟨⟩ _; rfl, by simp⟩

theorem parkedFor_servicePending {p : NodeParams} {n : Node} {now : ℚ} {linkHealthy : Bool} {ofb : OffboardStep}
    {header : Nat} (found : (n.servicePending p now linkHealthy ofb).1.ParkedFor header) : n.ParkedFor header := by
  obtain ⟨q, member, parked, same⟩ := found
  obtain ⟨it, known, kept⟩ := List.mem_filterMap.mp member
  obtain rfl := (serviceOne_cases p n now linkHealthy ofb it).1 q kept parked
  exact ⟨q, known, parked, same⟩

/-- What a writer cycle publishes, given whether the session lets the heartbeat run in it. -/
inductive CycleOut (n : Node) (beats : Bool) : Out → Prop where
  | heartbeat (stop : Bool) (beat : beats = true) : CycleOut n beats (.setpointSet stop)
  | offboard : CycleOut n beats (.vehicleCommand cmdDoSetMode 1 mainModeOffboard none)
  | manual (quiet : beats = false) : CycleOut n beats (.vehicleCommand cmdDoSetMode 1 mainModeManual none)
  | logging : CycleOut n beats (.vehicleCommand cmdLoggingStart 0 0 none)
  | arm (header : Nat) (parked : n.ParkedFor header) :
      CycleOut n beats (.vehicleCommand cmdArmDisarm 1 0 (some header))
  | armResponse (header : Nat) (accepted : Bool) (reason : ArmReason) :
      CycleOut n beats (.armResponse header accepted reason)
  | offResponse (header : Nat) (accepted : Bool) (reason : OffReason) :
      CycleOut n beats (.offResponse header accepted reason)

/-- Up to the loop over the pending requests a cycle parks nothing. -/
theorem parkedFor_beforeService {p : NodeParams} {n : Node} {now : ℚ} {linkOk : Bool} {generation header : Nat}
    {ofb : OffboardStep}
    (found : (((n.askOffboard now ofb).1.leaveOffboard now linkOk ofb).1.startUlogIfDue p linkOk generation).1.ParkedFor
      header) : n.ParkedFor header := by
  have logged := parkedFor_startUlogIfDue found
  have left := parkedFor_leaveOffboard logged
  exact parkedFor_askOffboard left

theorem cycle_out {p : NodeParams} {n : Node} {now : ℚ} {linkOk : Bool} {generation : Nat} {x : Out}
    (sent : x ∈ (n.cycle p now linkOk generation).2) :
    CycleOut n (n.stepOffboard p now linkOk).2.publishHeartbeat x := by
  have start : ∀ header, (n.stepOffboard p now linkOk).1.ParkedFor header → n.ParkedFor header := fun _ found => found
  unfold cycle at sent
  generalize n.stepOffboard p now linkOk = r at sent start ⊢
  obtain ⟨m, ofb⟩ := r
  simp only [List.mem_append] at sent start ⊢
  rcases sent with (((beat | asked) | left) | logged) | served
  · split at beat
    · rename_i beats
      rw [List.mem_singleton.mp beat]
      exact .heartbeat _ beats
    · simp at beat
  · rw [askOffboard_out asked]
    exact .offboard
  · obtain ⟨quiet, rfl⟩ := leaveOffboard_out left
    exact .manual quiet
  · rw [startUlogIfDue_out logged]
    exact .logging
  · obtain ⟨it, member, sent⟩ := List.mem_flatMap.mp served
    rcases (serviceOne_cases _ _ _ _ _ it).2 x sent with ⟨parked, rfl⟩ | ⟨accepted, reason, rfl⟩ | ⟨accepted, reason, rfl⟩
    · exact .arm it.header (start _ (parkedFor_beforeService ⟨it, member, parked, rfl⟩))
    · exact .armResponse _ _ _
    · exact .offResponse _ _ _

theorem parkedFor_cycle {p : NodeParams} {n : Node} {now : ℚ} {linkOk : Bool} {generation header : Nat}
    (found : (n.cycle p now linkOk generation).1.ParkedFor header) : n.ParkedFor header := by
  have start : (n.stepOffboard p now linkOk).1.ParkedFor header → n.ParkedFor header := fun found => found
  unfold cycle at found
  generalize n.stepOffboard p now linkOk = r at found start
  obtain ⟨m, ofb⟩ := r
  exact start (parkedFor_beforeService (parkedFor_servicePending found))

/-- What a call does to the arm requests: parked requests and arm commands come from a request that was
already parked, or from an arm(true) call that this call is. -/
structure ArmSpec (n : Node) (e : Event) (r : Node × List Out) : Prop where
  parked : ∀ header, r.1.ParkedFor header → n.ParkedFor header ∨ e.Arms header
  published : ∀ x request, x ∈ r.2 → ArmCommand x request →
    ∃ header, request = some header ∧ (n.ParkedFor header ∨ e.Arms header)

/-- A call that parks nothing and publishes no command. -/
theorem armSpec_quiet {n : Node} {e : Event} {r : Node × List Out}
    (parked : ∀ header, r.1.ParkedFor header → n.ParkedFor header)
    (quiet : ∀ x ∈ r.2, ∀ command param1 param2 request, x ≠ .vehicleCommand command param1 param2 request) :
    ArmSpec n e r := by
  refine ⟨fun header found => .inl (parked header found), ?_⟩
  rintro x request sent ⟨param2, rfl⟩
  exact absurd rfl (quiet _ sent _ _ _ _)

/-- A new pending request at the end of the list is parked or not. -/
theorem parkedFor_push {n : Node} {pending : List Pending} {q : Pending} {header : Nat}
    (shape : n.pending = pending ++ [q]) (found : n.ParkedFor header) :
    (∃ q ∈ pending, q.parked = true ∧ q.header = header) ∨ (q.parked = true ∧ q.header = header) := by
  obtain ⟨r, member, parked, same⟩ := found
  rw [shape, List.mem_append, List.mem_singleton] at member
  rcases member with old | rfl
  · exact .inl ⟨r, old, parked, same⟩
  · exact .inr ⟨parked, same⟩

theorem arm_armSpec (p : NodeParams) (n : Node) (header : Nat) (target : Bool) (now : ℚ) (healthy : Bool) :
    ArmSpec n (.arm header target now healthy) (n.arm p header target now healthy) := by
  unfold arm
  split
  · exact armSpec_quiet (fun _ found => found) (by simp)
  split
  · rename_i parking
    simp only [Bool.and_eq_true] at parking
    obtain rfl : target = true := parking.1.1
    refine ⟨?_, by simp⟩
    intro h found
    rcases parkedFor_push rfl found with old | ⟨_, rfl⟩
    · exact .inl old
    · exact .inr ⟨rfl, rfl⟩
  · refine ⟨?_, ?_⟩
    · intro h found
      rcases parkedFor_push rfl found with old | ⟨parked, _⟩
      · exact .inl old
      · simp [Pending.parked] at parked
    · rintro x request sent ⟨param2, rfl⟩
      cases target with
      | false => simp at sent
      | true =>
        obtain ⟨rfl, rfl⟩ : param2 = 0 ∧ request = some header := by simpa using sent
        exact ⟨header, rfl, .inr ⟨rfl, rfl⟩⟩

theorem setOffboard_armSpec (p : NodeParams) (n : Node) (header : Nat) (enable : Bool) (now : ℚ) (healthy : Bool) :
    ArmSpec n (.setOffboard header enable now healthy) (n.setOffboard p header enable now healthy) := by
  unfold setOffboard
  split
  · exact armSpec_quiet (fun _ found => found) (by simp)
  split
  · exact armSpec_quiet (fun _ found => found) (by simp)
  · refine armSpec_quiet ?_ (by simp)
    intro h found
    rcases parkedFor_push rfl found with old | ⟨parked, _⟩
    · exact old
    · simp [Pending.parked] at parked

theorem takeArmAck_cases (accepted : Bool) (now : ℚ) (pending : List Pending) :
    (∀ q ∈ (takeArmAck accepted now pending).1, q.parked = true → ∃ r ∈ pending, r.parked = true ∧ r.header = q.header) ∧
    ∀ x ∈ (takeArmAck accepted now pending).2, ∃ header reason, x = .armResponse header false reason := by
  induction pending with
  | nil => exact ⟨by simp [takeArmAck], by simp [takeArmAck]⟩
  | cons p rest ih =>
    unfold takeArmAck
    split
    · split
      · refine ⟨?_, by simp⟩
        rintro q member parked
        rcases List.mem_cons.mp member with rfl | old
        · exact ⟨p, by simp, parked, rfl⟩
        · exact ⟨q, by simp [old], parked, rfl⟩
      · refine ⟨fun q member parked => ⟨q, by simp [member], parked, rfl⟩, by simp⟩
    · refine ⟨?_, ih.2⟩
      rintro q member parked
      rcases List.mem_cons.mp member with rfl | old
      · exact ⟨q, by simp, parked, rfl⟩
      · obtain ⟨r, known, same⟩ := ih.1 q old parked
        exact ⟨r, by simp [known], same⟩

theorem commandAck_armSpec (n : Node) (a : VehicleCommandAck) (now : ℚ) :
    ArmSpec n (.commandAck a now) (n.onVehicleCommandAck a now) := by
  unfold onVehicleCommandAck
  split
  · exact armSpec_quiet (fun _ found => found) (by simp)
  split
  swap
  · exact armSpec_quiet (fun _ found => found) (by simp)
  unfold onArmModeCommandAck
  split
  · exact armSpec_quiet (fun _ found => found) (by simp)
  simp only
  split
  · obtain ⟨kept, answers⟩ := takeArmAck_cases (a.result == resultAccepted) now n.pending
    refine armSpec_quiet ?_ ?_
    · rintro header ⟨q, member, parked, rfl⟩
      exact kept q member parked
    · intro x sent _ _ _ _ same
      obtain ⟨header, reason, rfl⟩ := answers x sent
      cases same
  split
  · exact armSpec_quiet (fun _ found => found) (by simp)
  split
  · refine armSpec_quiet ?_ (by simp)
    rintro header ⟨q, member, parked, rfl⟩
    obtain ⟨before, known, rfl⟩ := List.mem_map.mp member
    split at parked
    · exact ⟨before, known, parked, by simp [*]⟩
    · exact ⟨before, known, parked, by simp [*]⟩
  split
  · exact armSpec_quiet (fun _ found => found) (by simp)
  · refine armSpec_quiet ?_ ?_
    · rintro header ⟨q, member, rest⟩
      exact ⟨q, (List.mem_filter.mp member).1, rest⟩
    · intro x sent _ _ _ _ same
      obtain ⟨_, _, rfl⟩ := List.mem_map.mp sent
      cases same

theorem step_armSpec (p : NodeParams) (n : Node) (e : Event) (now : Option ℚ) (linkOk : Bool) (generation : Nat) :
    ArmSpec n e (n.step p now linkOk generation) := by
  unfold step
  split
  · exact armSpec_quiet (fun _ found => found) (by simp)
  split
  · exact armSpec_quiet (fun _ found => found) (by simp)
  split
  · exact armSpec_quiet (fun _ found => found) (by simp)
  refine ⟨fun header found => .inl (parkedFor_cycle found), ?_⟩
  rintro x request sent ⟨param2, rfl⟩
  cases cycle_out sent with
  | arm header parked => exact ⟨header, rfl, .inl parked⟩

theorem handle_armSpec (p : NodeParams) (n : Node) (e : Event) : ArmSpec n e (handle p n e) := by
  cases e with
  | arm header target now healthy => exact arm_armSpec p n header target now healthy
  | setOffboard header enable now healthy => exact setOffboard_armSpec p n header enable now healthy
  | vehicleStatus armingState navState now => exact armSpec_quiet (fun _ found => found) (by simp [handle])
  | commandAck ack now => exact commandAck_armSpec n ack now
  | step now linkOk generation => exact step_armSpec p n _ now linkOk generation
  | timer now linkOk generation =>
    simp only [handle, onTimer]
    split
    · exact step_armSpec p n _ none linkOk generation
    split
    · exact armSpec_quiet (fun _ found => found) (by simp)
    · exact step_armSpec p n _ _ linkOk generation
  | shutdownStop handshakeOk =>
    simp only [handle, publishShutdownStop]
    split
    · exact armSpec_quiet (fun _ found => found) (by simp)
    · exact armSpec_quiet (fun _ found => found) (by simp)

/-! ### The order of arm and disarm over whole runs -/

def Event.header : Event → Option Nat
  | .arm header .. | .setOffboard header .. => some header
  | _ => none

theorem Event.Arms.header {e : Event} {header : Nat} (arms : e.Arms header) : e.header = some header := by
  cases e with
  | arm => exact congrArg some arms.2
  | _ => exact arms.elim

theorem Event.Arms.not_disarms {e : Event} {header : Nat} (arms : e.Arms header) : ¬ e.Disarms := by
  cases e with
  | arm => simp [Event.Disarms, arms.1]
  | _ => exact arms.elim

/-- The middleware gives every request an id of its own. -/
def Fresh (h : List Record) (e : Event) : Prop :=
  ∀ x ∈ h, e.header = none ∨ x.event.header ≠ e.header

instance (h : List Record) (e : Event) : Decidable (Fresh h e) :=
  inferInstanceAs (Decidable (∀ x ∈ h, e.header = none ∨ x.event.header ≠ e.header))

/-- After an arm(false) call no arm command of a request received before it is published. -/
def ArmOrder (h : List Record) : Prop :=
  ∀ later x earlier, h = later ++ x :: earlier → x.event.Disarms →
    ∀ y ∈ later, ∀ out ∈ y.out, ∀ request, ArmCommand out request →
      ∃ header, request = some header ∧ ∀ z ∈ earlier, ¬ z.event.Arms header

/-- An arm(false) call finds no arm request parked. -/
def FindsNoneParked (n : Node) (e : Event) : Prop := e.Disarms → ∀ q ∈ n.pending, q.parked = false

instance (n : Node) (e : Event) : Decidable (FindsNoneParked n e) :=
  inferInstanceAs (Decidable (e.Disarms → ∀ q ∈ n.pending, q.parked = false))

/-- The request `header` was received and no arm(false) call came after it. -/
def Open (h : List Record) (header : Nat) : Prop :=
  ∃ mid z old, h = mid ++ z :: old ∧ z.event.Arms header ∧ ∀ w ∈ mid, ¬ w.event.Disarms

theorem Open.keep {h : List Record} {header : Nat} {x : Record} (known : Open h header)
    (other : ¬ x.event.Disarms) : Open (x :: h) header := by
  obtain ⟨mid, z, old, rfl, arms, clean⟩ := known
  exact ⟨x :: mid, z, old, rfl, arms, List.forall_mem_cons.mpr ⟨other, clean⟩⟩

/-- The arm commands of one call belong to requests that are still open. -/
def Owned (x : Record) (earlier : List Record) : Prop :=
  Fresh earlier x.event ∧ ∀ out ∈ x.out, ∀ request, ArmCommand out request →
    ∃ header, request = some header ∧ Open (x :: earlier) header

theorem open_handle {h : List Record} {n : Node} {e : Event} {out : List Out} {header : Nat}
    (known : ∀ header, n.ParkedFor header → Open h header) (unparked : FindsNoneParked n e)
    (source : n.ParkedFor header ∨ e.Arms header) : Open (⟨e, out⟩ :: h) header := by
  rcases source with parked | arms
  · refine (known header parked).keep ?_
    obtain ⟨q, member, isParked, _⟩ := parked
    intro disarms
    rw [unparked disarms q member] at isParked
    cases isParked
  · exact ⟨[], _, h, rfl, arms, by simp⟩

theorem run_owned {p : NodeParams} {h : List Record} {n : Node}
    (run : RunIf (handle p) (fun h n e => Fresh h e ∧ FindsNoneParked n e) {} h n) :
    (∀ header, n.ParkedFor header → Open h header) ∧ Everywhere Owned h := by
  refine run.invariant (fun h n => (∀ header, n.ParkedFor header → Open h header) ∧ Everywhere Owned h)
    ⟨by simp [ParkedFor], trivial⟩ ?_
  rintro h n e ⟨known, all⟩ ⟨fresh, unparked⟩
  obtain ⟨parked, published⟩ := handle_armSpec p n e
  refine ⟨fun header found => open_handle known unparked (parked header found), ⟨fresh, ?_⟩, all⟩
  intro out sent request arms
  obtain ⟨header, same, source⟩ := published out request sent arms
  exact ⟨header, same, open_handle known unparked source⟩

theorem armOrder_of_owned {h : List Record} (all : Everywhere Owned h) : ArmOrder h := by
  rintro later x earlier rfl disarms y member out sent request arms
  obtain ⟨newer, older, rfl⟩ := List.append_of_mem member
  rw [List.append_assoc] at all
  have atY := everywhere_append all
  obtain ⟨header, same, mid, z, old, shape, armed, clean⟩ := atY.1.2 out sent request arms
  refine ⟨header, same, ?_⟩
  -- The request is open at `y`, so it was received after the arm(false) call `x`.
  have absent : x ∉ mid := fun found => clean x found disarms
  have other : x ≠ z := by
    rintro rfl
    exact armed.not_disarms disarms
  have joined : mid ++ z :: old = (y :: older) ++ x :: earlier := shape.symm
  obtain ⟨between, _, rfl⟩ := split_before joined absent other
  have atZ : Everywhere Owned (mid ++ z :: (between ++ x :: earlier)) := joined ▸ atY
  have fresh : Fresh (between ++ x :: earlier) z.event := (everywhere_split atZ).1
  intro w found arms'
  rcases fresh w (by simp [found]) with none | different
  · rw [armed.header] at none
    cases none
  · exact different (arms'.header.trans armed.header.symm)

/-- In every run in which arm(false) never finds an arm request parked, no arm command of an earlier
request is published after it. -/
theorem armOrder_unparked (p : NodeParams) {h : List Record} {n : Node}
    (run : RunIf (handle p) (fun h n e => Fresh h e ∧ FindsNoneParked n e) {} h n) : ArmOrder h :=
  armOrder_of_owned (run_owned run).2

/-- PX4 is released to MANUAL while an arm request waits for it: the request is published, then the vehicle is
disarmed and armed again. -/
def rearm : List Event :=
  [.vehicleStatus 1 navStateOffboard 0, .step (some 0) true 1, .arm 1 true 0 true, .step (some 1) true 1,
    .vehicleStatus 1 0 1, .step (some 1) true 1, .arm 2 false 2 true, .arm 3 true 3 true]

theorem armOrder_unparked_rearm :
    (exec (handle {}) [] {} rearm).1.any (fun x => x.out.contains (.vehicleCommand cmdArmDisarm 1 0 (some 1))) = true ∧
    ArmOrder (exec (handle {}) [] {} rearm).1 := by
  refine ⟨by decide +kernel, armOrder_unparked {} (exec_runIf rearm ?_ .start)⟩
  decide +kernel

/-- The same order of events, but the arm(false) call comes while the arm request is still parked. -/
def disarmWhileParked : List Event :=
  [.vehicleStatus 1 navStateOffboard 0, .step (some 0) true 1, .arm 1 true 0 true, .arm 2 false 0 true,
    .vehicleStatus 1 0 1, .step (some 1) true 1]

theorem armOrder_fails_disarmWhileParked :
    ¬ ∀ (p : NodeParams) (h : List Record) (n : Node), RunIf (handle p) (fun h _ e => Fresh h e) {} h n → ArmOrder h := by
  intro all
  have order := all {} _ _ (exec_runIf disarmWhileParked (by decide +kernel) .start)
  obtain ⟨header, same, clean⟩ := order ((exec (handle {}) [] {} disarmWhileParked).1.take 2)
    ⟨.arm 2 false 0 true, [.vehicleCommand cmdArmDisarm 0 0 (some 2)]⟩
    ((exec (handle {}) [] {} disarmWhileParked).1.drop 3) (by decide +kernel) rfl
    ⟨.step (some 1) true 1, [.vehicleCommand cmdArmDisarm 1 0 (some 1), .armResponse 2 true .ok]⟩ (by decide +kernel)
    (.vehicleCommand cmdArmDisarm 1 0 (some 1)) (by simp) (some 1) ⟨0, rfl⟩
  obtain rfl : 1 = header := Option.some.inj same
  exact clean ⟨.arm 1 true 0 true, []⟩ (by decide +kernel) ⟨rfl, rfl⟩

/-! ### OFFBOARD -/

theorem cycle_manual_quiet {p : NodeParams} {n : Node} {now : ℚ} {linkOk : Bool} {generation : Nat}
    {request : Option Nat} {stop : Bool}
    (manual : .vehicleCommand cmdDoSetMode 1 mainModeManual request ∈ (n.cycle p now linkOk generation).2) :
    .setpointSet stop ∉ (n.cycle p now linkOk generation).2 := by
  have quiet : (n.stepOffboard p now linkOk).2.publishHeartbeat = false := by
    cases cycle_out manual with
    | manual quiet => exact quiet
  intro beat
  cases cycle_out beat with
  | heartbeat _ beats =>
    rw [beats] at quiet
    cases quiet

theorem step_manual_quiet {p : NodeParams} {n : Node} {now : Option ℚ} {linkOk : Bool} {generation : Nat}
    {request : Option Nat} {stop : Bool}
    (manual : .vehicleCommand cmdDoSetMode 1 mainModeManual request ∈ (n.step p now linkOk generation).2) :
    .setpointSet stop ∉ (n.step p now linkOk generation).2 := by
  unfold step at manual ⊢
  split at manual
  · simp at manual
  rename_i running
  rw [if_neg running]
  split at manual
  · simp at manual
  split at manual
  · simp at manual
  rename_i usable
  simp only [usable, if_false]
  exact cycle_manual_quiet manual

/-- Over every run of the session its calls are disciplined, and a writer cycle of the node that
publishes a MANUAL mode command publishes no heartbeat. -/
theorem offboard_confirmed (p : NodeParams) {h : List OffboardSession.Record} {s : OffboardSession}
    (run : Run (OffboardSession.call p.timing) {} h s) :
    Everywhere (OffboardSession.Disciplined p.timing) h ∧
    ∀ (n : Node) (now : Option ℚ) (linkOk : Bool) (generation : Nat) (request : Option Nat),
      .vehicleCommand cmdDoSetMode 1 mainModeManual request ∈ (n.step p now linkOk generation).2 →
      ∀ stop, .setpointSet stop ∉ (n.step p now linkOk generation).2 :=
  ⟨(OffboardSession.run_disciplined run).2, fun _ _ _ _ _ manual _ => step_manual_quiet manual⟩

/-- A session that is confirmed, interrupted before it is active again and confirmed once more. -/
def interrupted : List OffboardSession.Event :=
  [.enable true 0, .step 0 true false, .step 1 true false, .step 2 false false, .step 3 true false,
    .step 4 true true, .step 5 true true]

theorem offboard_confirmed_interrupted :
    (exec (OffboardSession.call {}) [] {} interrupted).1.head? =
      some ⟨.step 5 true true, .stepped ⟨true, false, false, .active⟩⟩ ∧
    Everywhere (OffboardSession.Disciplined {}) (exec (OffboardSession.call {}) [] {} interrupted).1 :=
  ⟨by decide +kernel, (offboard_confirmed {} (exec_run interrupted .start)).1⟩

end Dyx3.Px4Link.Node
