import Dyx3.Lib.Run
import Dyx3.Mission.Fsm

/-!
The mission lifecycle over whole runs. Any call may come at any time with any arguments; the invariants below
hold in every state such a run reaches, and the transition log is the tail of everything that was logged.
-/

namespace Dyx3.Mission.MissionFsm

open Lib

/-- What a call sets on the machine before it logs: a start its number, a re-engage its marks. -/
inductive Prepared (f : MissionFsm) : Call → MissionFsm → Prop where
  | same {c : Call} : Prepared f c f
  | start : Prepared f (.start true) { f with missionId := f.missionId + 1 }
  | reengage : Prepared f .reengage { f with reengaging := true, reengageConfirmed := false }
  | confirmed {reason : UInt8} {detail : String} (at_ : f.state = .engaging) (again : f.reengaging = true) :
      Prepared f (.engaged true reason detail) { f with reengageConfirmed := true }

/-- How a call ends: a state change, a refusal or an acknowledgement. -/
inductive Ends (f : MissionFsm) (now : ℤ) (c : Call) : Step → Prop where
  | go {g : MissionFsm} (prepared : Prepared f c g) (dst : State) (event : Event) (reason : UInt8) (detail : String)
      (gateReason : UInt8) : Ends f now c (g.go dst event reason detail now gateReason)
  | refuse (event : Event) (why : Reject) (detail : String) : Ends f now c (f.refuse event why detail now)
  | okNoChange {g : MissionFsm} (prepared : Prepared f c g) (event : Event) (detail : String) :
      Ends f now c (g.okNoChange event detail now)

variable {f : MissionFsm} {now : ℤ} {c : Call}

theorem ends_step (expected next : State) (event : Event) (ok : Bool) (reason : UInt8) (detail : String) :
    Ends f now c (f.step expected next event ok reason detail now) := by
  unfold step
  split
  · exact .refuse ..
  · split
    · exact .go .same ..
    · exact .go .same ..

theorem call_ends (f : MissionFsm) (now : ℤ) (c : Call) : Ends f now c (f.call now c) := by
  cases c with
  | start preArmOk =>
    simp only [call, start]
    split
    · exact .refuse ..
    · cases preArmOk with
      | false => exact .refuse ..
      | true => exact .go .start ..
  | artifactLoaded valid detail => exact ends_step ..
  | placed ok reason detail => exact ends_step ..
  | armed ok reason detail => exact ends_step ..
  | engaged ok reason detail =>
    simp only [call, engaged]
    split
    case isTrue again =>
      obtain ⟨at_, again, rfl⟩ := again
      split
      · exact .okNoChange .same ..
      · exact .okNoChange (.confirmed at_ again) ..
    · exact ends_step ..
  | reengage =>
    simp only [call, reengage]
    split
    · split
      · exact .okNoChange .same ..
      · exact .refuse ..
    · exact .go .reengage ..
  | _ =>
    simp only [call, rppAck, pause, resume, reengageGate, reengageTimeout, abort, rppComplete, rppError, gateLost, estop,
      ekfReset, rppStale, rppPivotTimeout, rppAckTimeout, skipPoint]
    repeat' split
    -- the three endings unfold to the same record, so each is matched as it is written
    all_goals with_reducible first | exact .refuse .. | exact .okNoChange .same .. | exact .go .same ..

/-- Every ending logs one entry under the next number. -/
theorem Ends.logs {s : Step} (ends : Ends f now c s) :
    s.fsm.seq = f.seq + 1 ∧ s.logged.seq = f.seq + 1 ∧
      s.fsm.log = (f.log ++ [s.logged]).drop ((f.log ++ [s.logged]).length - logCapacity) := by
  cases ends with
  | go prepared => cases prepared <;> simp only [MissionFsm.go, record, and_self]
  | refuse => simp only [MissionFsm.refuse, record, and_self]
  | okNoChange prepared => cases prepared <;> simp only [MissionFsm.okNoChange, record, and_self]

/-- Without a state change the machine also keeps why it is where it is. -/
theorem Ends.keeps {s : Step} (ends : Ends f now c s) (quiet : s.result.transitioned = false) :
    s.fsm.reason = f.reason ∧ s.fsm.gateReason = f.gateReason ∧ s.fsm.detail = f.detail := by
  cases ends with
  | go => simp [MissionFsm.go] at quiet
  | refuse => exact ⟨rfl, rfl, rfl⟩
  | okNoChange prepared => cases prepared <;> exact ⟨rfl, rfl, rfl⟩

theorem Ends.accepts {s : Step} (ends : Ends f now c s) (refused : s.result.accepted = false) :
    s.result.transitioned = false := by
  cases ends with
  | go => simp [MissionFsm.go] at refused
  | refuse => rfl
  | okNoChange => rfl

/-- The mark of a confirmed re-engage comes from the machine before the call or is set in ENGAGING. -/
theorem Prepared.confirms {g : MissionFsm} (prepared : Prepared f c g)
    (before : f.reengageConfirmed = true → f.state = .engaging) (after : g.reengageConfirmed = true) :
    f.state = .engaging := by
  cases prepared with
  | same => exact before after
  | start => exact before after
  | reengage => simp at after
  | confirmed at_ => exact at_

theorem Prepared.state {g : MissionFsm} (prepared : Prepared f c g) : g.state = f.state := by
  cases prepared <;> rfl

theorem Moves.of_arming (moves : Moves f c .arming) : f.state = .placing ∨ f.state = .paused := by
  cases moves with
  | placed at_ => exact .inl at_
  | reengage at_ => exact .inr at_

theorem Moves.of_completed (moves : Moves f c .completed) : f.state = .running := by
  cases moves with
  | rppComplete at_ => exact at_

theorem Moves.of_running (moves : Moves f c .running) :
    f.state = .ready ∨ f.state = .paused ∨ f.state = .engaging ∧ f.awaitingReengageGate = true := by
  cases moves with
  | rppAck at_ => exact .inl at_
  | resume at_ => exact .inr (.inl at_)
  | reengaged at_ again confirmed => exact .inr (.inr ⟨at_, awaitingReengageGate_iff.mpr ⟨again, confirmed⟩⟩)

theorem Moves.of_terminal {dst : State} (moves : Moves f c dst) (ended : f.terminal = true)
    (marks : f.reengaging = true → f.state = .arming ∨ f.state = .engaging) : c = .start true := by
  have ended : f.state = .completed ∨ f.state = .aborted ∨ f.state = .error := by
    simpa [terminal, or_assoc] using ended
  have inactive : f.active = false := by
    rcases ended with at_ | at_ | at_ <;> simp [active, terminal, at_]
  cases moves with
  | start => rfl
  | abort active => simp [inactive] at active
  | estop active => simp [inactive] at active
  | gateLost before => rcases ended with at_ | at_ | at_ <;> simp [beforeRunning, at_] at before
  | rppError here => rcases ended with at_ | at_ | at_ <;> simp [at_] at here marks <;> simp [here] at marks
  | _ => rcases ended with at_ | at_ | at_ <;> simp_all

/-- No state change carries the confirmation of a re-engage out of ENGAGING. -/
theorem call_confirmed (before : f.reengageConfirmed = true → f.state = .engaging)
    (after : (f.call now c).fsm.reengageConfirmed = true) : (f.call now c).fsm.state = .engaging := by
  have ends := call_ends f now c
  have moved := call_cases f now c
  generalize f.call now c = s at after ends moved
  cases ends with
  | refuse => exact before after
  | okNoChange prepared => exact prepared.state.trans (prepared.confirms before after)
  | go prepared dst =>
    simp only [go, record, Bool.if_false_right, Bool.and_eq_true, decide_eq_true_eq] at after
    obtain ⟨rfl | rfl, after⟩ := after
    · have at_ := prepared.confirms before after
      rcases moved with stays | goes
      · exact stays.state.trans at_
      · rcases goes.moves.of_arming with elsewhere | elsewhere
        · simp [at_] at elsewhere
        · simp [at_] at elsewhere
    · rfl

theorem call_marks (before : f.reengaging = true → f.state = .arming ∨ f.state = .engaging)
    (after : (f.call now c).fsm.reengaging = true) :
    (f.call now c).fsm.state = .arming ∨ (f.call now c).fsm.state = .engaging := by
  rcases call_cases f now c with stays | goes
  · rw [stays.state]
    exact before (stays.reengaging ▸ after)
  · exact (goes.reengaging after).2

/-! ### Whole runs -/

/-- One call as a step of a run, with the answer and what was logged. -/
def callStep (f : MissionFsm) (e : ℤ × Call) : MissionFsm × Result × Transition :=
  ((f.call e.1 e.2).fsm, (f.call e.1 e.2).result, (f.call e.1 e.2).logged)

/-- The calls so far, newest first. -/
abbrev Calls := List (Entry (ℤ × Call) (Result × Transition))

def acceptedStart (x : Entry (ℤ × Call) (Result × Transition)) : Bool :=
  match x.event.2 with
  | .start _ => x.out.1.accepted
  | _ => false

/-- The machine after the calls `h`. -/
structure Reached (h : Calls) (f : MissionFsm) : Prop where
  marks : f.reengaging = true → f.state = .arming ∨ f.state = .engaging
  confirmed : f.reengageConfirmed = true → f.state = .engaging
  missionId : f.missionId = h.countP acceptedStart
  seq : f.seq = h.length
  log : f.log = ((h.map fun x => x.out.2).take logCapacity).reverse
  numbered : (h.map fun x => x.out.2.seq) = (List.range' 1 h.length).reverse

theorem start_missionId (f : MissionFsm) (preArmOk : Bool) (now : ℤ) :
    (f.start preArmOk now).fsm.missionId = f.missionId + if (f.start preArmOk now).result.accepted then 1 else 0 := by
  unfold start
  split
  · rfl
  · split
    · rfl
    · rfl

theorem call_missionId (f : MissionFsm) (now : ℤ) (c : Call) :
    (f.call now c).fsm.missionId =
      f.missionId + if acceptedStart ⟨(now, c), (f.callStep (now, c)).2⟩ then 1 else 0 := by
  have others (other : ∀ preArmOk, c ≠ .start preArmOk) : (f.call now c).fsm.missionId = f.missionId := by
    rcases call_cases f now c with stays | goes
    · exact stays.missionId
    · rw [goes.missionId, if_neg (other true)]
  cases c with
  | start preArmOk => exact start_missionId f preArmOk now
  | _ => exact others nofun

/-- Appending to the log and dropping its oldest entries, with the log read newest first. -/
theorem log_take {t : Transition} {l : List Transition} (log : f.log = (l.take logCapacity).reverse) :
    (f.log ++ [t]).drop ((f.log ++ [t]).length - logCapacity) = ((t :: l).take logCapacity).reverse := by
  have newest : f.log ++ [t] = (t :: l.take logCapacity).reverse := by rw [log, List.reverse_cons]
  rw [newest, List.drop_reverse, List.length_reverse, List.reverse_inj, ← List.take_succ_cons, List.take_take,
    List.take_eq_take_iff, List.length_take]
  omega

theorem Reached.next {h : Calls} (reached : Reached h f) (now : ℤ) (c : Call) :
    Reached (⟨(now, c), (f.callStep (now, c)).2⟩ :: h) (f.callStep (now, c)).1 where
  marks := call_marks reached.marks
  confirmed := call_confirmed reached.confirmed
  missionId := by
    rw [List.countP_cons, ← reached.missionId]
    exact call_missionId f now c
  seq := by
    rw [List.length_cons, ← reached.seq]
    exact (call_ends f now c).logs.1
  log := by
    rw [List.map_cons, ← log_take reached.log]
    exact (call_ends f now c).logs.2.2
  numbered := by
    rw [List.map_cons, reached.numbered, List.length_cons, List.range'_concat, List.reverse_append]
    have number := (call_ends f now c).logs.2.1
    rw [reached.seq] at number
    simp only [callStep, number]
    simp [Nat.add_comm]

theorem reached_of_run {h : Calls} (run : Run callStep {} h f) : Reached h f := by
  refine run.invariant Reached ?_ ?_
  · exact ⟨nofun, nofun, rfl, rfl, rfl, rfl⟩
  · intro h f e reached _
    exact reached.next e.1 e.2

/-- The lifecycle over every sequence of events: its marks, its number, its log, and for the next event which
state changes there are and what stays when there is none. -/
theorem fsm_invariants {h : Calls} (run : Run callStep {} h f) :
    (f.reengaging = true → f.state = .arming ∨ f.state = .engaging) ∧
    (f.awaitingReengageGate = true → f.reengaging = true ∧ f.state = .engaging) ∧
    f.missionId = h.countP acceptedStart ∧
    f.log = ((h.map fun x => x.out.2).take (min logCapacity h.length)).reverse ∧
    (f.log.map fun t => t.seq) =
      List.range' (h.length - min logCapacity h.length + 1) (min logCapacity h.length) ∧
    ∀ now c,
      ((f.call now c).result.transitioned = true →
        (f.terminal = true → (∃ preArmOk, c = .start preArmOk) ∧ (f.call now c).result.accepted = true) ∧
        ((f.call now c).fsm.state = .completed → f.state = .running) ∧
        ((f.call now c).fsm.state = .running →
          f.state = .ready ∨ f.state = .paused ∨ f.state = .engaging ∧ f.awaitingReengageGate = true)) ∧
      ((f.call now c).result.accepted = false ∨ (f.call now c).result.transitioned = false →
        (f.call now c).fsm.state = f.state ∧ (f.call now c).fsm.reason = f.reason ∧
        (f.call now c).fsm.gateReason = f.gateReason ∧ (f.call now c).fsm.detail = f.detail ∧
        (f.call now c).fsm.missionId = f.missionId ∧ (f.call now c).fsm.changes = f.changes) := by
  have reached := reached_of_run run
  refine ⟨reached.marks, ?_, reached.missionId, ?_, ?_, ?_⟩
  · intro waits
    obtain ⟨again, confirmed⟩ := awaitingReengageGate_iff.mp waits
    exact ⟨again, reached.confirmed confirmed⟩
  · rw [reached.log, List.reverse_inj, List.take_eq_take_iff, List.length_map]
    omega
  · rw [reached.log, List.map_reverse, List.map_take, List.map_map]
    have numbers : h.map ((fun t : Transition => t.seq) ∘ fun x => x.out.2) = (List.range' 1 h.length).reverse :=
      reached.numbered
    rw [numbers, List.take_reverse, List.reverse_reverse, List.length_range', List.drop_range']
    have first : 1 + (h.length - logCapacity) * 1 = h.length - min logCapacity h.length + 1 := by omega
    have size : h.length - (h.length - logCapacity) = min logCapacity h.length := by omega
    rw [first, size]
  · intro now c
    have ends := call_ends f now c
    constructor
    · intro moved
      rcases call_cases f now c with stays | goes
      · simp [stays.quiet] at moved
      · refine ⟨?_, ?_, ?_⟩
        · intro ended
          have start := goes.moves.of_terminal ended reached.marks
          exact ⟨⟨true, start⟩, by rw [goes.result]⟩
        · intro done
          exact (done ▸ goes.moves).of_completed
        · intro runs
          exact (runs ▸ goes.moves).of_running
    · intro quiet
      have quiet := quiet.elim ends.accepts id
      obtain ⟨reason, gateReason, detail⟩ := ends.keeps quiet
      rcases call_cases f now c with stays | goes
      · exact ⟨stays.state, reason, gateReason, detail, stays.missionId, stays.changes⟩
      · simp [goes.result] at quiet

/-- A mission started twice, paused and re-engaged: the second start is refused, the gate brings it back to RUNNING. -/
def reengagedRun : List (ℤ × Call) :=
  [(0, .start true), (1, .start true), (2, .artifactLoaded true "points"), (3, .placed true 0 "placed"),
    (4, .armed true 0 "armed"), (5, .engaged true 0 "OFFBOARD"), (6, .rppAck true), (7, .pause), (8, .reengage),
    (9, .armed true 0 "armed"), (10, .engaged true 0 "OFFBOARD"), (11, .reengageGate false), (12, .reengageGate true)]

theorem reengagedRun_sound :
    (exec callStep [] {} reengagedRun).2.missionId = (exec callStep [] {} reengagedRun).1.countP acceptedStart ∧
      (exec callStep [] {} reengagedRun).2.state = .running ∧ (exec callStep [] {} reengagedRun).2.missionId = 1 :=
  ⟨(fsm_invariants (exec_run reengagedRun .start)).2.2.1, by decide, by decide⟩

end Dyx3.Mission.MissionFsm
