import Dyx3.Mission.Node

/-!
What a callback of the mission node can do to its state machine: nothing, or events one after another, each with
its grounds in the callback's input. Every claim about when a state is entered follows from that.
-/

namespace Dyx3.Mission

open Lib

namespace Node

def logged? : Output → Option (ℕ × Transition)
  | .logged m t => some (m, t)
  | _ => none

/-- The transitions among the outputs, oldest first. -/
def logs (out : List Output) : List (ℕ × Transition) := out.filterMap logged?

@[simp] theorem logs_append (out out' : List Output) : logs (out ++ out') = logs out ++ logs out' :=
  List.filterMap_append

/-- Nothing the state machine or the gate shows has changed. -/
structure Quiet (n n' : Node) : Prop where
  fsm : n'.fsm = n.fsm
  logs : logs n'.out = logs n.out
  gate : n'.gate = n.gate
  params : n'.params = n.params

theorem Quiet.rfl' {n : Node} : Quiet n n := ⟨rfl, rfl, rfl, rfl⟩

theorem Quiet.trans {a b c : Node} (first : Quiet a b) (second : Quiet b c) : Quiet a c :=
  ⟨second.fsm.trans first.fsm, second.logs.trans first.logs, second.gate.trans first.gate,
    second.params.trans first.params⟩

/-- A change of other fields first. -/
theorem Quiet.after {a b c : Node} (second : Quiet b c) (first : Quiet a b) : Quiet a c := first.trans second

theorem quiet_emit (n : Node) {o : Output} (silent : logged? o = none) : Quiet n (n.emit o) :=
  ⟨rfl, by simp [emit, logs, silent], rfl, rfl⟩

theorem quiet_publishState (n : Node) : Quiet n n.publishState :=
  Quiet.after (quiet_emit _ rfl) ⟨rfl, rfl, rfl, rfl⟩

theorem quiet_publishPoints (n : Node) (evs : List PointEvent) : Quiet n (n.publishPoints evs) := by
  induction evs generalizing n with
  | nil => exact .rfl'
  | cons ev evs ih => exact (quiet_emit n rfl).trans (ih (n.publishPoint ev))

theorem quiet_finishJournal (n : Node) : Quiet n n.finishJournal := by
  unfold finishJournal
  split
  · exact (quiet_publishPoints _ _).after ⟨rfl, rfl, rfl, rfl⟩
  · exact .rfl'

theorem quiet_unloadOnError (n : Node) : Quiet n n.unloadOnError := by
  unfold unloadOnError
  split
  · exact ⟨rfl, rfl, rfl, rfl⟩
  · exact .rfl'

theorem quiet_onTerminalEntry (n : Node) : Quiet n n.onTerminalEntry := by
  have finished := (quiet_finishJournal { n with dirty := true }).after (a := n) ⟨rfl, rfl, rfl, rfl⟩
  have unloaded := quiet_unloadOnError { { n with dirty := true }.finishJournal with readySince := none }
  exact (finished.trans (unloaded.after ⟨rfl, rfl, rfl, rfl⟩)).trans ⟨rfl, rfl, rfl, rfl⟩

theorem quiet_launchProgressJob (n : Node) : Quiet n n.launchProgressJob := by
  unfold launchProgressJob
  split
  · exact .rfl'
  · exact ⟨rfl, rfl, rfl, rfl⟩

theorem quiet_noteProgress (n : Node) (t : Clock) : Quiet n (n.noteProgress t) := by
  unfold noteProgress
  split
  · exact .rfl'
  · exact (quiet_launchProgressJob _).after ⟨rfl, rfl, rfl, rfl⟩

theorem quiet_recordResolved (n : Node) (t : Clock) (evs : List PointEvent) : Quiet n (n.recordResolved t evs) := by
  unfold recordResolved
  split
  · exact .rfl'
  · exact (quiet_noteProgress _ t).after ⟨rfl, rfl, rfl, rfl⟩

theorem quiet_pollProgress (n : Node) : Quiet n n.pollProgress := by
  unfold pollProgress
  split
  · exact (quiet_launchProgressJob _).after ⟨rfl, rfl, rfl, rfl⟩
  · exact .rfl'

theorem quiet_sendAll (t : Clock) (fuel : ℕ) (n : Node) : Quiet n (sendAll t fuel n) := by
  induction fuel generalizing n with
  | zero => exact .rfl'
  | succ fuel ih =>
    unfold sendAll
    split
    · exact .rfl'
    · exact ((quiet_emit _ rfl).trans (ih _)).after ⟨rfl, rfl, rfl, rfl⟩

/-- An event of the state machine and its observer. -/
theorem fire_spec (n : Node) (t : Clock) (c : MissionFsm.Call) :
    (n.fire t c).fsm = (n.fsm.call t.steady c).fsm ∧
      logs (n.fire t c).out =
        logs n.out ++ [((n.fsm.call t.steady c).fsm.missionId, (n.fsm.call t.steady c).logged)] ∧
      (n.fire t c).gate = n.gate ∧ (n.fire t c).params = n.params := by
  have observed : ∀ m : Node, Quiet m (if m.fsm.terminal then m.onTerminalEntry else m).publishState := by
    intro m
    refine .trans ?_ (quiet_publishState _)
    split
    · exact quiet_onTerminalEntry m
    · exact .rfl'
  have noted : Quiet ({ n with fsm := (n.fsm.call t.steady c).fsm }.emit
      (.logged (n.fsm.call t.steady c).fsm.missionId (n.fsm.call t.steady c).logged)) (n.fire t c) := by
    unfold fire
    dsimp only
    split
    · exact .rfl'
    · exact observed _
  refine ⟨noted.fsm, noted.logs.trans ?_, noted.gate, noted.params⟩
  simp [emit, logs, logged?]

theorem gateOk_congr {n n' : Node} (gate : n'.gate = n.gate) (params : n'.params = n.params) (t : Clock) :
    n'.gateOk t = n.gateOk t := by
  simp only [gateOk, verdict, gate, params]

/-! ### The entry actions settle -/

theorem publishPoints_entered (n : Node) (evs : List PointEvent) :
    (n.publishPoints evs).enteredChanges = n.enteredChanges := by
  induction evs generalizing n with
  | nil => rfl
  | cons ev evs ih => exact ih (n.publishPoint ev)

theorem onTerminalEntry_entered (n : Node) : n.onTerminalEntry.enteredChanges = n.enteredChanges := by
  have finished : ∀ m : Node, m.finishJournal.enteredChanges = m.enteredChanges := by
    intro m
    unfold finishJournal
    split
    · exact publishPoints_entered _ _
    · rfl
  have unloaded : ∀ m : Node, m.unloadOnError.enteredChanges = m.enteredChanges := by
    intro m
    unfold unloadOnError
    split
    · rfl
    · rfl
  exact (unloaded _).trans (finished _)

theorem fire_entered (n : Node) (t : Clock) (c : MissionFsm.Call) :
    (n.fire t c).enteredChanges = n.enteredChanges := by
  unfold fire
  dsimp only
  split
  · rfl
  · split
    · exact onTerminalEntry_entered _
    · rfl

/-- An entry action changes the state only to a terminal one. -/
theorem enter_settles {n : Node} (t : Clock) {s : State} (here : n.fsm.state = s) :
    (n.enter t s).enteredChanges = n.enteredChanges ∧
      ((n.enter t s).fsm.changes = n.fsm.changes ∨ (n.enter t s).fsm.terminal = true) := by
  have ends : ∀ (m : Node) (c : MissionFsm.Call), (∀ dst, MissionFsm.Moves m.fsm c dst → dst = .error ∨ dst = .aborted) →
      (m.fire t c).enteredChanges = m.enteredChanges ∧
        ((m.fire t c).fsm.changes = m.fsm.changes ∨ (m.fire t c).fsm.terminal = true) := by
    intro m c only
    refine ⟨fire_entered m t c, ?_⟩
    rw [(fire_spec m t c).1]
    rcases MissionFsm.call_cases m.fsm t.steady c with stays | goes
    · exact .inl stays.changes
    · rcases only _ goes.moves with error | aborted
      · exact .inr (by simp [MissionFsm.terminal, error])
      · exact .inr (by simp [MissionFsm.terminal, aborted])
  have unplaced : ∀ (m : Node) (reason : UInt8) (detail : String),
      (m.fire t (.placed false reason detail)).enteredChanges = m.enteredChanges ∧
        ((m.fire t (.placed false reason detail)).fsm.changes = m.fsm.changes ∨
          (m.fire t (.placed false reason detail)).fsm.terminal = true) := by
    refine fun m reason detail => ends m _ fun dst moves => ?_
    cases moves
    exact .inl rfl
  have stopped : ∀ m : Node, (m.fire t .estop).enteredChanges = m.enteredChanges ∧
      ((m.fire t .estop).fsm.changes = m.fsm.changes ∨ (m.fire t .estop).fsm.terminal = true) := by
    refine fun m => ends m _ fun dst moves => ?_
    cases moves
    exact .inr rfl
  have lost : ∀ (m : Node) (why : UInt8), m.fsm.state = .arming ∨ m.fsm.state = .engaging →
      (m.fire t (.gateLost why)).enteredChanges = m.enteredChanges ∧
        ((m.fire t (.gateLost why)).fsm.changes = m.fsm.changes ∨ (m.fire t (.gateLost why)).fsm.terminal = true) := by
    refine fun m why waiting => ends m _ fun dst moves => ?_
    cases moves with
    | gateLost => exact .inl rfl
    | safetyPause at_ => simp [at_] at waiting
  unfold enter
  dsimp only
  split
  · exact ⟨rfl, .inl rfl⟩
  · split
    · exact unplaced ..
    · split
      · exact unplaced ..
      · exact ⟨rfl, .inl rfl⟩
    · exact unplaced ..
  · split
    · split
      · exact stopped _
      · exact lost _ _ (.inl here)
    · exact ⟨rfl, .inl rfl⟩
  · split
    · split
      · exact stopped _
      · exact lost _ _ (.inr here)
    · exact ⟨rfl, .inl rfl⟩
  · exact ⟨rfl, .inl rfl⟩
  · exact ⟨rfl, .inl rfl⟩

theorem enter_terminal {n : Node} (t : Clock) (ended : n.fsm.terminal = true) :
    n.enter t n.fsm.state = { n with dirty := true } := by
  unfold enter
  dsimp only
  split <;> simp_all [MissionFsm.terminal]

/-- Two rounds are enough: the loop ends with every entered state's actions done. -/
theorem enterAll_settled (t : Clock) (n : Node) :
    (enterAll t 2 n).1.enteredChanges = (enterAll t 2 n).1.fsm.changes := by
  rw [enterAll]
  split
  case isTrue done => exact done
  · obtain ⟨entered, changes⟩ := enter_settles (n := { n with enteredChanges := n.fsm.changes }) t rfl
    generalize enter { n with enteredChanges := n.fsm.changes } t n.fsm.state = m at entered changes
    show (enterAll t 1 m).1.enteredChanges = _
    rw [enterAll]
    split
    case isTrue done => exact done
    case isFalse open_ =>
      rcases changes with same | ended
      · exact absurd (entered.trans same.symm) open_
      · rw [enterAll, enter_terminal t (n := { m with enteredChanges := m.fsm.changes }) ended]

/-! ### The grounds of an event -/

/-- Why a callback for `i`, answered with `ans`, may fire an event that leads into RUNNING or starts a mission:
`f₀` is the state machine as the callback found it. -/
def Grounds (i : Input) (ans : Answer) (f₀ : MissionFsm) (n : Node) : MissionFsm.Call → Prop
  | .start true => (∃ sha requestId resume, i.event = .start sha requestId resume) ∧ n.fsm = f₀
  | .rppAck true =>
    ((∃ m, i.event = .rpp m ∧ m.missionId = n.fsm.missionId ∧ m.holdsPath = true) ∧ n.fsm = f₀ ∧ logs n.out = []) ∧
      (n.gateOk i.clock).1 = true
  | .resume true =>
    (i.event = .resume ∧ n.fsm = f₀ ∧ logs n.out = [] ∧ (f₀.state = .paused → ∃ reason, ans = .resume true reason)) ∧
      (n.gateOk i.clock).1 = true
  | .reengage =>
    i.event = .resume ∧ n.fsm = f₀ ∧ logs n.out = [] ∧ (f₀.state = .paused → ∃ reason, ans = .resume true reason)
  | .reengageGate true => (n.gateOk i.clock).1 = true
  | _ => True

section

variable {i : Input} {ans : Answer} {f₀ : MissionFsm}

/-- Silent changes and events with their grounds, one after another. -/
inductive Fires (i : Input) (ans : Answer) (f₀ : MissionFsm) : Node → Node → Prop where
  | quiet {n n' : Node} (same : Quiet n n') : Fires i ans f₀ n n'
  | fire {n : Node} (c : MissionFsm.Call) (grounds : Grounds i ans f₀ n c) : Fires i ans f₀ n (n.fire i.clock c)
  | trans {a b c : Node} (first : Fires i ans f₀ a b) (second : Fires i ans f₀ b c) : Fires i ans f₀ a c

theorem Fires.rfl' {n : Node} : Fires i ans f₀ n n := .quiet .rfl'

/-- A silent change first. -/
theorem Fires.after {a b c : Node} (second : Fires i ans f₀ b c) (same : Quiet a b) : Fires i ans f₀ a c :=
  .trans (.quiet same) second

/-- A silent change and then an event. -/
theorem fires_with {a n : Node} {c : MissionFsm.Call} (same : Quiet a n) (grounds : Grounds i ans f₀ n c) :
    Fires i ans f₀ a (n.fire i.clock c) :=
  (Fires.fire c grounds).after same

theorem pollLoad_fires (n : Node) : Fires i ans f₀ n (n.pollLoad i.clock) := by
  unfold pollLoad
  split
  · dsimp only
    split
    · split
      · exact fires_with ⟨rfl, rfl, rfl, rfl⟩ trivial
      · exact fires_with ⟨rfl, rfl, rfl, rfl⟩ trivial
    · exact .quiet ⟨rfl, rfl, rfl, rfl⟩
  · exact .rfl'

theorem pollPlace_fires (n : Node) : Fires i ans f₀ n (n.pollPlace i.clock) := by
  unfold pollPlace
  split
  · dsimp only
    split
    · exact .quiet ⟨rfl, rfl, rfl, rfl⟩
    · split
      · exact fires_with ⟨rfl, rfl, rfl, rfl⟩ trivial
      · split
        · exact fires_with ⟨rfl, rfl, rfl, rfl⟩ trivial
        · split
          · exact fires_with ⟨rfl, rfl, rfl, rfl⟩ trivial
          · split
            · exact fires_with ⟨rfl, rfl, rfl, rfl⟩ trivial
            · exact fires_with ⟨rfl, rfl, rfl, rfl⟩ trivial
  · exact .rfl'

theorem confirmReengage_fires (n : Node) : Fires i ans f₀ n (n.confirmReengage i.clock) := by
  unfold confirmReengage
  split
  · dsimp only
    split
    case isTrue passed => exact fires_with ⟨rfl, rfl, rfl, rfl⟩ passed
    · exact .quiet ⟨rfl, rfl, rfl, rfl⟩
  · exact .rfl'

theorem handlePx4_fires (n : Node) (o : Px4Outcome) : Fires i ans f₀ n (n.handlePx4 i.clock o) := by
  unfold handlePx4
  dsimp only
  split
  · exact .quiet ⟨rfl, rfl, rfl, rfl⟩
  · split
    · split
      · exact fires_with ⟨rfl, rfl, rfl, rfl⟩ trivial
      · exact .quiet ⟨rfl, rfl, rfl, rfl⟩
    · split
      · refine .trans ?_ (confirmReengage_fires _)
        exact fires_with ⟨rfl, rfl, rfl, rfl⟩ trivial
      · exact .quiet ⟨rfl, rfl, rfl, rfl⟩
    all_goals
      split
      · exact .quiet ⟨rfl, rfl, rfl, rfl⟩
      · exact .quiet ⟨rfl, rfl, rfl, rfl⟩

theorem enter_fires (n : Node) (s : State) : Fires i ans f₀ n (n.enter i.clock s) := by
  unfold enter
  refine Fires.after ?_ (b := { n with dirty := true }) ⟨rfl, rfl, rfl, rfl⟩
  dsimp only
  split
  · exact .quiet ⟨rfl, rfl, rfl, rfl⟩
  · split
    · exact .fire _ trivial
    · split
      · exact .fire _ trivial
      · exact .quiet ⟨rfl, rfl, rfl, rfl⟩
    · exact .fire _ trivial
  · split
    · split
      · exact .fire _ trivial
      · exact .fire _ trivial
    · exact .quiet ⟨rfl, rfl, rfl, rfl⟩
  · split
    · split
      · exact .fire _ trivial
      · exact .fire _ trivial
    · exact .quiet ⟨rfl, rfl, rfl, rfl⟩
  · exact .quiet ⟨rfl, rfl, rfl, rfl⟩
  · exact .rfl'

theorem enterAll_fires (fuel : ℕ) (n : Node) : Fires i ans f₀ n (enterAll i.clock fuel n).1 := by
  induction fuel generalizing n with
  | zero => exact .rfl'
  | succ fuel ih =>
    unfold enterAll
    split
    · exact .rfl'
    · refine Fires.after (.trans (enter_fires _ _) (ih _)) ⟨rfl, rfl, rfl, rfl⟩

theorem tickPx4_fires (n : Node) : Fires i ans f₀ n (n.tickPx4 i.clock) := by
  have handled : ∀ (outcomes : List Px4Outcome) (n : Node),
      Fires i ans f₀ n (outcomes.foldl (fun n o => n.handlePx4 i.clock o) n) := by
    intro outcomes
    induction outcomes with
    | nil => exact fun _ => .rfl'
    | cons o outcomes ih => exact fun n => .trans (handlePx4_fires n o) (ih _)
  exact (handled _ _).after ⟨rfl, rfl, rfl, rfl⟩

theorem enterStates_fires (n : Node) : Fires i ans f₀ n (n.enterStates i.clock) := by
  refine .trans (enterAll_fires 2 n) ?_
  unfold enterStates
  dsimp only
  split
  · exact .quiet (quiet_noteProgress _ _)
  · exact .rfl'

theorem quiet_flush (n : Node) (t : Clock) : Quiet n (n.flush t) := by
  refine .trans (quiet_sendAll t n.px4.queue.length n) ?_
  unfold flush
  dsimp only
  split
  · exact quiet_publishState _
  · exact .rfl'

theorem advance_fires (n : Node) : Fires i ans f₀ n (n.advance i.clock) :=
  Fires.after (.trans (pollLoad_fires _) (.trans (pollPlace_fires _) (.trans (tickPx4_fires _)
    (.trans (enterStates_fires _) (.quiet (quiet_flush _ _)))))) (quiet_pollProgress n)

theorem evaluateGate_fires (n : Node) : Fires i ans f₀ n (n.evaluateGate i.clock) := by
  unfold evaluateGate
  split
  · exact .rfl'
  · dsimp only
    split
    · exact .fire .estop trivial
    · split
      · split
        · exact .fire (.gateLost _) trivial
        · split
          case isTrue passed => exact .fire (.reengageGate true) passed.1
          · exact .rfl'
      · split
        · split
          · exact .fire (.gateLost _) trivial
          · exact .rfl'
        · exact .rfl'

theorem noteRun_quiet (n : Node) (t : Clock) (m : RppStatus) : Quiet n (n.noteRun t m) := by
  unfold noteRun
  dsimp only
  split
  · exact (quiet_noteProgress _ t).after ⟨rfl, rfl, rfl, rfl⟩
  · exact .rfl'

theorem rppEvent_fires {n : Node} {m : RppStatus} (event : i.event = .rpp m) (mine : m.missionId = n.fsm.missionId)
    (first : n.fsm = f₀) (clean : logs n.out = []) : Fires i ans f₀ n (n.rppEvent i.clock m) := by
  unfold rppEvent
  split
  · exact .fire .rppError trivial
  · split
    case isTrue ready =>
      cases gate : (n.gateOk i.clock).1 with
      | true => exact .fire (.rppAck true) ⟨⟨⟨m, event, mine, ready.2⟩, first, clean⟩, gate⟩
      | false => exact .fire (.rppAck false) trivial
    · split
      · exact fires_with ⟨rfl, rfl, rfl, rfl⟩ trivial
      · split
        · exact .fire .rppComplete trivial
        · exact .rfl'

theorem onRpp_fires {n : Node} {m : RppStatus} (event : i.event = .rpp m) (clean : logs n.out = []) :
    Fires i ans n.fsm n (n.onRpp i.clock m) := by
  unfold onRpp
  split
  · exact .rfl'
  case isFalse mine =>
    rw [not_not] at mine
    have noted := (noteRun_quiet { n with
      rppStamp := some i.clock.steady, run := { n.run with runIndex := m.runIndex } } i.clock m).after (a := n)
      ⟨rfl, rfl, rfl, rfl⟩
    have latch : ∀ k : Node, Quiet k (k.unlatchPivot m) := by
      intro k
      unfold unlatchPivot
      split
      · exact ⟨rfl, rfl, rfl, rfl⟩
      · exact .rfl'
    have mine' := mine.trans (congrArg MissionFsm.missionId noted.fsm).symm
    refine Fires.after (.trans (rppEvent_fires event mine' noted.fsm (noted.logs.trans clean)) ?_) noted
    exact (advance_fires _).after (latch _)

theorem checkEkfReset_fires (n : Node) : Fires i ans f₀ n (n.checkEkfReset i.clock) := by
  unfold checkEkfReset
  dsimp only
  split
  · split
    · exact .rfl'
    · split
      · exact .rfl'
      · exact fires_with ⟨rfl, rfl, rfl, rfl⟩ trivial
  · exact .rfl'

theorem trackPoints_quiet (hypot : Flt → Flt → Flt) (n : Node) (t : Clock) (m : VehicleState) :
    Quiet n (trackPoints hypot n t m) := by
  unfold trackPoints
  split
  case h_1 j _ =>
    split
    · have published := quiet_publishPoints { n with journal := some (j.update hypot m.north m.east).1 }
        (j.update hypot m.north m.east).2
      exact (quiet_recordResolved _ _ _).after ⟨published.fsm, published.logs, published.gate, published.params⟩
    · exact .rfl'
  · exact .rfl'

theorem onVehicle_fires (hypot : Flt → Flt → Flt) (n : Node) (m : VehicleState) :
    Fires i ans f₀ n (onVehicle hypot n i.clock m) := by
  unfold onVehicle
  dsimp only
  refine Fires.after (b := { n with vehicle := some m, vehicleStamp := i.clock.steady }) ?_ ⟨rfl, rfl, rfl, rfl⟩
  refine .trans (checkEkfReset_fires _) ?_
  exact (advance_fires _).after (trackPoints_quiet hypot _ i.clock m)

theorem onTimer_fires (n : Node) : Fires i ans f₀ n (n.onTimer i.clock) := by
  have stale : ∀ k : Node, Fires i ans f₀ k (k.checkRppStale i.clock) := by
    intro k
    unfold checkRppStale
    split
    · exact .fire .rppStale trivial
    · exact .rfl'
  have ack : ∀ k : Node, Fires i ans f₀ k (k.checkRppAck i.clock) := by
    intro k
    unfold checkRppAck
    split
    · exact .fire (.rppAckTimeout _ _) trivial
    · exact .rfl'
  have hold : ∀ k : Node, Fires i ans f₀ k (k.checkReengage i.clock) := by
    intro k
    unfold checkReengage
    split
    · exact .fire (.reengageTimeout _) trivial
    · exact .rfl'
  exact .trans (evaluateGate_fires n) (.trans (stale _) (.trans (ack _) (.trans (hold _)
    (.trans (advance_fires _) (.quiet (quiet_publishState _))))))

theorem onPx4Reply_fires (n : Node) (id : ℕ) (accepted : Bool) (reason : UInt8) :
    Fires i ans f₀ n (n.onPx4Reply i.clock id accepted reason) := by
  unfold onPx4Reply
  split
  · exact Fires.after (.trans (handlePx4_fires _ _) (advance_fires _)) ⟨rfl, rfl, rfl, rfl⟩
  · exact (advance_fires _).after ⟨rfl, rfl, rfl, rfl⟩

theorem onSkip_fires (n : Node) : Fires i ans f₀ n (n.onSkip i.clock).1 := by
  have skipped : ∀ k : Node, Quiet k (k.skipPoint i.clock).1 := by
    intro k
    unfold skipPoint
    split
    · exact .rfl'
    · split
      · exact ⟨rfl, rfl, rfl, rfl⟩
      · dsimp only
        refine (quiet_recordResolved _ _ _).after ⟨rfl, ?_, rfl, rfl⟩
        simp [publishPoint, emit, logs, logged?]
  unfold onSkip
  dsimp only
  split
  · refine .trans ?_ (.quiet ((skipped _).trans (quiet_publishState _)))
    exact .fire (.skipPoint _) trivial
  · refine .trans ?_ (.quiet (quiet_publishState _))
    exact .fire (.skipPoint _) trivial

theorem beginMission_fires {n : Node} {sha requestId : String} {resume : Bool}
    (event : i.event = .start sha requestId resume) :
    Fires i ans n.fsm n (n.beginMission i.clock sha requestId resume).1 := by
  have named : ∀ (k : Node) (run : RunState), Quiet k (k.withRun run) := fun _ _ => ⟨rfl, rfl, rfl, rfl⟩
  have reset : ∀ (k : Node) (startRun : ℕ) (points : List ℕ), Quiet k (k.resetExecution startRun points) :=
    fun _ _ _ => ⟨rfl, rfl, rfl, rfl⟩
  have started : ∀ (run : RunState) (pre : Bool),
      Fires i ans n.fsm n ((n.withRun run).fire i.clock (.start pre)) := by
    intro run pre
    cases pre with
    | true => exact fires_with (named n run) ⟨⟨_, _, _, event⟩, rfl⟩
    | false => exact fires_with (named n run) trivial
  unfold beginMission
  dsimp only
  split
  · exact .rfl'
  · split
    · exact .rfl'
    · split
      · exact .rfl'
      · split
        · exact .rfl'
        · split
          · dsimp only
            exact .trans (started _ _) (.quiet (named _ _))
          · dsimp only
            exact .trans (started _ _) ((advance_fires _).after (reset _ _ _))

theorem resume_accepted {f : MissionFsm} (now : ℤ) (paused : f.state = .paused) {c : MissionFsm.Call}
    (passes : c = .reengage ∨ c = .resume true) : (f.call now c).result.accepted = true := by
  rcases passes with rfl | rfl
  · simp [MissionFsm.call, MissionFsm.reengage, paused, MissionFsm.go]
  · simp only [MissionFsm.call, MissionFsm.resume, paused]
    split
    · rfl
    · rfl

theorem onResume_fires {n : Node} (event : i.event = .resume) (clean : logs n.out = [])
    (answer : (n.onResume i.clock).2 = ans) : Fires i ans n.fsm n (n.onResume i.clock).1 := by
  have based : ∀ (k : Node) (r : Result), Quiet k (k.rebaseline r) := by
    intro k r
    unfold rebaseline
    split
    · exact ⟨rfl, rfl, rfl, rfl⟩
    · exact .rfl'
  have accepted : n.resumeCall i.clock = .reengage ∨ n.resumeCall i.clock = .resume true →
      n.fsm.state = .paused → ∃ reason, ans = .resume true reason := by
    intro passes paused
    rw [← answer]
    simp only [onResume, resume_accepted i.clock.steady paused passes]
    exact ⟨_, rfl⟩
  unfold onResume
  dsimp only
  refine .trans (.fire (n.resumeCall i.clock) ?_) (.trans (.quiet (based _ _)) (advance_fires _))
  cases call : n.resumeCall i.clock with
  | reengage => exact ⟨event, rfl, clean, accepted (.inl call)⟩
  | resume passed =>
    cases passed with
    | false => trivial
    | true =>
      refine ⟨⟨event, rfl, clean, accepted (.inr call)⟩, ?_⟩
      simp only [resumeCall] at call
      split at call
      · cases call
      · simp only [MissionFsm.Call.resume.injEq, Bool.and_eq_true] at call
        exact call.1.2
  | _ =>
    simp only [resumeCall] at call
    split at call <;> cases call

/-- The node as a callback begins: a gate message is already taken in. -/
def received (n : Node) (i : Input) : Node :=
  match i.event with
  | .gate m => { n with gate := ⟨some i.clock.steady, m.ok, m.reasonCode, m.preArmOk, m.preArmReasonCode⟩ }
  | _ => n

/-- What a callback can do; a change of parameters apart, which fires nothing. -/
theorem handle_fires (hypot : Flt → Flt → Flt) {n : Node} (clean : logs n.out = []) (i : Input)
    (other : ∀ ps, i.event ≠ .parameters ps) :
    Fires i (handle hypot n i.clock i.event).2 n.fsm (n.received i) (handle hypot n i.clock i.event).1 := by
  obtain ⟨t, e⟩ := i
  cases e with dsimp only [handle, received, onPause, onAbort, onCancel, onGate]
  | start sha requestId resume => exact beginMission_fires rfl
  | pause => exact .trans (.fire .pause trivial) (advance_fires (i := ⟨t, _⟩) _)
  | resume => exact onResume_fires rfl clean rfl
  | abort reason => exact .trans (.fire (.abort reason) trivial) (advance_fires (i := ⟨t, _⟩) _)
  | skip => exact onSkip_fires (i := ⟨t, _⟩) _
  | cancelGoal => exact .trans (.fire (.abort _) trivial) (advance_fires (i := ⟨t, _⟩) _)
  | gate m => exact .trans (evaluateGate_fires (i := ⟨t, _⟩) _) (advance_fires (i := ⟨t, _⟩) _)
  | rpp m => exact onRpp_fires (i := ⟨t, _⟩) rfl clean
  | vehicle m => exact onVehicle_fires (i := ⟨t, _⟩) hypot _ m
  | px4Reply id accepted reason => exact onPx4Reply_fires (i := ⟨t, _⟩) _ id accepted reason
  | loadDone r => exact .quiet ⟨rfl, rfl, rfl, rfl⟩
  | placeDone r => exact .quiet ⟨rfl, rfl, rfl, rfl⟩
  | progressDone errors => exact .quiet ⟨rfl, rfl, rfl, rfl⟩
  | timer => exact onTimer_fires (i := ⟨t, _⟩) _
  | workTimer => exact advance_fires (i := ⟨t, _⟩) _
  | parameters ps => exact absurd rfl (other ps)

theorem onParameters_fsm (n : Node) (ps : List (String × ParamValue)) :
    (n.onParameters ps).1.fsm = n.fsm ∧ (n.onParameters ps).1.out = n.out := by
  unfold onParameters
  split
  · exact ⟨rfl, rfl⟩
  · exact ⟨rfl, rfl⟩

end

end Node

end Dyx3.Mission
