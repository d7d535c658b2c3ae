import Dyx3.Mission.Running

/-!
What a callback of the mission node does to its execution, step by step. An accepted start apart, a callback is a
sequence of the steps below, so whatever every step keeps is kept by every callback.
-/

namespace Dyx3.Mission

open Lib

theorem Job.none_ne_ready {α β : Type} {r : β} : (Job.none : Job α β) ≠ .ready r := nofun

theorem Job.running_ne_ready {α β : Type} {w : α} {r : β} : (Job.running w : Job α β) ≠ .ready r := nofun

namespace Node

/-- The outputs an execution is told by: the transitions and the point results. -/
def isTold : Output → Bool
  | .logged _ _ | .point _ => true
  | _ => false

def told (out : List Output) : List Output := out.filter isTold

@[simp] theorem told_append (out out' : List Output) : told (out ++ out') = told out ++ told out' :=
  List.filter_append ..

/-- The execution, its points and its records are as they were. -/
structure Same (n n' : Node) : Prop where
  fsm : n'.fsm = n.fsm
  request : n'.run.requestId = n.run.requestId
  source : n'.run.sourceArtifactSha256 = n.run.sourceArtifactSha256
  journal : n'.journal = n.journal
  resumePoints : n'.resumePoints = n.resumePoints
  completed : n'.completed = n.completed
  tracking : n'.progressTracking = n.progressTracking
  progress : n'.progress = n.progress
  queue : n'.progressQueue = n.progressQueue
  job : n'.progressJob = n.progressJob
  told : told n'.out = told n.out
  place : ∀ r, n'.placeJob = .ready r → n.placeJob = .ready r

theorem Same.rfl' {n : Node} : Same n n :=
  ⟨rfl, rfl, rfl, rfl, rfl, rfl, rfl, rfl, rfl, rfl, rfl, fun _ => id⟩

theorem Same.trans {a b c : Node} (first : Same a b) (second : Same b c) : Same a c where
  fsm := second.fsm.trans first.fsm
  request := second.request.trans first.request
  source := second.source.trans first.source
  journal := second.journal.trans first.journal
  resumePoints := second.resumePoints.trans first.resumePoints
  completed := second.completed.trans first.completed
  tracking := second.tracking.trans first.tracking
  progress := second.progress.trans first.progress
  queue := second.queue.trans first.queue
  job := second.job.trans first.job
  told := second.told.trans first.told
  place r ready := first.place r (second.place r ready)

theorem same_emit (n : Node) {o : Output} (silent : isTold o = false) : Same n (n.emit o) := by
  refine ⟨rfl, rfl, rfl, rfl, rfl, rfl, rfl, rfl, rfl, rfl, ?_, fun _ => id⟩
  simp [emit, Node.told, silent]

theorem same_publishState (n : Node) : Same n n.publishState :=
  .trans (b := { n with dirty := false }) ⟨rfl, rfl, rfl, rfl, rfl, rfl, rfl, rfl, rfl, rfl, rfl, fun _ => id⟩ (same_emit _ rfl)

theorem same_sendAll (t : Clock) (fuel : ℕ) (n : Node) : Same n (sendAll t fuel n) := by
  induction fuel generalizing n with
  | zero => exact .rfl'
  | succ fuel ih =>
    unfold sendAll
    split
    · exact .rfl'
    case h_2 px4 r _ =>
      have taken : Same n { n with px4, dirty := true } :=
        ⟨rfl, rfl, rfl, rfl, rfl, rfl, rfl, rfl, rfl, rfl, rfl, fun _ => id⟩
      exact taken.trans ((same_emit _ rfl).trans (ih _))

/-! ### An event and its observer -/

/-- The results of the points still open, as they are published. -/
def closing (n : Node) : List PointEvent := n.journal.elim [] fun j => j.finish.2

/-- A terminal state was entered: the journal is closed, and ERROR unloads it. -/
structure Closed (n m : Node) : Prop where
  fsm : m.fsm = n.fsm
  request : m.run.requestId = n.run.requestId
  source : m.run.sourceArtifactSha256 = n.run.sourceArtifactSha256
  journal : m.journal = none ∨ m.journal = n.journal.map fun j => j.finish.1
  resumePoints : m.resumePoints = n.resumePoints
  completed : m.completed = n.completed
  tracking : m.progressTracking = n.progressTracking
  progress : m.progress = n.progress
  queue : m.progressQueue = n.progressQueue
  job : m.progressJob = n.progressJob
  told : told m.out = Node.told n.out ++ n.closing.map fun ev => .point ⟨n.fsm.missionId, ev⟩
  place : m.placeJob = n.placeJob

theorem publishPoints_eq (n : Node) (evs : List PointEvent) :
    n.publishPoints evs = { n with out := n.out ++ evs.map fun ev => .point ⟨n.fsm.missionId, ev⟩ } := by
  induction evs generalizing n with
  | nil => simp [publishPoints]
  | cons ev evs ih =>
    show (n.publishPoint ev).publishPoints evs = _
    rw [ih]
    simp [publishPoint, emit]

theorem told_points (id : ℕ) (evs : List PointEvent) :
    told (evs.map fun ev => .point ⟨id, ev⟩) = evs.map fun ev => .point ⟨id, ev⟩ := by
  simp [told, isTold]

theorem finishJournal_closed (n : Node) : Closed n n.finishJournal := by
  unfold finishJournal
  split
  case h_1 j open_ =>
    rw [publishPoints_eq]
    refine ⟨rfl, rfl, rfl, .inr ?_, rfl, rfl, rfl, rfl, rfl, rfl, ?_, rfl⟩
    · rw [open_]
      rfl
    · rw [told_append, told_points]
      simp [closing, open_]
  case h_2 none =>
    refine ⟨rfl, rfl, rfl, .inl none, rfl, rfl, rfl, rfl, rfl, rfl, ?_, rfl⟩
    simp [closing, none]

theorem Closed.unload {n m : Node} (closed : Closed n m) : Closed n m.unloadOnError := by
  unfold unloadOnError
  split
  · exact { closed with journal := .inl rfl }
  · exact closed

theorem onTerminalEntry_closed (n : Node) : Closed n n.onTerminalEntry := by
  have closed := finishJournal_closed { n with dirty := true }
  have marked : Closed n { { n with dirty := true }.finishJournal with readySince := none } := { closed with }
  exact { marked.unload with }

/-- The node after an event, before its observer. -/
def raised (n : Node) (t : Clock) (c : MissionFsm.Call) : Node :=
  { n with fsm := (n.fsm.call t.steady c).fsm }.emit
    (.logged (n.fsm.call t.steady c).fsm.missionId (n.fsm.call t.steady c).logged)

/-- A terminal state is closed when it is entered. -/
theorem fire_cases (n : Node) (t : Clock) (c : MissionFsm.Call) :
    (Same (n.raised t c) (n.fire t c) ∧ ((n.raised t c).fsm.terminal = true → n.fsm.terminal = true)) ∨
      ((n.raised t c).fsm.terminal = true ∧ ∃ m, Closed (n.raised t c) m ∧ Same m (n.fire t c)) := by
  have stands : (n.fsm.call t.steady c).logged.refused = true ∨
      (n.fsm.call t.steady c).logged.src = (n.fsm.call t.steady c).logged.dst →
      (n.raised t c).fsm.terminal = true → n.fsm.terminal = true := by
    intro still ended
    have same : (n.fsm.call t.steady c).fsm.state = n.fsm.state := by
      rcases MissionFsm.call_cases n.fsm t.steady c with stays | goes
      · exact stays.state
      · rw [goes.accepted, goes.src, goes.dst] at still
        simpa using still.elim (nomatch ·) Eq.symm
    rw [raised, emit, MissionFsm.terminal, same] at ended
    exact ended
  unfold fire
  dsimp only
  split
  case isTrue quiet =>
    simp only [Bool.or_eq_true, Bool.and_eq_true, decide_eq_true_eq] at quiet
    exact .inl ⟨.rfl', stands (quiet.imp_right And.left)⟩
  · split
    case isTrue ended => exact .inr ⟨ended, _, onTerminalEntry_closed _, same_publishState _⟩
    case isFalse live => exact .inl ⟨same_publishState _, fun ended => absurd ended live⟩

/-! ### The records of an execution -/

theorem launchProgressJob_eq (n : Node) :
    ∃ queue job, n.launchProgressJob = { n with progressQueue := queue, progressJob := job } := by
  unfold launchProgressJob
  split
  · exact ⟨n.progressQueue, n.progressJob, rfl⟩
  · exact ⟨_, _, rfl⟩

theorem pollProgress_eq (n : Node) :
    ∃ queue job, n.pollProgress = { n with progressQueue := queue, progressJob := job } := by
  unfold pollProgress
  split
  · obtain ⟨queue, job, launched⟩ := launchProgressJob_eq { n with progressJob := .none }
    exact ⟨queue, job, launched⟩
  · exact ⟨n.progressQueue, n.progressJob, rfl⟩

theorem noteProgress_eq (n : Node) (t : Clock) :
    ∃ tracking progress queue job, n.noteProgress t = { n with
      progressTracking := tracking, progress, progressQueue := queue, progressJob := job } := by
  unfold noteProgress
  split
  · exact ⟨_, _, _, _, rfl⟩
  · dsimp only
    obtain ⟨queue, job, launched⟩ := launchProgressJob_eq _
    exact ⟨_, _, queue, job, launched⟩

theorem recordResolved_eq (n : Node) (t : Clock) (evs : List PointEvent) :
    ∃ completed tracking progress queue job, n.recordResolved t evs = { n with
      completed, progressTracking := tracking, progress, progressQueue := queue, progressJob := job } := by
  unfold recordResolved
  split
  · exact ⟨_, _, _, _, _, rfl⟩
  · obtain ⟨tracking, progress, queue, job, noted⟩ :=
      noteProgress_eq { n with completed := n.completed ++ evs.map PointEvent.pointIndex } t
    exact ⟨_, tracking, progress, queue, job, noted⟩

/-- The journal of a placement that was stored: as many points are restored as the start brought. -/
def opened (n : Node) (r : PlaceResult) : Except String (Option PointJournal) :=
  (PointJournal.make r.placement.execution.points (.fin (n.params.value .pointCaptureRadius))).map fun j =>
    if n.resumePoints.isEmpty then some j else j.restoreResolved n.resumePoints.length

/-- The node with a verified artifact; its progress is recorded from here on. -/
def loaded (n : Node) (a : PathArtifact) : Node := { n with artifact := some a, progressTracking := true }

/-- The node with the journal of the path that was placed. -/
def journaled (n : Node) (r : PlaceResult) (j : PointJournal) : Node :=
  { n with
    placeJob := .none
    journal := some j
    placement := n.placement.map fun (p : PlacementRecord) => { p with anchored := r.placement.transformed }
    run := { n.run with
      pathArtifactSha256 := r.placement.execution.sha256, pointIndex := j.activePoint.getD 0 } }

/-- A start comes as an event of its own only when it is refused; a verified artifact and a placed path have steps of
their own. -/
def Allowed (n : Node) : MissionFsm.Call → Prop
  | .start true => n.fsm.active = true
  | .artifactLoaded true _ | .placed true _ _ => False
  | _ => True

/-- One step of a callback. -/
inductive Act (hypot : Flt → Flt → Flt) (t : Clock) : Node → Node → Prop where
  | same {n n' : Node} (same : Same n n') : Act hypot t n n'
  | fire {n : Node} (c : MissionFsm.Call) (allowed : Allowed n c) : Act hypot t n (n.fire t c)
  | note {n : Node} : Act hypot t n (n.noteProgress t)
  | poll {n : Node} : Act hypot t n n.pollProgress
  | verified {n : Node} (a : PathArtifact) (loading : n.fsm.state = .loading) :
      Act hypot t n ((n.loaded a).fire t (.artifactLoaded true "artifact verified"))
  | placed {n : Node} {r : PlaceResult} {j : PointJournal} (ready : n.placeJob = .ready r) (placing : n.fsm.state = .placing)
      (ok : r.placement.ok = true ∧ r.stored = true) (opened : n.opened r = .ok (some j)) :
      Act hypot t n ((n.journaled r j).fire t (.placed true reasonNone r.placement.detail))
  | unplaced {n : Node} (placing : n.fsm.state = .placing) : Act hypot t n { n with placeJob := .none, journal := none }
  | track {n : Node} (m : VehicleState) : Act hypot t n (trackPoints hypot n t m)
  | skip {n : Node} (driven : n.fsm.state = .running ∨ n.fsm.state = .paused ∨ n.fsm.reengaging = true) :
      Act hypot t n (n.skipPoint t).1

inductive Acts (hypot : Flt → Flt → Flt) (t : Clock) : Node → Node → Prop where
  | one {n n' : Node} (act : Act hypot t n n') : Acts hypot t n n'
  | trans {a b c : Node} (first : Acts hypot t a b) (second : Acts hypot t b c) : Acts hypot t a c

/-- What every step keeps, every sequence of steps keeps. -/
theorem Acts.keeps {hypot : Flt → Flt → Flt} {t : Clock} {n n' : Node} (acts : Acts hypot t n n') (p : Node → Prop)
    (step : ∀ n n', Act hypot t n n' → p n → p n') : p n → p n' := by
  induction acts with
  | one act => exact step _ _ act
  | trans _ _ first second => exact second ∘ first

section

variable {hypot : Flt → Flt → Flt} {t : Clock}

theorem Acts.rfl' {n : Node} : Acts hypot t n n := .one (.same .rfl')

/-- A change of other fields first. -/
theorem Acts.after {a b c : Node} (second : Acts hypot t b c) (same : Same a b) : Acts hypot t a c :=
  .trans (.one (.same same)) second

theorem acts_same {n n' : Node} (same : Same n n') : Acts hypot t n n' := .one (.same same)

/-- An event after it. -/
theorem Acts.fire {a n : Node} {c : MissionFsm.Call} (acts : Acts hypot t a n) (allowed : Allowed n c) :
    Acts hypot t a (n.fire t c) :=
  .trans acts (.one (.fire c allowed))

/-- Other fields and then an event. -/
theorem acts_fire {a n : Node} {c : MissionFsm.Call} (same : Same a n) (allowed : Allowed n c) :
    Acts hypot t a (n.fire t c) :=
  (acts_same same).fire allowed

theorem acts_pollLoad (n : Node) : Acts hypot t n (n.pollLoad t) := by
  have taken : Same n { n with loadJob := .none } :=
    ⟨rfl, rfl, rfl, rfl, rfl, rfl, rfl, rfl, rfl, rfl, rfl, fun _ => id⟩
  unfold pollLoad
  split
  case h_1 r _ =>
    dsimp only
    split
    case isTrue mine =>
      split
      · exact acts_fire taken trivial
      · exact Acts.after (.one (.verified (n := { n with loadJob := .none }) r.artifact mine.2)) taken
    · exact acts_same taken
  · exact .rfl'

theorem opened_error {n : Node} {r : PlaceResult} {e : String}
    (made : PointJournal.make r.placement.execution.points (.fin (n.params.value .pointCaptureRadius)) = .error e) :
    n.opened r = .error e := by
  rw [opened, made]
  rfl

theorem opened_ok {n : Node} {r : PlaceResult} {j : PointJournal}
    (made : PointJournal.make r.placement.execution.points (.fin (n.params.value .pointCaptureRadius)) = .ok j) :
    n.opened r = .ok (if n.resumePoints.isEmpty then some j else j.restoreResolved n.resumePoints.length) := by
  rw [opened, made]
  rfl

theorem acts_pollPlace (n : Node) : Acts hypot t n (n.pollPlace t) := by
  have taken : Same n { n with placeJob := .none } :=
    ⟨rfl, rfl, rfl, rfl, rfl, rfl, rfl, rfl, rfl, rfl, rfl, fun _ ready => absurd ready Job.none_ne_ready⟩
  unfold pollPlace
  split
  case h_1 r ready =>
    dsimp only
    split
    · exact acts_same taken
    case isFalse mine =>
      simp only [ne_eq, not_or, not_not] at mine
      split
      · exact acts_fire taken trivial
      case isFalse ok =>
        split
        · exact acts_fire taken trivial
        case isFalse stored =>
          split
          · exact acts_fire taken trivial
          case h_2 j made =>
            split
            · exact (Acts.one (.unplaced mine.2)).fire trivial
            case h_2 j restored =>
              have opened : n.opened r = .ok (some j) := by rw [opened_ok made, restored]
              exact .one (.placed ready mine.2 ⟨by simpa using ok, by simpa using stored⟩ opened)
  · exact .rfl'

theorem acts_confirmReengage (n : Node) : Acts hypot t n (n.confirmReengage t) := by
  have stamped : Same n { n with reengageConfirmedAt := some t.steady } :=
    ⟨rfl, rfl, rfl, rfl, rfl, rfl, rfl, rfl, rfl, rfl, rfl, fun _ => id⟩
  unfold confirmReengage
  split
  · dsimp only
    split
    · exact acts_fire stamped trivial
    · exact acts_same stamped
  · exact .rfl'

theorem acts_handlePx4 (n : Node) (o : Px4Outcome) : Acts hypot t n (n.handlePx4 t o) := by
  have dirty : Same n { n with dirty := true } :=
    ⟨rfl, rfl, rfl, rfl, rfl, rfl, rfl, rfl, rfl, rfl, rfl, fun _ => id⟩
  unfold handlePx4
  dsimp only
  split
  · exact acts_same dirty
  · split
    · split
      · exact acts_fire dirty trivial
      · exact acts_same dirty
    · split
      · refine .trans ?_ (acts_confirmReengage _)
        exact acts_fire dirty trivial
      · exact acts_same dirty
    all_goals
      split
      · exact acts_same dirty
      · exact acts_same ⟨rfl, rfl, rfl, rfl, rfl, rfl, rfl, rfl, rfl, rfl, rfl, fun _ => id⟩

theorem acts_enter (n : Node) (s : State) : Acts hypot t n (n.enter t s) := by
  have dirty : Same n { n with dirty := true } :=
    ⟨rfl, rfl, rfl, rfl, rfl, rfl, rfl, rfl, rfl, rfl, rfl, fun _ => id⟩
  unfold enter
  dsimp only
  split
  · exact acts_same ⟨rfl, rfl, rfl, rfl, rfl, rfl, rfl, rfl, rfl, rfl, rfl, fun _ => id⟩
  · split
    · exact acts_fire dirty trivial
    · split
      · exact acts_fire dirty trivial
      · exact acts_same ⟨rfl, rfl, rfl, rfl, rfl, rfl, rfl, rfl, rfl, rfl, rfl, fun _ ready => absurd ready Job.running_ne_ready⟩
    · exact acts_fire dirty trivial
  all_goals try
    split
    · split
      · exact acts_fire dirty trivial
      · exact acts_fire dirty trivial
    · exact acts_same ⟨rfl, rfl, rfl, rfl, rfl, rfl, rfl, rfl, rfl, rfl, rfl, fun _ => id⟩
  · exact acts_same ⟨rfl, rfl, rfl, rfl, rfl, rfl, rfl, rfl, rfl, rfl, rfl, fun _ => id⟩
  · exact acts_same dirty

theorem acts_enterAll (fuel : ℕ) (n : Node) : Acts hypot t n (enterAll t fuel n).1 := by
  induction fuel generalizing n with
  | zero => exact .rfl'
  | succ fuel ih =>
    unfold enterAll
    split
    · exact .rfl'
    · have entered : Same n { n with enteredChanges := n.fsm.changes } :=
        ⟨rfl, rfl, rfl, rfl, rfl, rfl, rfl, rfl, rfl, rfl, rfl, fun _ => id⟩
      refine Acts.after ?_ entered
      exact .trans (acts_enter _ _) (ih _)

theorem acts_tickPx4 (n : Node) : Acts hypot t n (n.tickPx4 t) := by
  have handled : ∀ (outcomes : List Px4Outcome) (n : Node),
      Acts hypot t n (outcomes.foldl (fun n o => n.handlePx4 t o) n) := by
    intro outcomes
    induction outcomes with
    | nil => exact fun _ => .rfl'
    | cons o outcomes ih => exact fun n => .trans (acts_handlePx4 n o) (ih _)
  have ticked : Same n { n with px4 := (n.px4.onTick t.steady).1 } :=
    ⟨rfl, rfl, rfl, rfl, rfl, rfl, rfl, rfl, rfl, rfl, rfl, fun _ => id⟩
  refine Acts.after ?_ ticked
  exact handled _ _

theorem acts_enterStates (n : Node) : Acts hypot t n (n.enterStates t) := by
  refine .trans (acts_enterAll 2 n) ?_
  unfold enterStates
  dsimp only
  split
  · exact .one .note
  · exact .rfl'

theorem same_flush (n : Node) : Same n (n.flush t) := by
  refine .trans (same_sendAll t n.px4.queue.length n) ?_
  unfold flush
  dsimp only
  split
  · exact same_publishState _
  · exact .rfl'

theorem acts_advance (n : Node) : Acts hypot t n (n.advance t) :=
  .trans (.one .poll) (.trans (acts_pollLoad _) (.trans (acts_pollPlace _) (.trans (acts_tickPx4 _)
    (.trans (acts_enterStates _) (acts_same (same_flush _))))))

theorem acts_evaluateGate (n : Node) : Acts hypot t n (n.evaluateGate t) := by
  unfold evaluateGate
  split
  · exact .rfl'
  · dsimp only
    split
    · exact .one (.fire _ trivial)
    · split
      · split
        · exact .one (.fire _ trivial)
        · split
          · exact .one (.fire _ trivial)
          · exact .rfl'
      · split
        · split
          · exact .one (.fire _ trivial)
          · exact .rfl'
        · exact .rfl'

theorem acts_onRpp (n : Node) (m : RppStatus) : Acts hypot t n (n.onRpp t m) := by
  have noted : ∀ k : Node, Acts hypot t k (k.noteRun t m) := by
    intro k
    unfold noteRun
    dsimp only
    split
    · exact Acts.after (.one .note) ⟨rfl, rfl, rfl, rfl, rfl, rfl, rfl, rfl, rfl, rfl, rfl, fun _ => id⟩
    · exact .rfl'
  have reported : ∀ k : Node, Acts hypot t k (k.rppEvent t m) := by
    intro k
    unfold rppEvent
    split
    · exact .one (.fire _ trivial)
    · split
      · exact .one (.fire _ trivial)
      · split
        · exact acts_fire ⟨rfl, rfl, rfl, rfl, rfl, rfl, rfl, rfl, rfl, rfl, rfl, fun _ => id⟩ trivial
        · split
          · exact .one (.fire _ trivial)
          · exact .rfl'
  have latch : ∀ k : Node, Same k (k.unlatchPivot m) := by
    intro k
    unfold unlatchPivot
    split
    · exact ⟨rfl, rfl, rfl, rfl, rfl, rfl, rfl, rfl, rfl, rfl, rfl, fun _ => id⟩
    · exact .rfl'
  unfold onRpp
  split
  · exact .rfl'
  · have received : Same n { n with rppStamp := some t.steady, run := { n.run with runIndex := m.runIndex } } :=
      ⟨rfl, rfl, rfl, rfl, rfl, rfl, rfl, rfl, rfl, rfl, rfl, fun _ => id⟩
    refine Acts.after ?_ received
    exact .trans (noted _) (.trans (reported _) ((acts_advance _).after (latch _)))

theorem acts_onVehicle (n : Node) (m : VehicleState) : Acts hypot t n (onVehicle hypot n t m) := by
  have checked : ∀ k : Node, Acts hypot t k (k.checkEkfReset t) := by
    intro k
    unfold checkEkfReset
    dsimp only
    split
    · split
      · exact .rfl'
      · split
        · exact .rfl'
        · exact acts_fire ⟨rfl, rfl, rfl, rfl, rfl, rfl, rfl, rfl, rfl, rfl, rfl, fun _ => id⟩ trivial
    · exact .rfl'
  unfold onVehicle
  have received : Same n { n with vehicle := some m, vehicleStamp := t.steady } :=
    ⟨rfl, rfl, rfl, rfl, rfl, rfl, rfl, rfl, rfl, rfl, rfl, fun _ => id⟩
  refine Acts.after ?_ received
  exact .trans (checked _) (.trans (.one (.track m)) (acts_advance _))

theorem acts_onTimer (n : Node) : Acts hypot t n (n.onTimer t) := by
  have stale : ∀ k : Node, Acts hypot t k (k.checkRppStale t) := by
    intro k
    unfold checkRppStale
    split
    · exact .one (.fire _ trivial)
    · exact .rfl'
  have ack : ∀ k : Node, Acts hypot t k (k.checkRppAck t) := by
    intro k
    unfold checkRppAck
    split
    · exact .one (.fire _ trivial)
    · exact .rfl'
  have hold : ∀ k : Node, Acts hypot t k (k.checkReengage t) := by
    intro k
    unfold checkReengage
    split
    · exact .one (.fire _ trivial)
    · exact .rfl'
  exact .trans (acts_evaluateGate n) (.trans (stale _) (.trans (ack _) (.trans (hold _)
    (.trans (acts_advance _) (acts_same (same_publishState _))))))

theorem acts_onPx4Reply (n : Node) (id : ℕ) (accepted : Bool) (reason : UInt8) :
    Acts hypot t n (n.onPx4Reply t id accepted reason) := by
  have answered : ∀ px4 : Px4Sequencer, Same n { n with px4 } :=
    fun _ => ⟨rfl, rfl, rfl, rfl, rfl, rfl, rfl, rfl, rfl, rfl, rfl, fun _ => fun h => h⟩
  unfold onPx4Reply
  split
  case h_1 px4 o _ =>
    refine Acts.after ?_ (answered px4)
    exact .trans (acts_handlePx4 _ o) (acts_advance _)
  case h_2 px4 _ =>
    refine Acts.after ?_ (answered px4)
    exact acts_advance _

/-- A skip is only made while the state machine has a path to drive. -/
theorem skipPoint_driven {f : MissionFsm} {now : ℤ} {active : Bool}
    (accepted : (f.call now (.skipPoint active)).result.accepted = true) :
    (f.call now (.skipPoint active)).fsm.state = .running ∨ (f.call now (.skipPoint active)).fsm.state = .paused ∨
      (f.call now (.skipPoint active)).fsm.reengaging = true := by
  simp only [MissionFsm.call, MissionFsm.skipPoint] at accepted ⊢
  split at accepted
  · cases accepted
  case isFalse driven =>
    rw [if_neg driven]
    split at accepted
    · cases accepted
    case isFalse active =>
      rw [if_neg active]
      show f.state = .running ∨ f.state = .paused ∨ f.reengaging = true
      by_contra elsewhere
      simp only [not_or] at elsewhere
      exact driven ⟨elsewhere.1, elsewhere.2.1, by simpa using elsewhere.2.2⟩

theorem acts_onSkip (n : Node) : Acts hypot t n (n.onSkip t).1 := by
  have fired : Acts hypot t n (n.fire t (.skipPoint (n.journal.bind (·.activePoint)).isSome)) := .one (.fire _ trivial)
  unfold onSkip
  dsimp only
  split
  case isTrue accepted =>
    refine .trans fired (.trans (.one (.skip ?_)) (acts_same (same_publishState _)))
    rw [(fire_spec n t _).1]
    exact skipPoint_driven accepted
  · exact .trans fired (acts_same (same_publishState _))

theorem acts_onResume (n : Node) : Acts hypot t n (n.onResume t).1 := by
  have based : ∀ (k : Node) (r : Result), Same k (k.rebaseline r) := by
    intro k r
    unfold rebaseline
    split
    · exact ⟨rfl, rfl, rfl, rfl, rfl, rfl, rfl, rfl, rfl, rfl, rfl, fun _ => id⟩
    · exact .rfl'
  have allowed : Allowed n (n.resumeCall t) := by
    unfold resumeCall
    dsimp only
    split
    · trivial
    · trivial
  have fired : Acts hypot t n (n.fire t (n.resumeCall t)) := .one (.fire _ allowed)
  unfold onResume
  dsimp only
  have onward := based (n.fire t (n.resumeCall t)) (n.fsm.call t.steady (n.resumeCall t)).result
  exact .trans fired (.trans (acts_same onward) (acts_advance _))

/-- A start was accepted as a new execution. -/
def begins (o : StartOutcome) : Bool := o.accepted && !o.duplicate

/-- A refused event only logs. -/
theorem fire_refused {n : Node} {c : MissionFsm.Call} (refused : (n.fsm.call t.steady c).logged.refused = true) :
    n.fire t c = { n with
      fsm := (n.fsm.call t.steady c).fsm
      out := n.out ++ [.logged (n.fsm.call t.steady c).fsm.missionId (n.fsm.call t.steady c).logged] } := by
  unfold fire
  dsimp only
  rw [refused]
  rfl

theorem start_refused {f : MissionFsm} {now : ℤ} {pre : Bool} (refused : (f.call now (.start pre)).result.accepted = false) :
    (f.call now (.start pre)).logged.refused = true ∧ (pre = true → f.active = true) := by
  simp only [MissionFsm.call, MissionFsm.start] at refused ⊢
  split
  case isTrue active => exact ⟨rfl, fun _ => active⟩
  case isFalse idle =>
    rw [if_neg idle] at refused
    split
    case isTrue shut => exact ⟨rfl, fun ok => by simp [ok] at shut⟩
    case isFalse ok =>
      rw [if_neg ok] at refused
      cases refused

/-- The identity put in place for a start that is refused is taken back. -/
theorem withRun_refused {n : Node} {c : MissionFsm.Call} (run : RunState)
    (refused : (n.fsm.call t.steady c).logged.refused = true) : ((n.withRun run).fire t c).withRun n.run = n.fire t c := by
  rw [fire_refused refused, fire_refused (n := n.withRun run) refused]
  rfl

theorem start_accepted {f : MissionFsm} {now : ℤ} {pre : Bool} (accepted : (f.call now (.start pre)).result.accepted = true) :
    pre = true ∧ f.active = false ∧
      (f.call now (.start pre)).fsm =
        (({ f with missionId := f.missionId + 1 } : MissionFsm).go .loading .start reasonNone "start accepted" now).fsm := by
  simp only [MissionFsm.call, MissionFsm.start] at accepted ⊢
  split at accepted
  · cases accepted
  case isFalse idle =>
    rw [if_neg idle]
    split at accepted
    · cases accepted
    case isFalse ok =>
      rw [if_neg ok]
      exact ⟨by simpa using ok, by simpa using idle, rfl⟩

/-- The identity of the execution a start begins. -/
def identity (n : Node) (sha requestId : String) (resume : Bool) : RunState where
  missionId := n.fsm.missionId + 1
  sourceArtifactSha256 := sha
  requestId
  startRunIndex := (n.restored sha resume).1
  runIndex := (n.restored sha resume).1
  pointIndex := (n.restored sha resume).2.length

/-- The node in LOADING, before the entry action. -/
def begun (n : Node) (t : Clock) (sha requestId : String) (resume : Bool) : Node :=
  ((n.withRun (n.identity sha requestId resume)).fire t (.start true)).resetExecution (n.restored sha resume).1
    (n.restored sha resume).2

/-- What a start that begins no execution leaves: the node, or the node with the refusal logged. -/
def Untouched (t : Clock) (n m : Node) : Prop :=
  m = n ∨ ∃ pre, (n.fsm.call t.steady (.start pre)).result.accepted = false ∧ m = n.fire t (.start pre)

/-- A start that begins an execution finds the node free. -/
structure Begins (t : Clock) (n m : Node) (o : StartOutcome) (sha requestId : String) (resume : Bool) : Prop where
  valid : validRequestId requestId = true
  idle : n.fsm.active = false
  released : n.px4.busy = false
  free : n.jobsPending = false
  outcome : o = { accepted := true, missionId := n.fsm.missionId + 1, resumedRunIndex := (n.restored sha resume).1 }
  node : m = (n.begun t sha requestId resume).advance t

theorem beginMission_cases (n : Node) (t : Clock) (sha requestId : String) (resume : Bool) :
    (begins (n.beginMission t sha requestId resume).2 = false ∧
      Untouched t n (n.beginMission t sha requestId resume).1) ∨
    Begins t n (n.beginMission t sha requestId resume).1 (n.beginMission t sha requestId resume).2 sha requestId resume := by
  unfold beginMission
  dsimp only
  split
  · exact .inl ⟨rfl, .inl rfl⟩
  rename_i valid
  split
  · exact .inl ⟨rfl, .inl rfl⟩
  split
  · exact .inl ⟨rfl, .inl rfl⟩
  split
  · exact .inl ⟨rfl, .inl rfl⟩
  case isFalse free =>
    generalize (n.preArmOk t).2 = why
    generalize (n.preArmOk t).1 = pre
    split
    case isTrue refused =>
      have refused : (n.fsm.call t.steady (.start pre)).result.accepted = false := by simpa using refused
      exact .inl ⟨rfl, .inr ⟨pre, refused, withRun_refused _ (start_refused refused).1⟩⟩
    case isFalse accepted =>
      obtain ⟨rfl, idle, fsm⟩ := start_accepted (by simpa using accepted)
      have free : n.px4.busy = false ∧ n.jobsPending = false := by simpa [idle] using free
      have number (run : RunState) : ((n.withRun run).fire t (.start true)).fsm.missionId = n.fsm.missionId + 1 := by
        rw [(fire_spec _ t _).1]
        exact congrArg MissionFsm.missionId fsm
      refine .inr ⟨by simpa using valid, idle, free.1, free.2, ?_, ?_⟩
      · dsimp only
        rw [number]
      · simp only [begun, identity]

theorem Untouched.acts {n m : Node} (untouched : Untouched t n m) : Acts hypot t n m := by
  rcases untouched with rfl | ⟨pre, refused, rfl⟩
  · exact .rfl'
  · cases pre with
    | true => exact .one (.fire _ ((start_refused refused).2 rfl))
    | false => exact .one (.fire _ trivial)

/-- Every callback but an accepted start; what a job's thread leaves apart. -/
theorem handle_acts (n : Node) (e : Event) (other : ∀ o, (handle hypot n t e).2 = .start o → begins o = false)
    (place : ∀ r, e ≠ .placeDone r) (progress : ∀ errors, e ≠ .progressDone errors) :
    Acts hypot t n (handle hypot n t e).1 := by
  cases e with dsimp only [handle, onPause, onAbort, onCancel, onGate] at other ⊢
  | start sha requestId resume =>
    rcases beginMission_cases n t sha requestId resume with ⟨_, untouched⟩ | begun
    · exact untouched.acts
    · have refused := other _ rfl
      rw [begun.outcome] at refused
      cases refused
  | pause => exact .trans (.one (.fire .pause trivial)) (acts_advance _)
  | resume => exact acts_onResume n
  | abort reason => exact .trans (.one (.fire (.abort reason) trivial)) (acts_advance _)
  | skip => exact acts_onSkip n
  | cancelGoal => exact .trans (.one (.fire (.abort _) trivial)) (acts_advance _)
  | gate m =>
    have received : Same n
        { n with gate := ⟨some t.steady, m.ok, m.reasonCode, m.preArmOk, m.preArmReasonCode⟩ } :=
      ⟨rfl, rfl, rfl, rfl, rfl, rfl, rfl, rfl, rfl, rfl, rfl, fun _ => id⟩
    refine Acts.after ?_ received
    exact .trans (acts_evaluateGate _) (acts_advance _)
  | rpp m => exact acts_onRpp n m
  | vehicle m => exact acts_onVehicle n m
  | px4Reply id accepted reason => exact acts_onPx4Reply n id accepted reason
  | loadDone r => exact acts_same ⟨rfl, rfl, rfl, rfl, rfl, rfl, rfl, rfl, rfl, rfl, rfl, fun _ => id⟩
  | placeDone r => exact absurd rfl (place r)
  | progressDone errors => exact absurd rfl (progress errors)
  | timer => exact acts_onTimer n
  | workTimer => exact acts_advance n
  | parameters ps =>
    unfold onParameters
    split
    · exact .rfl'
    · exact acts_same ⟨rfl, rfl, rfl, rfl, rfl, rfl, rfl, rfl, rfl, rfl, rfl, fun _ => id⟩

end

end Node

end Dyx3.Mission
