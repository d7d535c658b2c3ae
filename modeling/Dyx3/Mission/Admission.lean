import Dyx3.Mission.Acts
import Dyx3.Mission.EngageGate

/-!
The admission of a mission: a start begins a new execution with nothing of the one before, or it leaves the node
as it was. The request that began the latest execution gets that execution back for as long as it is the latest.
-/

namespace Dyx3.Mission

open Lib

namespace Node

variable {hypot : Flt → Flt → Flt} {ps : Params} {progress : List (String × MissionProgress)} {h : List Record}
  {t : Clock} {n m : Node} {sha requestId : String} {resume : Bool}

/-! ### A start that begins an execution -/

/-- The execution a start began: its identity, and no trace of another one. -/
structure Fresh (n m : Node) (sha requestId : String) (resume : Bool) : Prop where
  loading : m.fsm.state = .loading
  missionId : m.fsm.missionId = n.fsm.missionId + 1
  run : m.run = n.identity sha requestId resume
  artifact : m.artifact = none
  journal : m.journal = none
  placement : m.placement = none
  ekfResetReported : m.ekfResetReported = false
  releaseNote : m.releaseNote = ""
  rppStamp : m.rppStamp = none
  readySince : m.readySince = none
  reengageConfirmedAt : m.reengageConfirmedAt = none
  pivotTimeoutLatched : m.pivotTimeoutLatched = false
  px4 : m.px4 = n.px4.beginExecution
  progressTracking : m.progressTracking = false
  progressRun : m.progressRun = (n.restored sha resume).1
  resumePoints : m.resumePoints = (n.restored sha resume).2
  completed : m.completed = (n.restored sha resume).2
  loadJob : m.loadJob = .running sha
  jobMissionId : m.jobMissionId = m.fsm.missionId

theorem pollLoad_idle (load : n.loadJob = .none) : n.pollLoad t = n := by
  unfold pollLoad
  rw [load]

theorem pollPlace_idle (place : n.placeJob = .none) : n.pollPlace t = n := by
  unfold pollPlace
  rw [place]

theorem tickPx4_idle (flights : n.px4.flights = []) : n.tickPx4 t = n := by
  have quiet : n.px4.onTick t.steady = (n.px4, []) := by
    have empty : { n.px4 with flights := [] } = n.px4 := by rw [← flights]
    simp [Px4Sequencer.onTick, flights, empty]
  simp only [tickPx4, quiet, List.foldl_nil]

theorem enterStates_loading (loading : n.fsm.state = .loading) (behind : n.enteredChanges ≠ n.fsm.changes)
    (untracked : n.progressTracking = false) :
    n.enterStates t = { n with
      enteredChanges := n.fsm.changes
      dirty := true
      jobMissionId := n.fsm.missionId
      loadJob := .running n.run.sourceArtifactSha256 } := by
  simp [enterStates, enterAll, enter, behind, loading, noteProgress, untracked]

theorem flush_idle (queue : n.px4.queue = []) (dirty : n.dirty = true) : n.flush t = n.publishState := by
  simp [flush, queue, sendAll, dirty]

/-- With no job, no PX4 request and no record to write, LOADING's entry action is all there is to do. -/
theorem advance_loading (loading : n.fsm.state = .loading) (load : n.loadJob = .none) (place : n.placeJob = .none)
    (queue : n.px4.queue = []) (flights : n.px4.flights = []) (untracked : n.progressTracking = false)
    (behind : n.enteredChanges ≠ n.fsm.changes) :
    ∃ queue job, n.advance t = publishState { n with
      progressQueue := queue
      progressJob := job
      enteredChanges := n.fsm.changes
      dirty := true
      jobMissionId := n.fsm.missionId
      loadJob := .running n.run.sourceArtifactSha256 } := by
  obtain ⟨waiting, job, polled⟩ := pollProgress_eq n
  refine ⟨waiting, job, ?_⟩
  unfold advance
  rw [polled]
  dsimp only
  rw [pollLoad_idle (n := { n with progressQueue := waiting, progressJob := job }) load,
    pollPlace_idle (n := { n with progressQueue := waiting, progressJob := job }) place,
    tickPx4_idle (n := { n with progressQueue := waiting, progressJob := job }) flights,
    enterStates_loading (n := { n with progressQueue := waiting, progressJob := job }) loading behind untracked]
  exact flush_idle (n := { n with
      progressQueue := waiting
      progressJob := job
      enteredChanges := n.fsm.changes
      dirty := true
      jobMissionId := n.fsm.missionId
      loadJob := .running n.run.sourceArtifactSha256 }) queue rfl

theorem call_start (idle : n.fsm.active = false) (now : ℤ) :
    n.fsm.call now (.start true) =
      ({ n.fsm with missionId := n.fsm.missionId + 1 } : MissionFsm).go .loading .start reasonNone "start accepted" now := by
  simp [MissionFsm.call, MissionFsm.start, idle]

/-- The observer of an accepted start only publishes the new state. -/
theorem fire_start (idle : n.fsm.active = false) :
    n.fire t (.start true) = publishState { n with
      fsm := (n.fsm.call t.steady (.start true)).fsm
      out := n.out ++ [.logged (n.fsm.missionId + 1) (n.fsm.call t.steady (.start true)).logged] } := by
  have elsewhere : n.fsm.state ≠ .loading := by
    intro loading
    simp [MissionFsm.active, MissionFsm.terminal, loading] at idle
  unfold fire
  dsimp only
  rw [call_start idle]
  simp [MissionFsm.go, MissionFsm.record, MissionFsm.terminal, emit, elsewhere]

theorem busy_false {s : Px4Sequencer} (free : s.busy = false) : s.queue = [] ∧ s.flights = [] := by
  simp only [Px4Sequencer.busy, Bool.or_eq_false_iff, Bool.not_eq_false', List.isEmpty_iff] at free
  exact ⟨free.2, free.1⟩

theorem jobsPending_false (free : n.jobsPending = false) : n.loadJob = .none ∧ n.placeJob = .none := by
  simp only [jobsPending, Bool.or_eq_false_iff] at free
  constructor
  · cases job : n.loadJob <;> simp_all [Job.valid]
  · cases job : n.placeJob <;> simp_all [Job.valid]

/-- What the observer of the start and the reset leave of the node before. -/
theorem begun_kept (t : Clock) (sha requestId : String) (resume : Bool) (idle : n.fsm.active = false) :
    (n.begun t sha requestId resume).run = n.identity sha requestId resume ∧
      (n.begun t sha requestId resume).px4 = n.px4.beginExecution ∧
      (n.begun t sha requestId resume).loadJob = n.loadJob ∧ (n.begun t sha requestId resume).placeJob = n.placeJob ∧
      (n.begun t sha requestId resume).enteredChanges = n.enteredChanges ∧
      (n.begun t sha requestId resume).progress = n.progress := by
  unfold begun
  rw [fire_start (n := n.withRun (n.identity sha requestId resume)) idle]
  exact ⟨rfl, rfl, rfl, rfl, rfl, rfl⟩

theorem begun_fsm (t : Clock) (sha requestId : String) (resume : Bool) (idle : n.fsm.active = false) :
    (n.begun t sha requestId resume).fsm.state = .loading ∧
      (n.begun t sha requestId resume).fsm.missionId = n.fsm.missionId + 1 ∧
      (n.begun t sha requestId resume).fsm.changes = n.fsm.changes + 1 ∧
      (n.begun t sha requestId resume).fsm.reengaging = false := by
  have fired : (n.begun t sha requestId resume).fsm = (n.fsm.call t.steady (.start true)).fsm := (fire_spec _ t _).1
  rw [fired, call_start idle]
  exact ⟨rfl, rfl, rfl, rfl⟩

theorem begun_told (t : Clock) (sha requestId : String) (resume : Bool) (idle : n.fsm.active = false) :
    told (n.begun t sha requestId resume).out =
      told n.out ++ [.logged (n.fsm.missionId + 1) (n.fsm.call t.steady (.start true)).logged] := by
  unfold begun
  rw [fire_start (n := n.withRun (n.identity sha requestId resume)) idle]
  exact (same_publishState _).told.trans (told_append n.out _)

theorem Begins.fresh {o : StartOutcome} (begun : Begins t n m o sha requestId resume)
    (entered : n.enteredChanges = n.fsm.changes) : Fresh n m sha requestId resume := by
  obtain ⟨load, place⟩ := jobsPending_false begun.free
  obtain ⟨run, px4, loadJob, placeJob, entered', -⟩ := begun_kept t sha requestId resume begun.idle
  obtain ⟨loading, number, changes, -⟩ := begun_fsm t sha requestId resume begun.idle
  have behind : (n.begun t sha requestId resume).enteredChanges ≠ (n.begun t sha requestId resume).fsm.changes := by
    rw [entered', entered, changes]
    exact (Nat.succ_ne_self _).symm
  obtain ⟨queue, job, advanced⟩ := advance_loading (t := t) loading (loadJob.trans load) (placeJob.trans place)
    (by rw [px4]; rfl) (by rw [px4]; rfl) rfl behind
  have source : (n.begun t sha requestId resume).run.sourceArtifactSha256 = sha := by rw [run]; rfl
  rw [begun.node, advanced]
  exact ⟨loading, number, run, rfl, rfl, rfl, rfl, rfl, rfl, rfl, rfl, rfl, px4, rfl, rfl, rfl, rfl,
    congrArg Job.running source, rfl⟩

/-! ### A start that begins none -/

/-- Everything but the transition log and its number is as it was. -/
def OnlyLogged (n m : Node) : Prop :=
  ∃ seq log out, m = { n with fsm := { n.fsm with seq, log }, out }

theorem call_refused {f : MissionFsm} {now : ℤ} {pre : Bool} (refused : (f.call now (.start pre)).result.accepted = false) :
    ∃ seq log, (f.call now (.start pre)).fsm = { f with seq, log } := by
  simp only [MissionFsm.call, MissionFsm.start] at refused ⊢
  split
  · exact ⟨_, _, rfl⟩
  case isFalse idle =>
    rw [if_neg idle] at refused
    split
    · exact ⟨_, _, rfl⟩
    case isFalse ok =>
      rw [if_neg ok] at refused
      cases refused

theorem Untouched.onlyLogged (untouched : Untouched t n m) : OnlyLogged n m := by
  rcases untouched with rfl | ⟨pre, refused, rfl⟩
  · exact ⟨_, _, _, rfl⟩
  · obtain ⟨seq, log, fsm⟩ := call_refused refused
    exact ⟨seq, log, _, by rw [fire_refused (start_refused refused).1, fsm]⟩

/-! ### The request that began the latest execution -/

/-- The callback accepted a start as a new execution. -/
def began (x : Record) : Bool :=
  match x.out.answer with
  | .start o => begins o
  | _ => false

/-- The execution's request and number, which only an accepted start changes. -/
def Keeps (n m : Node) : Prop := m.run.requestId = n.run.requestId ∧ m.fsm.missionId = n.fsm.missionId

theorem keeps_fire {c : MissionFsm.Call} (refused : c = .start true → n.fsm.active = true) : Keeps n (n.fire t c) := by
  have number : (n.raised t c).fsm.missionId = n.fsm.missionId := by
    rcases MissionFsm.call_cases n.fsm t.steady c with stays | goes
    · exact stays.missionId
    · refine goes.missionId.trans (if_neg fun start => ?_)
      have idle := (start ▸ goes.moves).start_idle
      rw [refused start] at idle
      cases idle
  rcases fire_cases n t c with ⟨same, _⟩ | ⟨_, m, closed, same⟩
  · exact ⟨same.request, (congrArg MissionFsm.missionId same.fsm).trans number⟩
  · exact ⟨same.request.trans closed.request, (congrArg MissionFsm.missionId (same.fsm.trans closed.fsm)).trans number⟩

theorem Act.keeps_request (act : Act hypot t n m) : Keeps n m := by
  cases act with
  | same same => exact ⟨same.request, congrArg MissionFsm.missionId same.fsm⟩
  | fire c allowed => exact keeps_fire fun start => by subst start; exact allowed
  | note =>
    obtain ⟨_, _, _, _, noted⟩ := noteProgress_eq n t
    rw [noted]
    exact ⟨rfl, rfl⟩
  | poll =>
    obtain ⟨_, _, polled⟩ := pollProgress_eq n
    rw [polled]
    exact ⟨rfl, rfl⟩
  | verified a =>
    have verified : Keeps (n.loaded a) ((n.loaded a).fire t (.artifactLoaded true "artifact verified")) :=
      keeps_fire nofun
    exact verified
  | @placed r j =>
    have placed : Keeps (n.journaled r j) ((n.journaled r j).fire t (.placed true reasonNone r.placement.detail)) :=
      keeps_fire nofun
    exact placed
  | unplaced => exact ⟨rfl, rfl⟩
  | track v =>
    unfold trackPoints
    split
    · split
      · dsimp only
        rw [publishPoints_eq]
        obtain ⟨_, _, _, _, _, recorded⟩ := recordResolved_eq _ t _
        rw [recorded]
        exact ⟨rfl, rfl⟩
      · exact ⟨rfl, rfl⟩
    · exact ⟨rfl, rfl⟩
  | skip =>
    unfold skipPoint
    split
    · exact ⟨rfl, rfl⟩
    · split
      · exact ⟨rfl, rfl⟩
      · dsimp only
        obtain ⟨_, _, _, _, _, recorded⟩ := recordResolved_eq _ t _
        rw [recorded]
        exact ⟨rfl, rfl⟩

/-- Only an accepted start changes which request the execution answers to, and its number. -/
theorem handle_keeps (hypot : Flt → Flt → Flt) {e : Event} (other : ∀ o, (handle hypot n t e).2 = .start o → begins o = false) :
    Keeps n (handle hypot n t e).1 := by
  have acted (acts : Acts hypot t n (handle hypot n t e).1) : Keeps n (handle hypot n t e).1 := by
    refine acts.keeps (Keeps n) ?_ ⟨rfl, rfl⟩
    intro a b act kept
    obtain ⟨request, number⟩ := act.keeps_request
    exact ⟨request.trans kept.1, number.trans kept.2⟩
  by_cases place : ∃ r, e = .placeDone r
  · obtain ⟨r, rfl⟩ := place
    exact ⟨rfl, rfl⟩
  by_cases written : ∃ errors, e = .progressDone errors
  · obtain ⟨errors, rfl⟩ := written
    exact ⟨rfl, rfl⟩
  exact acted (handle_acts n e other (not_exists.mp place) (not_exists.mp written))

/-- The node answers to the request of the execution numbered `missionId`. -/
structure Answers (n : Node) (requestId : String) (missionId : ℕ) : Prop where
  request : n.run.requestId = requestId
  number : n.fsm.missionId = missionId
  valid : validRequestId requestId = true
  positive : missionId ≠ 0

/-- The request the latest accepted start came with, and the number it was given. -/
def Told (x : Record) (requestId : String) (missionId : ℕ) : Prop :=
  (∃ sha resume, x.event.event = .start sha requestId resume) ∧
    ∃ o, x.out.answer = .start o ∧ begins o = true ∧ o.missionId = missionId

theorem answers_step {i : Input} {missionId : ℕ} (rest : Rest n)
    (begun : Told ⟨i, (step hypot n i).2⟩ requestId missionId) : Answers (step hypot n i).1 requestId missionId := by
  obtain ⟨⟨sha, resume, event⟩, o, answer, new, number⟩ := begun
  obtain ⟨t, e⟩ := i
  cases event
  rcases beginMission_cases { n with out := [] } t sha requestId resume with ⟨refused, _⟩ | begins
  · cases answer
    rw [new] at refused
    cases refused
  · have fresh := begins.fresh rest.entered
    cases answer
    refine ⟨congrArg RunState.requestId fresh.run, ?_, begins.valid, ?_⟩
    · rw [← number, begins.outcome]
      exact fresh.missionId
    · rw [← number, begins.outcome]
      exact Nat.succ_ne_zero _

theorem answers_latest (run : Run (step hypot) (start ps progress) h n) :
    ∀ {since x requestId missionId}, Latest (began · = true) h since x → Told x requestId missionId →
      Answers n requestId missionId := by
  induction run with
  | start =>
    intro since x requestId missionId latest
    obtain ⟨older, split, _⟩ := latest
    simp at split
  | @next h n run i _ ih =>
    intro since x requestId missionId latest told
    rcases latest.cons_cases with ⟨rfl, rfl, _⟩ | ⟨since, rfl, other, latest⟩
    · exact answers_step (rest_run run) told
    · have before := ih latest told
      have kept : Keeps { n with out := [] } (handle hypot { n with out := [] } i.clock i.event).1 := by
        refine handle_keeps hypot fun o answer => ?_
        by_contra new
        refine other ?_
        rw [began, show (step hypot n i).2.answer = .start o from answer]
        simpa using new
      exact ⟨kept.1.trans before.request, kept.2.trans before.number, before.valid, before.positive⟩

theorem Answers.duplicate {missionId : ℕ} (answers : Answers n requestId missionId) (named : requestId ≠ "") :
    n.beginMission t sha requestId resume =
      (n, { accepted := true, missionId, duplicate := true, resumedRunIndex := n.run.startRunIndex }) := by
  have repeated : requestId ≠ "" ∧ n.fsm.missionId ≠ 0 ∧ requestId = n.run.requestId :=
    ⟨named, answers.number ▸ answers.positive, answers.request.symm⟩
  unfold beginMission
  dsimp only
  rw [if_neg (by simp [answers.valid]), if_pos repeated, answers.number]

/-- A start begins an execution of its own, on a node with no mission, no release and no load or placement under way, or
it leaves everything but the transition log. The named request of the latest execution gets that execution back, whatever
else it asks for. -/
theorem start_atomic (run : Run (step hypot) (start ps progress) h n) :
    (∀ t sha requestId resume,
      let o := (n.beginMission t sha requestId resume).2
      let m := (n.beginMission t sha requestId resume).1
      (o.accepted = true ∧ o.duplicate = false ∧ o.missionId = m.fsm.missionId ∧ Fresh n m sha requestId resume ∧
          n.fsm.active = false ∧ n.px4.busy = false ∧ n.jobsPending = false) ∨
        ((o.accepted = false ∨ o.duplicate = true) ∧ OnlyLogged n m)) ∧
      ∀ since x requestId missionId, Latest (began · = true) h since x → Told x requestId missionId → requestId ≠ "" →
        ∀ t sha resume,
          (n.beginMission t sha requestId resume).1 = n ∧
            (n.beginMission t sha requestId resume).2.accepted = true ∧
            (n.beginMission t sha requestId resume).2.duplicate = true ∧
            (n.beginMission t sha requestId resume).2.missionId = missionId := by
  constructor
  · intro t sha requestId resume
    dsimp only
    rcases beginMission_cases n t sha requestId resume with ⟨refused, untouched⟩ | begins
    · refine .inr ⟨?_, untouched.onlyLogged⟩
      cases accepted : (n.beginMission t sha requestId resume).2.accepted with
      | false => exact .inl rfl
      | true =>
        rw [Node.begins, accepted] at refused
        exact .inr (by simpa using refused)
    · have fresh := begins.fresh (rest_run run).entered
      refine .inl ⟨?_, ?_, ?_, fresh, begins.idle, begins.released, begins.free⟩
      · rw [begins.outcome]
      · rw [begins.outcome]
      · rw [begins.outcome]
        exact fresh.missionId.symm
  · intro since x requestId missionId latest told named t sha resume
    rw [(answers_latest run latest told).duplicate named]
    exact ⟨rfl, rfl, rfl, rfl⟩

/-- The start of the mission that is READY in `engages`, as it was answered. -/
def engagesStart : Record :=
  ⟨atMs 0 (.start someSha "r1" false),
    (step (fun north _ => north) (defaultRun (engages.take 2)).2 (atMs 0 (.start someSha "r1" false))).2⟩

theorem engages_repeated :
    ((defaultRun engages).2.beginMission ⟨20 * 10 ^ 6, ""⟩ someSha "r1" true).1 = (defaultRun engages).2 ∧
      ((defaultRun engages).2.beginMission ⟨20 * 10 ^ 6, ""⟩ someSha "r1" true).2.accepted = true ∧
      ((defaultRun engages).2.beginMission ⟨20 * 10 ^ 6, ""⟩ someSha "r1" true).2.duplicate = true ∧
      ((defaultRun engages).2.beginMission ⟨20 * 10 ^ 6, ""⟩ someSha "r1" true).2.missionId = 1 := by
  have latest : Latest (began · = true) (defaultRun engages).1 ((defaultRun engages).1.take 6) engagesStart :=
    ⟨(defaultRun engages).1.drop 7, by decide +kernel, by decide +kernel, by decide +kernel⟩
  have told : Told engagesStart "r1" 1 :=
    ⟨⟨_, _, rfl⟩, { accepted := true, missionId := 1 }, by decide +kernel, rfl, rfl⟩
  exact (start_atomic (exec_run engages .start)).2 _ _ _ _ latest told (by decide) _ _ _

/-- A mission without a request id is aborted in PLACING while its progress is still being written. -/
def unnamed : List Input :=
  [atMs 0 (.gate ⟨false, gateArming, true, 0⟩), atMs 0 (.vehicle {}), atMs 0 (.start someSha "" false),
    atMs 5 (.loadDone { ok := true, artifact := ⟨someSha, 1, "", "", []⟩ }), atMs 5 .workTimer,
    atMs 10 (.abort reasonOperator), atMs 15 (.placeDone ⟨{ ok := true }, true, ""⟩), atMs 15 .workTimer]

/-- The same start again is a new execution, and the write job does not hold it back. -/
theorem unnamed_starts_again :
    Run (step fun north _ => north) (start Params.defaults []) (defaultRun unnamed).1 (defaultRun unnamed).2 ∧
      (∃ since x, Latest (began · = true) (defaultRun unnamed).1 since x ∧ Told x "" 1) ∧
      (defaultRun unnamed).2.progressJob.valid = true ∧
      ((defaultRun unnamed).2.beginMission ⟨20 * 10 ^ 6, ""⟩ someSha "" false).2 = { accepted := true, missionId := 2 } := by
  refine ⟨exec_run unnamed .start, ⟨(defaultRun unnamed).1.take 5, ?_⟩, by decide +kernel, by decide +kernel⟩
  let x : Record := ⟨atMs 0 (.start someSha "" false),
    (step (fun north _ => north) (defaultRun (unnamed.take 2)).2 (atMs 0 (.start someSha "" false))).2⟩
  refine ⟨x, ⟨(defaultRun unnamed).1.drop 6, by decide +kernel, by decide +kernel, by decide +kernel⟩, ⟨_, _, rfl⟩,
    { accepted := true, missionId := 1 }, by decide +kernel, rfl, rfl⟩

end Node

end Dyx3.Mission
