import Dyx3.Rpp.Node
import Dyx3.Rpp.TickFrame

/-!
RPP drives only the mission it was told to drive. `View` is what can be read off the messages the node got,
the lines it logged and the setpoints it published; the node's flags agree with it in every reachable state.
-/

namespace Dyx3.RppNode

open Lib Scalar RppCore Mission

variable {R : Type} [Single R]

/-- A successful load. -/
structure Load (R : Type) where
  missionId : ℕ
  sha : String
  startRun : ℕ
  runs : List (ConditionedRun R)

structure View (R : Type) [Single R] where
  /-- The last `MissionState`. -/
  mission : Option MissionStateMsg := none
  /-- The load that stands. -/
  load : Option (Load R) := none
  /-- The start run of the message the load was made for, or of a later message that turned the mission
  RUNNING before the load's first RUNNING tick. -/
  latched : ℕ := 0
  /-- The load had a RUNNING tick. -/
  driven : Bool := false
  /-- The load's last RUNNING tick, with the command published on it. -/
  last : Option (MotionCommand R × TickOutput R) := none

namespace View

def running (v : View R) : Bool := v.mission.any fun m => m.state = .running

def hear (v : View R) : Event R → View R
  | .missionState m _ _ =>
    { v with
      mission := some m
      latched := if m.state = .running ∧ v.running = false ∧ v.driven = false then m.startRunIndex else v.latched }
  | _ => v

def note (v : View R) : Log R → View R
  | .pathLoaded missionId sha startRun runs =>
    { v with
      load := some ⟨missionId, sha, startRun, runs⟩, latched := (v.mission.map (·.startRunIndex)).getD 0, driven := false
      last := none }
  | .startsAtRun _ startRun => { v with load := v.load.map fun l => { l with startRun }, last := none }
  | .startRunIgnored _ _ _ => v
  | .rejected _ _ | .noUsableRun _ | .notStored _ | .loadFailed _ | .refused _ _ _ | .pathCleared =>
    { v with load := none, last := none }

end View

/-- The tick an answer is about. -/
def Answer.tick (a : Answer R) : Option (TickOutput R) := a.status.bind Status.out

namespace View

def see (v : View R) (a : Answer R) : View R :=
  match a.tick, a.setpoint with
  | some out, some p => { v with driven := true, last := some (p.command, out) }
  | _, _ => v

/-- A callback hears its message, logs, and publishes at its end. -/
def next (x : Entry (Event R) (Answer R)) (v : View R) : View R := (x.out.log.foldl note (v.hear x.event)).see x.out

end View

def view (h : History R) : View R := h.foldr View.next {}

/-- The core is in a run that began at `startRun` of the loaded runs. -/
structure Began (load : Load R) (core : Core R) : Prop where
  begun : ∃ (c : Core R) (h : RppCore.History R), c.runs = load.runs ∧ load.startRun < c.runs.length ∧
    RunIf RppCore.step (fun _ _ e => ∀ idx, e ≠ .startAtRun idx) (c.startAtRun load.startRun).1 h core
  runs : core.runs = load.runs

/-- No tick of this core can be silent. -/
def Spent (core : Core R) : Prop := core.pathDone = true ∨ core.params.pointHoldEnabled = true

/-- The flags a message sets. -/
def Node.told (s : Node R) : Bool × Bool × Bool × ℕ × String × ℕ :=
  (s.missionRunning, s.missionActive, s.wantsMission, s.pendingMissionId, s.pendingSha, s.pendingStartRun)

/-- The flags after `m`. -/
def toldBy : Option MissionStateMsg → Bool × Bool × Bool × ℕ × String × ℕ
  | none => (false, false, false, 0, "", 0)
  | some m =>
    (decide (m.state = .running), Node.isActive m.state, Node.isActive m.state && m.pathArtifactSha256 ≠ "", m.missionId,
      m.pathArtifactSha256, m.startRunIndex)

/-- The loaded mission is the one of the view. -/
structure Holds (v : View R) (s : Node R) (l : Load R) : Prop where
  load : v.load = some l
  missionId : l.missionId = s.missionId
  sha : l.sha = s.sha
  startRun : l.startRun = s.startRunIndex
  latched : v.latched = s.startRunIndex
  driven : v.driven = s.startRunLocked
  began : Began l s.core

/-- The command that may be repeated is the one of the load's last RUNNING tick, or it will not be used. -/
def Repeatable (v : View R) (s : Node R) : Prop :=
  s.startRunLocked = true ∧
    ((∃ out, v.last = some (s.lastRunningCmd, out) ∧ out.velocityPublished = true) ∨ Spent s.core)

structure Agrees (v : View R) (s : Node R) : Prop where
  told : s.told = toldBy v.mission
  params : s.core.params = s.params.core
  failed : s.loaded = true → s.loadFailed = false
  holds : s.loaded = true → ∃ load, Holds v s load
  repeats : s.loaded = true → s.repeatAvailable = true → Repeatable v s

/-- The loaded mission is the one the last message asks for. -/
def Current (s : Node R) : Prop := s.loaded = true → s.missionId = s.pendingMissionId ∧ s.sha = s.pendingSha

/-! ### The core -/

theorem Began.step {load : Load R} {core : Core R} (began : Began load core) (e : RppCore.Event R)
    (other : ∀ idx, e ≠ .startAtRun idx) (runs : (RppCore.step core e).1.runs = core.runs) :
    Began load (RppCore.step core e).1 := by
  obtain ⟨⟨c, h, same, inside, run⟩, here⟩ := began
  exact ⟨⟨c, _, same, inside, run.next e other⟩, runs.trans here⟩

theorem startAtRun_runs (c : Core R) (idx : ℕ) : (c.startAtRun idx).1.runs = c.runs ∧ (c.startAtRun idx).1.params = c.params := by
  rw [Core.startAtRun]
  split
  · exact ⟨rfl, rfl⟩
  · dsimp only
    split
    · exact Core.applyRun_keeps c idx (decide (0 < idx))
    · exact Core.applyRun_keeps c idx (decide (0 < idx))

theorem startAtRun_ok {c : Core R} {idx : ℕ} (ok : (c.startAtRun idx).2 = true) : idx < c.runs.length := by
  rw [Core.startAtRun] at ok
  split at ok
  · cases ok
  · omega

theorem installMission_runs (c : Core R) (runs : List (ConditionedRun R)) :
    (c.installMission runs).runs = runs ∧ (c.installMission runs).params = c.params := by
  simp only [Core.installMission]
  split
  · exact ⟨rfl, rfl⟩
  · exact ⟨(Core.applyRun_keeps _ 0 false).1, (Core.applyRun_keeps _ 0 false).2⟩

theorem Began.start {c : Core R} {load : Load R} (runs : c.runs = load.runs) (inside : load.startRun < c.runs.length) :
    Began load (c.startAtRun load.startRun).1 :=
  ⟨⟨c, [], runs, inside, .start⟩, (startAtRun_runs c _).1.trans runs⟩

/-- What a callback may do to the core without a load: no start, and a core that cannot be silent stays so. -/
structure Continues (c c' : Core R) : Prop where
  params : c'.params = c.params
  began : ∀ load, Began load c → Began load c'
  spent : Spent c → Spent c'

theorem Continues.of_step {c : Core R} (e : RppCore.Event R) (other : ∀ idx, e ≠ .startAtRun idx)
    (runs : (RppCore.step c e).1.runs = c.runs) (params : (RppCore.step c e).1.params = c.params)
    (done : c.pathDone = true → (RppCore.step c e).1.pathDone = true) : Continues c (RppCore.step c e).1 := by
  refine ⟨params, fun load began => began.step e other runs, ?_⟩
  rintro (finished | held)
  · exact .inl (done finished)
  · exact .inr (by rw [params]; exact held)

theorem continues_pose (c : Core R) (pose : NedPose R) (now : ℤ) : Continues c (c.onPose pose now) := by
  have kept : (c.onPose pose now).runs = c.runs ∧ (c.onPose pose now).params = c.params ∧
      (c.onPose pose now).pathDone = c.pathDone := by
    simp only [Core.onPose]
    repeat' split
    all_goals exact ⟨rfl, rfl, rfl⟩
  exact .of_step (.pose pose now) (fun idx same => by cases same) kept.1 kept.2.1 kept.2.2.trans

theorem continues_velocity (c : Core R) (vNorth vEast yawRate : R) (now : ℤ) :
    Continues c (c.onVelocity vNorth vEast yawRate now) := by
  have kept : (c.onVelocity vNorth vEast yawRate now).runs = c.runs ∧ (c.onVelocity vNorth vEast yawRate now).params = c.params ∧
      (c.onVelocity vNorth vEast yawRate now).pathDone = c.pathDone := by
    simp only [Core.onVelocity]
    split <;> exact ⟨rfl, rfl, rfl⟩
  exact .of_step (.velocity vNorth vEast yawRate now) (fun idx same => by cases same) kept.1 kept.2.1 kept.2.2.trans

theorem continues_gps (c : Core R) (fixType : ℤ) (hAcc : R) (now : ℤ) : Continues c (c.onGps fixType hAcc now) :=
  .of_step (.gps fixType hAcc now) nofun rfl rfl id

theorem continues_pause (c : Core R) : Continues c c.pause := .of_step .pause nofun rfl rfl id

theorem continues_tick (c : Core R) (now : ℤ) : Continues c (c.tick now) :=
  .of_step (.tick now) nofun (Core.tick_keeps c now).1 (Core.tick_keeps c now).2 (Core.tick_done c now)

/-- A new core under the same flags. -/
theorem Agrees.core {v : View R} {s : Node R} {c : Core R} (agrees : Agrees v s) (continues : Continues s.core c) :
    Agrees v { s with core := c } where
  told := agrees.told
  params := continues.params.trans agrees.params
  failed := agrees.failed
  holds := by
    intro loaded
    obtain ⟨load, holds⟩ := agrees.holds loaded
    exact ⟨load, { holds with began := continues.began load holds.began }⟩
  repeats := by
    intro loaded available
    obtain ⟨locked, fresh | spent⟩ := agrees.repeats loaded available
    · exact ⟨locked, .inl fresh⟩
    · exact ⟨locked, .inr (continues.spent spent)⟩

/-- The fields the agreement is about. -/
structure Alike (s s' : Node R) : Prop where
  told : s'.told = s.told
  params : s'.params = s.params
  core : s'.core = s.core
  loaded : s'.loaded = s.loaded
  loadFailed : s'.loadFailed = s.loadFailed
  missionId : s'.missionId = s.missionId
  sha : s'.sha = s.sha
  startRunIndex : s'.startRunIndex = s.startRunIndex
  startRunLocked : s'.startRunLocked = s.startRunLocked
  repeatAvailable : s'.repeatAvailable = s.repeatAvailable
  lastRunningCmd : s'.lastRunningCmd = s.lastRunningCmd

theorem Agrees.alike {v : View R} {s s' : Node R} (agrees : Agrees v s) (alike : Alike s s') : Agrees v s' where
  told := alike.told.trans agrees.told
  params := by rw [alike.core, alike.params]; exact agrees.params
  failed := by rw [alike.loaded, alike.loadFailed]; exact agrees.failed
  holds := by
    rw [alike.loaded]
    intro loaded
    obtain ⟨load, holds⟩ := agrees.holds loaded
    exact ⟨load, holds.load, holds.missionId.trans alike.missionId.symm, holds.sha.trans alike.sha.symm,
      holds.startRun.trans alike.startRunIndex.symm, holds.latched.trans alike.startRunIndex.symm,
      holds.driven.trans alike.startRunLocked.symm, by rw [alike.core]; exact holds.began⟩
  repeats := by
    rw [alike.loaded, alike.repeatAvailable, Repeatable, alike.startRunLocked, alike.lastRunningCmd, alike.core]
    exact agrees.repeats

/-! ### The load -/

/-- Nothing is loaded: only the message and the parameters count. -/
theorem Agrees.unloaded {v : View R} {s : Node R} (told : s.told = toldBy v.mission) (params : s.core.params = s.params.core)
    (unloaded : s.loaded = false) : Agrees v s where
  told := told
  params := params
  failed := fun loaded => by rw [unloaded] at loaded; cases loaded
  holds := fun loaded => by rw [unloaded] at loaded; cases loaded
  repeats := fun loaded => by rw [unloaded] at loaded; cases loaded

/-- What an attempt to load leaves: nothing, or the runs it was made for. -/
structure Attempted (s : Node R) (missionId : ℕ) (sha : String) (startRun : ℕ) (r : Node R × List (Log R)) : Prop where
  told : r.1.told = s.told
  params : r.1.params = s.params
  coreParams : r.1.core.params = s.core.params
  outcome : r.1.loaded = false ∨
    ∃ runs, r.2 = [.pathLoaded missionId sha startRun runs] ∧ r.1.loaded = true ∧ r.1.loadFailed = false ∧
      r.1.missionId = missionId ∧ r.1.sha = sha ∧ r.1.startRunIndex = startRun ∧ r.1.startRunLocked = false ∧
      r.1.repeatAvailable = false ∧ Began ⟨missionId, sha, startRun, runs⟩ r.1.core

theorem loadMission_attempted (s : Node R) (missionId : ℕ) (sha : String) (startRun : ℕ) (now : ℤ) (attempt : Attempt R) :
    Attempted s missionId sha startRun (s.loadMission missionId sha startRun now attempt) := by
  simp only [Node.loadMission]
  cases attempt with
  | copyThrows => exact ⟨rfl, rfl, rfl, .inl rfl⟩
  | rejected error => exact ⟨rfl, rfl, rfl, .inl rfl⟩
  | throws => exact ⟨rfl, rfl, rfl, .inl rfl⟩
  | conditioned runs storing =>
    dsimp only
    split
    · exact ⟨rfl, rfl, rfl, .inl rfl⟩
    split
    · exact ⟨rfl, rfl, rfl, .inl rfl⟩
    · rename_i inside
      cases storing with
      | fails error => exact ⟨rfl, rfl, rfl, .inl rfl⟩
      | throws => exact ⟨rfl, rfl, rfl, .inl rfl⟩
      | installThrows => exact ⟨rfl, rfl, rfl, .inl rfl⟩
      | stored =>
        obtain ⟨installed, params⟩ := installMission_runs s.core runs
        have began : Began ⟨missionId, sha, startRun, runs⟩ ((s.core.installMission runs).startAtRun startRun).1 :=
          Began.start installed (by rw [installed]; exact Nat.lt_of_not_le inside)
        have same := (startAtRun_runs (s.core.installMission runs) startRun).2.trans params
        simp only [Node.installRuns]
        generalize (s.core.installMission runs).startAtRun startRun = r at began same ⊢
        obtain ⟨core, ok⟩ := r
        cases ok with
        | false => exact ⟨rfl, rfl, same, .inl rfl⟩
        | true => exact ⟨rfl, rfl, same, .inr ⟨runs, rfl, rfl, rfl, rfl, rfl, rfl, rfl, rfl, began⟩⟩

theorem note_mission (v : View R) (log : Log R) : (v.note log).mission = v.mission := by
  cases log <;> rfl

theorem notes_mission (log : List (Log R)) (v : View R) : (log.foldl View.note v).mission = v.mission := by
  induction log generalizing v with
  | nil => rfl
  | cons line log ih => exact (ih _).trans (note_mission v line)

/-- A load made for the last message. -/
theorem Attempted.agrees {v : View R} {s : Node R} {missionId startRun : ℕ} {sha : String} {r : Node R × List (Log R)}
    (attempted : Attempted s missionId sha startRun r) (told : s.told = toldBy v.mission)
    (params : s.core.params = s.params.core) (asked : (v.mission.map (·.startRunIndex)).getD 0 = startRun) :
    Agrees (r.2.foldl View.note v) r.1 ∧ (r.1.loaded = true → r.1.missionId = missionId ∧ r.1.sha = sha) := by
  have params : r.1.core.params = r.1.params.core := by
    rw [attempted.coreParams, attempted.params, params]
  rcases attempted.outcome with unloaded | ⟨runs, log, loaded, failed, id, artifact, start, locked, used, began⟩
  · refine ⟨.unloaded ?_ params unloaded, fun loaded => absurd loaded (by rw [unloaded]; decide)⟩
    rw [notes_mission, attempted.told, told]
  · rw [log]
    refine ⟨⟨attempted.told.trans told, params, fun _ => failed, fun _ => ⟨⟨missionId, sha, startRun, runs⟩, ?_⟩, ?_⟩,
      fun _ => ⟨id, artifact⟩⟩
    · exact ⟨rfl, id.symm, artifact.symm, start.symm, asked.trans start.symm, locked.symm, began⟩
    · intro _ available
      rw [used] at available
      cases available

/-! ### A message -/

/-- A message is noted before anything is done about it. -/
theorem Agrees.heard {v : View R} {s : Node R} (agrees : Agrees v s) (m : MissionStateMsg) (now : ℤ) (attempt : Attempt R)
    (settled : s.loaded = true →
      (View.hear v (.missionState m now attempt)).latched = v.latched ∨ s.startRunIndex = m.startRunIndex) :
    Agrees (v.hear (.missionState m now attempt)) (s.noteMission m) where
  told := rfl
  params := agrees.params
  failed := agrees.failed
  holds := by
    intro loaded
    obtain ⟨load, holds⟩ := agrees.holds loaded
    refine ⟨load, { holds with latched := ?_ }⟩
    rcases settled loaded with same | start
    · exact same.trans holds.latched
    · simp only [View.hear]
      split
      · exact start.symm
      · exact holds.latched
  repeats := agrees.repeats

theorem running_eq {v : View R} {s : Node R} (agrees : Agrees v s) : s.missionRunning = v.running := by
  have told := congrArg (·.1) agrees.told
  rw [View.running]
  cases mission : v.mission with
  | none =>
    rw [mission] at told
    exact told
  | some m =>
    rw [mission] at told
    exact told

/-- The start run of a message that does not turn the mission RUNNING before the first RUNNING tick of the load. -/
theorem hear_settled {v : View R} {s : Node R} {m : MissionStateMsg} (agrees : Agrees v s) (now : ℤ) (attempt : Attempt R)
    (settled : (!s.missionRunning && decide (m.state = .running) && !s.startRunLocked) = false) :
    s.loaded = true → (View.hear v (.missionState m now attempt)).latched = v.latched := by
  intro loaded
  obtain ⟨load, holds⟩ := agrees.holds loaded
  rw [running_eq agrees, ← holds.driven] at settled
  simp only [View.hear]
  split
  · rename_i turns
    rw [decide_eq_true turns.1, turns.2.1, turns.2.2] at settled
    cases settled
  · rfl

theorem unloadMission_agrees {v : View R} {s : Node R} (agrees : Agrees v s) :
    Agrees (s.unloadMission.2.foldl View.note v) s.unloadMission.1 :=
  .unloaded agrees.told ((installMission_runs s.core []).2.trans agrees.params) rfl

/-- A message that asks the loaded mission for another start run. -/
theorem changeStartRun_agrees {v : View R} {s : Node R} {m : MissionStateMsg} (now : ℤ) (attempt : Attempt R)
    (agrees : Agrees v s) (loaded : s.loaded = true) :
    let r := (s.noteMission m).changeStartRun m.startRunIndex (!s.missionRunning && decide (m.state = .running))
    Agrees (r.2.foldl View.note (v.hear (.missionState m now attempt))) r.1 ∧ r.1.missionId = s.missionId ∧ r.1.sha = s.sha := by
  simp only [Node.changeStartRun]
  have flags : (s.noteMission m).startRunLocked = s.startRunLocked := rfl
  rw [flags]
  by_cases turns : (!s.missionRunning && decide (m.state = .running) && !s.startRunLocked) = true
  · rw [if_pos turns]
    simp only [Bool.and_eq_true, Bool.not_eq_true', decide_eq_true_eq] at turns
    obtain ⟨⟨stood, running⟩, unlocked⟩ := turns
    obtain ⟨load, holds⟩ := agrees.holds loaded
    obtain ⟨runs, params⟩ := startAtRun_runs s.core m.startRunIndex
    have begun : ((s.noteMission m).core.startAtRun m.startRunIndex) = s.core.startAtRun m.startRunIndex := rfl
    rw [begun]
    have inside : (s.core.startAtRun m.startRunIndex).2 = true → m.startRunIndex < s.core.runs.length := startAtRun_ok
    have began : m.startRunIndex < s.core.runs.length → Began { load with startRun := m.startRunIndex }
        (s.core.startAtRun m.startRunIndex).1 := fun inside =>
      have runs : s.core.runs = Load.runs { load with startRun := m.startRunIndex } := holds.began.runs
      Began.start runs inside
    generalize s.core.startAtRun m.startRunIndex = r at runs params inside began ⊢
    obtain ⟨core, ok⟩ := r
    cases ok with
    | false => exact ⟨⟨rfl, params.trans agrees.params, nofun, nofun, nofun⟩, rfl, rfl⟩
    | true =>
      rw [if_pos rfl]
      refine ⟨⟨rfl, params.trans agrees.params, agrees.failed, fun _ => ⟨{ load with startRun := m.startRunIndex }, ?_⟩, ?_⟩, rfl, rfl⟩
      · have moved : v.load.map (fun l => { l with startRun := m.startRunIndex }) = some { load with startRun := m.startRunIndex } := by
          rw [holds.load]
          rfl
        refine ⟨moved, holds.missionId, holds.sha, rfl, ?_, holds.driven, began (inside rfl)⟩
        rw [running_eq agrees] at stood
        exact if_pos ⟨running, stood, holds.driven.trans unlocked⟩
      · intro _ available
        have locked := (agrees.repeats loaded available).1
        rw [unlocked] at locked
        cases locked
  · rw [if_neg turns]
    have settled := hear_settled agrees now attempt (Bool.eq_false_iff.mpr turns)
    have heard := agrees.heard m now attempt fun loaded => .inl (settled loaded)
    split
    · exact ⟨heard.alike ⟨rfl, rfl, rfl, rfl, rfl, rfl, rfl, rfl, rfl, rfl, rfl⟩, rfl, rfl⟩
    · exact ⟨heard, rfl, rfl⟩

/-- What a message does before the pause. -/
theorem message_agrees {v : View R} {s : Node R} (agrees : Agrees v s) (m : MissionStateMsg) (now : ℤ) (attempt : Attempt R) :
    let n := s.noteMission m
    let r :=
      if !(n.loaded || n.loadFailed) || n.missionId ≠ m.missionId || n.sha ≠ m.pathArtifactSha256 then
        n.loadMission m.missionId m.pathArtifactSha256 m.startRunIndex now attempt
      else if n.loaded && m.startRunIndex ≠ n.startRunIndex then
        n.changeStartRun m.startRunIndex (!s.missionRunning && n.missionRunning)
      else (n, [])
    Agrees (r.2.foldl View.note (v.hear (.missionState m now attempt))) r.1 ∧
      (r.1.loaded = true → r.1.missionId = m.missionId ∧ r.1.sha = m.pathArtifactSha256) := by
  intro n
  dsimp only
  split
  · exact (loadMission_attempted n m.missionId m.pathArtifactSha256 m.startRunIndex now attempt).agrees rfl agrees.params rfl
  · rename_i same
    simp only [ne_eq, Bool.or_eq_true, decide_eq_true_eq, not_or, not_not] at same
    obtain ⟨⟨_, id⟩, artifact⟩ := same
    split
    · rename_i other
      obtain ⟨changed, sameId, sameSha⟩ := changeStartRun_agrees now attempt agrees (Bool.and_eq_true_iff.mp other).1
      exact ⟨changed, fun _ => ⟨sameId.trans id, sameSha.trans artifact⟩⟩
    · rename_i kept
      simp only [ne_eq, Bool.and_eq_true, decide_eq_true_eq, not_and, not_not] at kept
      exact ⟨agrees.heard m now attempt fun loaded => .inr (kept loaded).symm, fun _ => ⟨id, artifact⟩⟩

/-- After a message the loaded mission is the one it asks for. -/
theorem onMissionState_agrees {v : View R} {s : Node R} (agrees : Agrees v s) (m : MissionStateMsg) (now : ℤ)
    (attempt : Attempt R) :
    let r := s.onMissionState m now attempt
    Agrees (r.2.foldl View.note (v.hear (.missionState m now attempt))) r.1 ∧ Current r.1 := by
  obtain ⟨same, requested⟩ := message_agrees agrees m now attempt
  simp only [Node.onMissionState]
  split
  · split
    · exact ⟨.unloaded rfl ((installMission_runs s.core []).2.trans agrees.params) rfl, nofun⟩
    · rename_i neither
      have unloaded : s.loaded = false := by
        simp only [Bool.or_eq_true, not_or, Bool.not_eq_true] at neither
        exact neither.1
      refine ⟨.unloaded rfl agrees.params unloaded, fun loaded => absurd loaded ?_⟩
      rw [show (s.noteMission m).loaded = s.loaded from rfl, unloaded]
      decide
  · generalize (if (!((s.noteMission m).loaded || (s.noteMission m).loadFailed) ||
        decide ((s.noteMission m).missionId ≠ m.missionId) || decide ((s.noteMission m).sha ≠ m.pathArtifactSha256)) = true then
        (s.noteMission m).loadMission m.missionId m.pathArtifactSha256 m.startRunIndex now attempt
      else if ((s.noteMission m).loaded && decide (m.startRunIndex ≠ (s.noteMission m).startRunIndex)) = true then
        (s.noteMission m).changeStartRun m.startRunIndex (!s.missionRunning && (s.noteMission m).missionRunning)
      else (s.noteMission m, [])) = r at same requested ⊢
    obtain ⟨n, log⟩ := r
    dsimp only at same requested ⊢
    have told := same.told
    rw [notes_mission] at told
    have current : Current n := by
      intro loaded
      obtain ⟨id, artifact⟩ := requested loaded
      exact ⟨id.trans (congrArg (·.2.2.2.1) told).symm, artifact.trans (congrArg (·.2.2.2.2.1) told).symm⟩
    split
    · exact ⟨same.core (continues_pause n.core), current⟩
    · exact ⟨same, current⟩

/-! ### A tick -/

/-- Where the command of a RUNNING tick comes from. -/
def Sourced (v : View R) (s s' : Node R) (command : MotionCommand R) : Prop :=
  command = s'.tickCommand ∨ s'.core.out.velocityPublished = false ∧ s.repeatAvailable = true ∧
    ∃ before, v.last = some (command, before) ∧ before.velocityPublished = true

/-- A core that cannot be silent is not silent. -/
theorem Spent.tick {core : Core R} {now : ℤ} (spent : Spent core) (unfinished : ¬ (core.tick now).pathDone = true) :
    (core.tick now).out.velocityPublished = true := by
  rcases spent with finished | held
  · exact absurd (Core.tick_done core now finished) unfinished
  · exact (Core.tick_held core now held).2.2

/-- A hand-off comes only from the point hold. -/
theorem spent_of_handoff {core : Core R} {now : ℤ} (handed : (core.tick now).out.handoff ≠ .none) : Spent (core.tick now) := by
  right
  rw [(Core.tick_keeps core now).2]
  by_contra enabled
  exact handed (Core.tick_open core now (Bool.eq_false_iff.mpr enabled)).2.2

/-- The memory of a RUNNING tick: the node after it, before it publishes. -/
structure Remembers (v : View R) (s n : Node R) (command : MotionCommand R) : Prop where
  alike : n.told = s.told ∧ n.params = s.params ∧ n.loaded = s.loaded ∧ n.loadFailed = s.loadFailed ∧ n.missionId = s.missionId ∧
    n.sha = s.sha ∧ n.startRunIndex = s.startRunIndex
  locked : n.startRunLocked = true
  repeats : n.repeatAvailable = true →
    (n.lastRunningCmd = command ∧ n.core.out.velocityPublished = true) ∨ Spent n.core
  sourced : command.mode ≠ .stop → Sourced v s n command

theorem runningTick_remembers {v : View R} {s : Node R} (agrees : Agrees v s) (loaded : s.loaded = true) (now : ℤ)
    (log : List (Log R)) :
    ∃ n command state, s.runningTick now log = n.publish command state (some n.core.out) log ∧ n.core = s.core.tick now ∧
      Remembers v s n command := by
  simp only [Node.runningTick, Node.chooseCommand]
  split
  · rename_i handed
    refine ⟨{ s with startRunLocked := true, core := s.core.tick now }, makeStop, .error, ?_, rfl, ?_⟩
    · rw [if_neg]
      simp [Node.repeatable, handed]
    · exact ⟨⟨rfl, rfl, rfl, rfl, rfl, rfl, rfl⟩, rfl, fun _ => .inr (spent_of_handoff handed), fun moves => absurd rfl moves⟩
  · rename_i handed
    split
    · rename_i done
      refine ⟨{ s with startRunLocked := true, core := s.core.tick now },
        Node.tickCommand { s with startRunLocked := true, core := s.core.tick now }, .complete, ?_, rfl, ?_⟩
      · rw [if_neg]
        simp [Node.repeatable, done]
      · exact ⟨⟨rfl, rfl, rfl, rfl, rfl, rfl, rfl⟩, rfl, fun _ => .inr (.inl done), fun _ => .inl rfl⟩
    · rename_i unfinished
      split
      · rename_i silent
        have quiet : (s.core.tick now).out.velocityPublished = false := by simpa using silent
        refine ⟨{ s with startRunLocked := true, core := s.core.tick now, repeatAvailable := false },
          (if s.repeatAvailable = true then (s.lastRunningCmd, s.lastRunningState) else (makeStop, .stopping)).1,
          (if s.repeatAvailable = true then (s.lastRunningCmd, s.lastRunningState) else (makeStop, .stopping)).2, ?_, rfl, ?_⟩
        · rw [if_neg]
          simp [Node.repeatable, quiet]
        · refine ⟨⟨rfl, rfl, rfl, rfl, rfl, rfl, rfl⟩, rfl, nofun, ?_⟩
          cases available : s.repeatAvailable with
          | false => exact fun moves => absurd rfl moves
          | true =>
            intro _
            obtain ⟨_, ⟨out, last, published⟩ | spent⟩ := agrees.repeats loaded available
            · exact .inr ⟨quiet, available, out, last, published⟩
            · have loud := spent.tick unfinished
              rw [quiet] at loud
              cases loud
      · rename_i published
        have loud : (s.core.tick now).out.velocityPublished = true := by simpa using published
        refine ⟨{ s with
            startRunLocked := true, core := s.core.tick now, repeatAvailable := true
            lastRunningCmd := Node.tickCommand { s with startRunLocked := true, core := s.core.tick now }
            lastRunningState := Node.drivenState (s.core.tick now).out },
          Node.tickCommand { s with startRunLocked := true, core := s.core.tick now }, Node.drivenState (s.core.tick now).out,
          ?_, rfl, ?_⟩
        · rw [if_pos]
          have none : (s.core.tick now).out.handoff = .none := not_not.mp handed
          simp [Node.repeatable, loud, none, unfinished]
        · exact ⟨⟨rfl, rfl, rfl, rfl, rfl, rfl, rfl⟩, rfl, fun _ => .inl ⟨rfl, loud⟩, fun _ => .inl rfl⟩

/-- A RUNNING tick of a load. -/
theorem Remembers.agrees {v : View R} {s n : Node R} {command : MotionCommand R} {now : ℤ}
    (remembers : Remembers v s n command) (state : RppState) (log : List (Log R)) (agrees : Agrees v s) (loaded : s.loaded = true) (ticked : n.core = s.core.tick now) :
    let r := n.publish command state (some n.core.out) log
    Agrees (v.see r.2) r.1 := by
  obtain ⟨told, params, same, failed, id, artifact, start⟩ := remembers.alike
  have continues := continues_tick s.core now
  rw [← ticked] at continues
  obtain ⟨load, holds⟩ := agrees.holds loaded
  refine ⟨told.trans agrees.told, ?_, fun _ => failed.trans (agrees.failed loaded), fun _ => ⟨load, ?_⟩, ?_⟩
  · exact continues.params.trans (agrees.params.trans (congrArg ParamSet.core params.symm))
  · exact ⟨holds.load, holds.missionId.trans id.symm, holds.sha.trans artifact.symm, holds.startRun.trans start.symm,
      holds.latched.trans start.symm, remembers.locked.symm, continues.began load holds.began⟩
  · intro _ available
    refine ⟨remembers.locked, ?_⟩
    rcases remembers.repeats available with ⟨cmd, published⟩ | spent
    · exact .inl ⟨n.core.out, congrArg (fun c => some (c, n.core.out)) cmd.symm, published⟩
    · exact .inr spent

/-- What a published setpoint that moves says: `v` and `v'` are the view before and after the callback. -/
structure Drives (v v' : View R) (s' : Node R) (answer : Answer R) (command : MotionCommand R) (m : MissionStateMsg) (l : Load R) :
    Prop where
  mission : v'.mission = some m
  running : m.state = .running
  artifact : m.pathArtifactSha256 ≠ ""
  load : v'.load = some l
  missionId : l.missionId = m.missionId
  sha : l.sha = m.pathArtifactSha256
  startRun : l.startRun = v'.latched
  runs : s'.core.runs = l.runs
  began : Began l s'.core
  tick : answer.tick = some s'.core.out
  source : command = s'.tickCommand ∨ s'.core.out.velocityPublished = false ∧ answer.log = [] ∧
    ∃ before, v.last = some (command, before) ∧ before.velocityPublished = true

theorem Agrees.forget {v : View R} {s : Node R} (agrees : Agrees v s) : Agrees v { s with repeatAvailable := false } where
  told := agrees.told
  params := agrees.params
  failed := agrees.failed
  holds := fun loaded => by
    obtain ⟨load, holds⟩ := agrees.holds loaded
    exact ⟨load, { holds with }⟩
  repeats := nofun

theorem asked_eq {v : View R} {s : Node R} (agrees : Agrees v s) :
    (v.mission.map (·.startRunIndex)).getD 0 = s.pendingStartRun := by
  have told := congrArg (·.2.2.2.2.2) agrees.told
  cases mission : v.mission with
  | none =>
    rw [mission] at told
    exact told.symm
  | some m =>
    rw [mission] at told
    exact told.symm

/-- A retry loads what the last message asks for; a load leaves nothing to repeat. -/
theorem retryLoad_agrees {v : View R} {s : Node R} (agrees : Agrees v s) (current : Current s) (now : ℤ) (attempt : Attempt R) :
    let r := s.retryLoad now attempt
    Agrees (r.2.foldl View.note v) r.1 ∧ Current r.1 ∧
      (r.1.loaded = true → r.1.repeatAvailable = true → r.2 = []) := by
  simp only [Node.retryLoad]
  split
  · have attempted :=
      loadMission_attempted s s.pendingMissionId s.pendingSha s.pendingStartRun now attempt
    obtain ⟨after, requested⟩ := attempted.agrees agrees.told agrees.params (asked_eq agrees)
    refine ⟨after, fun loaded => ?_, fun loaded available => ?_⟩
    · obtain ⟨id, artifact⟩ := requested loaded
      exact ⟨id.trans (congrArg (·.2.2.2.1) attempted.told).symm, artifact.trans (congrArg (·.2.2.2.2.1) attempted.told).symm⟩
    · rcases attempted.outcome with unloaded | ⟨runs, _, _, _, _, _, _, _, used, _⟩
      · rw [unloaded] at loaded
        cases loaded
      · rw [used] at available
        cases available
  · exact ⟨agrees, current, fun _ _ => rfl⟩

/-- A STOP. -/
theorem publish_stop (v₀ : View R) {v : View R} {s : Node R} (agrees : Agrees v s) (current : Current s) (state : RppState) (log : List (Log R)) :
    let r := s.publish makeStop state none log
    Agrees (v.see r.2) r.1 ∧ Current r.1 ∧ ∀ p, r.2.setpoint = some p → p.command.mode ≠ .stop →
      ∃ m l, Drives v₀ (v.see r.2) r.1 r.2 p.command m l := by
  refine ⟨agrees.alike ⟨rfl, rfl, rfl, rfl, rfl, rfl, rfl, rfl, rfl, rfl, rfl⟩, current, ?_⟩
  rintro p ⟨⟩ moves
  exact absurd rfl moves

/-- A RUNNING tick. -/
theorem runningTick_agrees (v₀ : View R) {v : View R} {s : Node R} (log : List (Log R)) (agrees : Agrees v s) (current : Current s)
    (wants : s.wantsMission = true) (loaded : s.loaded = true) (running : s.missionRunning = true)
    (unlogged : s.repeatAvailable = true → log = [] ∧ v = v₀) (now : ℤ) :
    let r := s.runningTick now log
    r.2.log = log ∧ Agrees (v.see r.2) r.1 ∧ Current r.1 ∧ ∀ p, r.2.setpoint = some p → p.command.mode ≠ .stop →
      ∃ m l, Drives v₀ (v.see r.2) r.1 r.2 p.command m l := by
  obtain ⟨n, command, state, same, ticked, remembers⟩ := runningTick_remembers agrees loaded now log
  have after := remembers.agrees state log agrees loaded ticked
  intro r
  have made : r = n.publish command state (some n.core.out) log := same
  rw [made]
  have told := remembers.alike.1
  refine ⟨rfl, after, fun _ => ?_, ?_⟩
  · obtain ⟨id, artifact⟩ := current loaded
    exact ⟨(remembers.alike.2.2.2.2.1.trans id).trans (congrArg (·.2.2.2.1) told).symm,
      (remembers.alike.2.2.2.2.2.1.trans artifact).trans (congrArg (·.2.2.2.2.1) told).symm⟩
  · rintro p ⟨⟩ moves
    have toldBy := agrees.told
    cases mission : v.mission with
    | none =>
      rw [mission] at toldBy
      have stood := congrArg (·.1) toldBy
      rw [show s.told.1 = s.missionRunning from rfl, running] at stood
      cases stood
    | some m =>
      rw [mission] at toldBy
      have runs : decide (m.state = .running) = true := (congrArg (·.1) toldBy).symm.trans running
      have asks : (Node.isActive m.state && decide (m.pathArtifactSha256 ≠ "")) = true :=
        (congrArg (·.2.2.1) toldBy).symm.trans wants
      obtain ⟨load, holds⟩ := after.holds (remembers.alike.2.2.1.trans loaded)
      obtain ⟨id, artifact⟩ := current loaded
      refine ⟨m, load, mission, of_decide_eq_true runs, of_decide_eq_true (Bool.and_eq_true_iff.mp asks).2, holds.load, ?_, ?_,
        holds.startRun.trans holds.latched.symm, holds.began.runs, holds.began, rfl, ?_⟩
      · calc load.missionId = n.missionId := holds.missionId
          _ = s.missionId := remembers.alike.2.2.2.2.1
          _ = s.pendingMissionId := id
          _ = m.missionId := congrArg (·.2.2.2.1) toldBy
      · calc load.sha = n.sha := holds.sha
          _ = s.sha := remembers.alike.2.2.2.2.2.1
          _ = s.pendingSha := artifact
          _ = m.pathArtifactSha256 := congrArg (·.2.2.2.2.1) toldBy
      · rcases remembers.sourced moves with tick | ⟨silent, available, before, last, published⟩
        · exact .inl tick
        · obtain ⟨empty, unchanged⟩ := unlogged available
          exact .inr ⟨silent, empty, before, unchanged ▸ last, published⟩

theorem step_agrees {v : View R} {s : Node R} (agrees : Agrees v s) (current : Current s) (now : ℤ) (attempt : Attempt R) :
    let r := s.step now attempt
    let v' := (r.2.log.foldl View.note v).see r.2
    Agrees v' r.1 ∧ Current r.1 ∧ ∀ p, r.2.setpoint = some p → p.command.mode ≠ .stop →
      ∃ m l, Drives v v' r.1 r.2 p.command m l := by
  simp only [Node.step]
  split
  · exact ⟨agrees, current, nofun⟩
  · obtain ⟨after, still, unlogged⟩ := retryLoad_agrees agrees current now attempt
    generalize s.retryLoad now attempt = r at after still unlogged ⊢
    obtain ⟨n, log⟩ := r
    dsimp only at after still unlogged ⊢
    have kept : let n' := if (n.wantsMission && n.loaded && n.missionRunning) = true then n else { n with repeatAvailable := false }
        Agrees (log.foldl View.note v) n' ∧ Current n' ∧
          (n'.loaded = true → n'.repeatAvailable = true → log = []) := by
      dsimp only
      split
      · exact ⟨after, still, unlogged⟩
      · exact ⟨after.forget, still, fun _ available => Bool.noConfusion available⟩
    generalize (if (n.wantsMission && n.loaded && n.missionRunning) = true then n else { n with repeatAvailable := false }) = n' at kept ⊢
    obtain ⟨after, still, unlogged⟩ := kept
    split
    · exact publish_stop v after still .idle log
    split
    · exact publish_stop v after still .error log
    split
    · exact publish_stop v after still .loaded log
    · rename_i asked failed running
      simp only [Bool.or_eq_true, Bool.not_eq_true', not_or, Bool.not_eq_false] at asked running failed
      have loaded : n'.loaded = true := asked.2.resolve_right failed
      have silent : n'.repeatAvailable = true → log = [] ∧ log.foldl View.note v = v := by
        intro available
        have empty := unlogged loaded available
        exact ⟨empty, by rw [empty]; rfl⟩
      obtain ⟨logged, ticked⟩ := runningTick_agrees v log after still asked.1 loaded running silent now
      rw [logged]
      exact ticked

/-! ### Every callback -/

/-- What is shown of every reachable state. -/
structure Inv (v : View R) (s : Node R) : Prop where
  agrees : Agrees v s
  current : Current s

/-- The callback keeps the invariant, and a setpoint that moves drives the mission it was told to drive. -/
def Kept (v : View R) (e : Event R) (r : Node R × Answer R) : Prop :=
  let v' := View.next ⟨e, r.2⟩ v
  Inv v' r.1 ∧ ∀ p, r.2.setpoint = some p → p.command.mode ≠ .stop → ∃ m l, Drives v v' r.1 r.2 p.command m l

theorem feed_agrees {v : View R} {s : Node R} (inv : Inv v s) (m : VehicleState R) (now : ℤ) : Inv v (s.feed m now) := by
  have posed : Inv v
      (if (m.positionValid && m.attitudeValid && isfinite m.north && isfinite m.east && isfinite m.heading) = true then
        { s with core := s.core.onPose ⟨m.north, m.east, m.heading⟩ now, poseSampleStamp := m.px4SampleStamp }
      else s) := by
    split
    · exact ⟨(inv.agrees.core (continues_pose s.core ⟨m.north, m.east, m.heading⟩ now)).alike
        ⟨rfl, rfl, rfl, rfl, rfl, rfl, rfl, rfl, rfl, rfl, rfl⟩, inv.current⟩
    · exact inv
  simp only [Node.feed]
  generalize (if (m.positionValid && m.attitudeValid && isfinite m.north && isfinite m.east && isfinite m.heading) = true then
      { s with core := s.core.onPose ⟨m.north, m.east, m.heading⟩ now, poseSampleStamp := m.px4SampleStamp }
    else s) = n at posed ⊢
  split
  · exact ⟨posed.agrees.core (continues_velocity n.core _ _ _ now), posed.current⟩
  · exact posed

/-- A tick, with the time of the tick noted. -/
theorem step_kept {v : View R} {s n : Node R} {e : Event R} {now : ℤ} {attempt : Attempt R} (inv : Inv v s)
    (other : v.hear e = v) (alike : Alike (s.step now attempt).1 n)
    (pending : n.pendingMissionId = (s.step now attempt).1.pendingMissionId ∧ n.pendingSha = (s.step now attempt).1.pendingSha) :
    Kept v e (n, (s.step now attempt).2) := by
  obtain ⟨agrees, current, drives⟩ := step_agrees inv.agrees inv.current now attempt
  generalize s.step now attempt = r at alike pending agrees current drives ⊢
  simp only [Kept, View.next, other]
  refine ⟨⟨agrees.alike alike, fun loaded => ?_⟩, ?_⟩
  · obtain ⟨id, artifact⟩ := current (alike.loaded ▸ loaded)
    exact ⟨(alike.missionId.trans id).trans pending.1.symm, (alike.sha.trans artifact).trans pending.2.symm⟩
  · intro p published moves
    obtain ⟨m, l, d⟩ := drives p published moves
    have same : n.tickCommand = r.1.tickCommand := by rw [Node.tickCommand, Node.tickCommand, alike.core, alike.params]
    refine ⟨m, l, { d with runs := ?_, began := ?_, tick := ?_, source := ?_ }⟩
    · rw [alike.core]
      exact d.runs
    · rw [alike.core]
      exact d.began
    · rw [alike.core]
      exact d.tick
    · rw [alike.core, same]
      exact d.source

/-- A callback that publishes nothing and loads nothing. -/
theorem Kept.quiet {v : View R} {s : Node R} {e : Event R} {answer : Answer R} (inv : Inv (v.hear e) s) (log : answer.log = [])
    (tick : answer.status = none) (setpoint : answer.setpoint = none) : Kept v e (s, answer) := by
  have unseen : View.next ⟨e, answer⟩ v = v.hear e := by
    simp only [View.next, View.see, Answer.tick, log, tick, List.foldl_nil, Option.bind_none]
  simp only [Kept, unseen, setpoint]
  exact ⟨inv, nofun⟩

/-- While a mission is loaded the point hold is not switched. -/
theorem setMany_held {params params' : ParamSet R} {items : List (Item R)}
    (set : ParamSet.setMany kTable true params items = .ok params') :
    params'.core.pointHoldEnabled = params.core.pointHoldEnabled := by
  have same : params'.num .pointHoldEnabled = params.num .pointHoldEnabled :=
    ParamSet.setMany_idle (d := .bool "point_hold_enabled" .idleOnly false) rfl rfl set
  simp only [ParamSet.core, ParamSet.flag, same]

theorem onSetParameters_kept {v : View R} {s : Node R} (inv : Inv v s) (items : List (Item R)) :
    Kept v (.setParameters items) (s.onSetParameters items) := by
  simp only [Node.onSetParameters]
  split
  · exact .quiet inv rfl rfl rfl
  split
  · exact .quiet inv rfl rfl rfl
  · rename_i params set
    refine .quiet ⟨⟨inv.agrees.told, rfl, inv.agrees.failed, ?_, ?_⟩, inv.current⟩ rfl rfl rfl
    · intro loaded
      obtain ⟨load, holds⟩ := inv.agrees.holds loaded
      exact ⟨load, { holds with began := holds.began.step (.configure params.core) nofun rfl }⟩
    · intro loaded available
      obtain ⟨locked, fresh | finished | held⟩ := inv.agrees.repeats loaded available
      · exact ⟨locked, .inl fresh⟩
      · exact ⟨locked, .inr (.inl finished)⟩
      · have loaded' : s.loaded = true := loaded
        rw [loaded', Bool.or_true, Bool.true_or] at set
        refine ⟨locked, .inr (.inr ?_)⟩
        rw [inv.agrees.params] at held
        exact (setMany_held set).trans held

/-- One callback. -/
theorem handle_kept {v : View R} {s : Node R} (inv : Inv v s) (e : Event R) : Kept v e (s.handle e) := by
  cases e with
  | missionState m now attempt =>
    obtain ⟨agrees, current⟩ := onMissionState_agrees inv.agrees m now attempt
    simp only [Node.handle]
    generalize s.onMissionState m now attempt = r at agrees current ⊢
    exact ⟨⟨agrees, current⟩, nofun⟩
  | vehicleState m now attempt =>
    have fed := feed_agrees inv m now
    simp only [Node.handle, Node.onVehicleState]
    split
    · have noted : Inv v { s.feed m now with tickedSample := some m.px4SampleStamp } :=
        ⟨fed.agrees.alike ⟨rfl, rfl, rfl, rfl, rfl, rfl, rfl, rfl, rfl, rfl, rfl⟩, fed.current⟩
      exact step_kept noted rfl ⟨rfl, rfl, rfl, rfl, rfl, rfl, rfl, rfl, rfl, rfl, rfl⟩ ⟨rfl, rfl⟩
    · exact .quiet fed rfl rfl rfl
  | rtkStatus fixType accuracy now =>
    exact .quiet ⟨inv.agrees.core (continues_gps s.core _ _ now), inv.current⟩ rfl rfl rfl
  | setParameters items => exact onSetParameters_kept inv items
  | watchdog now attempt =>
    simp only [Node.handle, Node.onWatchdog]
    generalize (if s.lastTickWasSample = true then _ else _ : ℤ) = need
    split
    · exact .quiet inv rfl rfl rfl
    · exact step_kept inv rfl ⟨rfl, rfl, rfl, rfl, rfl, rfl, rfl, rfl, rfl, rfl, rfl⟩ ⟨rfl, rfl⟩
  | shutdown =>
    refine ⟨⟨inv.agrees.alike ⟨rfl, rfl, rfl, rfl, rfl, rfl, rfl, rfl, rfl, rfl, rfl⟩, inv.current⟩, ?_⟩
    rintro p ⟨⟩ moves
    exact absurd rfl moves

theorem initial_inv (params : ParamSet R) (tickHz : R) (eventDriven : Bool) : Inv {} (Node.initial params tickHz eventDriven) :=
  ⟨⟨rfl, rfl, nofun, nofun, nofun⟩, nofun⟩

theorem reached_inv {params : ParamSet R} {tickHz : R} {eventDriven : Bool} {h : History R} {s : Node R}
    (run : Run Node.handle (.initial params tickHz eventDriven) h s) : Inv (view h) s := by
  refine run.invariant (fun h s => Inv (view h) s) (initial_inv params tickHz eventDriven) ?_
  intro h s e inv _
  exact (handle_kept inv e).1

/-- Every setpoint that is not STOP drives the mission of the last message: it is RUNNING and names an artifact, the
core runs the runs of the load that was made for it, begun at the latched start run, and the command is the core's
output of this tick or the command of the load's last RUNNING tick, repeated once on a tick without output. -/
theorem drives_told_mission (params : ParamSet R) (tickHz : R) (eventDriven : Bool) {h : History R} {s : Node R}
    (run : Run Node.handle (.initial params tickHz eventDriven) h s) (e : Event R) {p : MotionSetpoint R}
    (published : (s.handle e).2.setpoint = some p) (moves : p.command.mode ≠ .stop) :
    ∃ m l, Drives (view h) (view (⟨e, (s.handle e).2⟩ :: h)) (s.handle e).1 (s.handle e).2 p.command m l :=
  (handle_kept (reached_inv run) e).2 p published moves

section Example

def message (state : State) (startRun : ℕ) : MissionStateMsg :=
  { state, missionId := 7, runIndex := 0, pointIndex := 0, reasonCode := 0, pathArtifactSha256 := "a"
    sourceArtifactSha256 := "a", requestId := "", reasonDetail := "", gateReasonCode := 0, waitingOn := 0
    startRunIndex := startRun }

/-- An RTK fix and a standing pose. -/
def sample (ms : ℤ) : List (Event Flt) :=
  let now := ms * 1000000
  [.rtkStatus 6 (.fin 0.01) now,
    .vehicleState
      { positionValid := true, attitudeValid := true, velocityValid := true, north := .fin 0.97, east := .fin 0
        heading := .fin 0, velocityNorth := .fin 0, velocityEast := .fin 0, yawRate := .fin 0, px4SampleStamp := {} }
      now .throws]

def node : Node Flt := .initial (.defaults kTable) (.fin 50) false

/-- A mission of two runs is loaded and RUNNING from run 0 on, and has waited for RTK for a second. -/
def startUp : List (Event Flt) :=
  [.missionState (message .ready 0) 0 (.conditioned [ell, ell] .stored), .missionState (message .running 0) 0 .throws] ++
    sample 0 ++ [.watchdog 0 .throws] ++ sample 1000

def lastTick : Event Flt := .watchdog 1000000000 .throws

/-- The setpoint of the last tick after `events`. -/
noncomputable def lastSetpoint (events : List (Event Flt)) : Option (MotionSetpoint Flt) :=
  ((exec Node.handle [] node events).2.handle lastTick).2.setpoint

theorem drives_told_startUp : ∃ p, lastSetpoint startUp = some p ∧ p.command.mode ≠ .stop ∧ ∃ m l,
    Drives (view (exec Node.handle [] node startUp).1)
      (view (⟨lastTick, ((exec Node.handle [] node startUp).2.handle lastTick).2⟩ :: (exec Node.handle [] node startUp).1))
      ((exec Node.handle [] node startUp).2.handle lastTick).1 ((exec Node.handle [] node startUp).2.handle lastTick).2
      p.command m l := by
  have moves : (lastSetpoint startUp).any (fun p => p.command.mode ≠ .stop) = true := by decide +kernel
  obtain ⟨p, published, driven⟩ := (Option.any_eq_true _ _).mp moves
  have run : Run Node.handle node _ _ := exec_run startUp .start
  refine ⟨p, published, of_decide_eq_true driven, ?_⟩
  exact drives_told_mission (.defaults kTable) (.fin 50) false run lastTick published (of_decide_eq_true driven)

/-- The message that asks for run 1 while run 0 is being driven. -/
def restarted : List (Event Flt) := startUp ++ [.missionState (message .running 1) 1000000000 .throws]

/-- A start run that comes with a message while the mission is being driven is ignored: the rover drives on, in a load
that started at run 0, while the last message says run 1. -/
theorem drives_another_start :
    ∃ (h : History Flt) (s : Node Flt) (e : Event Flt) (p : MotionSetpoint Flt), Run Node.handle node h s ∧
      (s.handle e).2.setpoint = some p ∧ p.command.mode ≠ .stop ∧
      ¬ ∃ m l, Drives (view h) (view (⟨e, (s.handle e).2⟩ :: h)) (s.handle e).1 (s.handle e).2 p.command m l ∧
        l.startRun = m.startRunIndex := by
  have moves : (lastSetpoint restarted).any (fun p => p.command.mode ≠ .stop) = true := by decide +kernel
  obtain ⟨p, published, driven⟩ := (Option.any_eq_true _ _).mp moves
  refine ⟨_, _, lastTick, p, exec_run restarted .start, published, of_decide_eq_true driven, ?_⟩
  rintro ⟨m, l, drives, same⟩
  have asked : (view (⟨lastTick, ((exec Node.handle [] node restarted).2.handle lastTick).2⟩ ::
      (exec Node.handle [] node restarted).1)).mission.map (·.startRunIndex) = some 1 := by decide +kernel
  have loaded : (view (⟨lastTick, ((exec Node.handle [] node restarted).2.handle lastTick).2⟩ ::
      (exec Node.handle [] node restarted).1)).load.map (·.startRun) = some 0 := by decide +kernel
  rw [drives.mission, Option.map_some] at asked
  rw [drives.load, Option.map_some, same] at loaded
  rw [loaded] at asked
  cases asked

end Example

end Dyx3.RppNode
