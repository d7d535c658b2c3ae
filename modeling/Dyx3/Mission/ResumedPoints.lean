import Mathlib.Data.List.TakeWhile
import Dyx3.Lib.Framing
import Dyx3.Mission.Admission
import Dyx3.Mission.FsmInvariants

/-!
The results of the must-hit points over executions that resume one another. A point that is resolved while the
path is driven goes into the record the next execution starts from, so it is not reported again; an execution whose
path was placed reports every other point once by the time it has ended.
-/

namespace Dyx3.Mission

open Lib

namespace Node

def result? : Output → Option PointEvent
  | .point r => some r.event
  | _ => none

/-- The point results among the outputs, oldest first. -/
def results (out : List Output) : List PointEvent := out.filterMap result?

/-- The transition into a terminal state. -/
def ends : Output → Bool
  | .logged _ t => !t.refused && t.src ≠ t.dst && (t.dst = .completed || t.dst = .aborted || t.dst = .error)
  | _ => false

/-- The transition out of PLACING that a placed path makes. -/
def places : Output → Bool
  | .logged _ t => t.src = .placing && t.dst = .arming
  | _ => false

/-- The results from before the end. -/
def driven (out : List Output) : List PointEvent := results (out.takeWhile (!ends ·))

@[simp] theorem results_append (out out' : List Output) : results (out ++ out') = results out ++ results out' :=
  List.filterMap_append

@[simp] theorem results_points (id : ℕ) (evs : List PointEvent) : results (evs.map fun ev => .point ⟨id, ev⟩) = evs := by
  simp [results, result?, List.filterMap_map, Function.comp_def]

theorem takeWhile_live {out : List Output} (live : ∀ o ∈ out, ends o = false) : out.takeWhile (!ends ·) = out := by
  rw [List.takeWhile_eq_self_iff]
  intro o member
  simp [live o member]

theorem driven_live {out : List Output} (live : ∀ o ∈ out, ends o = false) : driven out = results out := by
  rw [driven, takeWhile_live live]

/-- What comes after the end does not count as driven. -/
theorem driven_over {out : List Output} (over_ : ∃ o ∈ out, ends o = true) (more : List Output) :
    driven (out ++ more) = driven out := by
  obtain ⟨o, member, last⟩ := over_
  rw [driven, takeWhile_stops ⟨o, member, by simp [last]⟩, driven]

theorem driven_end {out : List Output} (live : ∀ o ∈ out, ends o = false) {o : Output} (last : ends o = true)
    (more : List Output) : driven (out ++ o :: more) = results out := by
  have whole : ∀ o ∈ out, (!ends o) = true := by
    intro o member
    simp [live o member]
  rw [driven, List.takeWhile_append_of_pos whole, List.takeWhile_cons_of_neg (by simp [last]), List.append_nil]

/-- The driven results come first. -/
theorem driven_within (out : List Output) : driven out <+: results out :=
  (List.takeWhile_prefix _).filterMap _

/-- The must-hit points of the path that was placed. -/
def mustHits (r : PlaceResult) : ℕ := r.placement.execution.points.countP (·.mustHit)

theorem lookup_putKey {α : Type} (key : String) (value : α) (l : List (String × α)) :
    (putKey key value l).lookup key = some value := by
  induction l with
  | nil => simp [putKey]
  | cons entry rest ih =>
    obtain ⟨k, v⟩ := entry
    unfold putKey
    split
    · simp
    · split
      · simp
      case isFalse other _ => rw [List.lookup_cons, beq_eq_false_iff_ne.mpr other, ih]

/-- What `noteProgress` records. -/
theorem noteProgress_lookup {n : Node} {t : Clock} (tracked : n.progressTracking = true) :
    ∃ p, (n.noteProgress t).progress.lookup n.run.sourceArtifactSha256 = some p ∧ p.completedPoints = n.completed := by
  unfold noteProgress
  rw [tracked]
  obtain ⟨queue, job, launched⟩ := launchProgressJob_eq _
  simp only [Bool.not_true, Bool.false_eq_true, if_false]
  rw [launched]
  exact ⟨_, lookup_putKey _ _ _, rfl⟩

section Execution

variable (k : ℕ) (placed : PlaceResult → Prop)

/-- Where an execution stands that began with `k` resolved points; `placed` are the results its placement job may
have had, `out` is what it has told so far. -/
inductive Phase (f : MissionFsm) (journal : Option PointJournal) (tracking : Bool) (out : List Output) : Prop where
  | unplaced (at_ : f.state = .loading ∨ f.state = .placing) (tracked : f.state = .placing → tracking = true)
      (closed : journal = none) (none : results out = [])
      (live : ∀ o ∈ out, ends o = false) (never : ∀ o ∈ out, places o = false)
  | driving {j : PointJournal} {r : PlaceResult} (active : f.terminal = false)
      (away : f.state ≠ .loading ∧ f.state ≠ .placing) (open_ : journal = some j)
      (from_ : placed r) (ok : r.placement.ok = true ∧ r.stored = true) (size : j.vertices.length = mustHits r)
      (tracked : tracking = true) (next : j.next = k + (results out).length) (bound : j.next ≤ j.vertices.length)
      (indices : (results out).map (·.pointIndex) = List.range' k (results out).length)
      (live : ∀ o ∈ out, ends o = false)
  | unopened (ended : f.terminal = true) (closed : journal = none) (none : results out = [])
      (over_ : ∃ o ∈ out, ends o = true) (never : ∀ o ∈ out, places o = false)
  | closed {r : PlaceResult} (ended : f.terminal = true) (left : ∀ j, journal = some j → j.vertices.length ≤ j.next)
      (from_ : placed r) (ok : r.placement.ok = true ∧ r.stored = true) (fits : k ≤ mustHits r)
      (indices : (results out).map (·.pointIndex) = List.range' k (mustHits r - k)) (over_ : ∃ o ∈ out, ends o = true)

/-- An execution of `sha` that has told `out`, its record apart. -/
structure Stands (sha : String) (out : List Output) (n : Node) : Prop where
  source : n.run.sourceArtifactSha256 = sha
  resumed : n.resumePoints.length = k
  marks : n.fsm.reengaging = true → n.fsm.state = .arming ∨ n.fsm.state = .engaging
  completed : n.completed.length = k + (driven out).length
  place : ∀ r, n.placeJob = .ready r → placed r
  phase : Phase k placed n.fsm n.journal n.progressTracking out

/-- The record it leaves, if there is one, has at least the points resolved so far. -/
structure Tracks (sha : String) (out : List Output) (n : Node) : Prop extends Stands k placed sha out n where
  records : ∀ p, n.progress.lookup sha = some p → k + (driven out).length ≤ p.completedPoints.length

variable {k placed} {hypot : Flt → Flt → Flt} {t : Clock} {sha : String} {told₀ : List Output} {n m : Node}

theorem Tracks.same {out : List Output} (tracks : Tracks k placed sha out n) (same : Same n m) :
    Tracks k placed sha out m where
  source := same.source.trans tracks.source
  resumed := by rw [same.resumePoints]; exact tracks.resumed
  marks := by rw [same.fsm]; exact tracks.marks
  completed := by rw [same.completed]; exact tracks.completed
  place r ready := tracks.place r (same.place r ready)
  phase := by rw [same.fsm, same.journal, same.tracking]; exact tracks.phase
  records := by rw [same.progress]; exact tracks.records

theorem unplaced_active {f : MissionFsm} (at_ : f.state = .loading ∨ f.state = .placing) : f.terminal = false := by
  rcases at_ with at_ | at_ <;> simp [MissionFsm.terminal, at_]

theorem Phase.note {f : MissionFsm} {journal : Option PointJournal} {tracking tracking' : Bool} {out : List Output}
    (phase : Phase k placed f journal tracking out) (kept : f.terminal = false → tracking' = tracking) :
    Phase k placed f journal tracking' out := by
  cases phase with
  | unplaced at_ tracked closed none live never =>
    have active : f.terminal = false := unplaced_active at_
    exact .unplaced at_ (fun here => (kept active).trans (tracked here)) closed none live never
  | driving active away open_ from_ ok size tracked next bound indices live =>
    exact .driving active away open_ from_ ok size ((kept active).trans tracked) next bound indices live
  | unopened ended closed none over_ never => exact .unopened ended closed none over_ never
  | closed ended left from_ ok fits indices over_ => exact .closed ended left from_ ok fits indices over_

theorem noteProgress_tracking (live : n.fsm.terminal = false) :
    (n.noteProgress t).progressTracking = n.progressTracking := by
  unfold noteProgress
  split
  · rfl
  · obtain ⟨queue, job, launched⟩ := launchProgressJob_eq _
    rw [launched]
    simp [live]

theorem Stands.note {out : List Output} (stands : Stands k placed sha out n) : Stands k placed sha out (n.noteProgress t) := by
  have kept : n.fsm.terminal = false → (n.noteProgress t).progressTracking = n.progressTracking := noteProgress_tracking
  obtain ⟨tracking, progress, queue, job, noted⟩ := noteProgress_eq n t
  rw [noted] at kept ⊢
  exact ⟨stands.source, stands.resumed, stands.marks, stands.completed, stands.place, stands.phase.note kept⟩

theorem Stands.noted {out : List Output} (stands : Stands k placed sha out n) (tracked : n.progressTracking = true) :
    Tracks k placed sha out (n.noteProgress t) := by
  refine ⟨stands.note, fun p found => ?_⟩
  obtain ⟨q, noted, points⟩ := noteProgress_lookup (t := t) tracked
  rw [stands.source, found] at noted
  cases noted
  rw [points, stands.completed]

theorem Tracks.note {out : List Output} (tracks : Tracks k placed sha out n) :
    Tracks k placed sha out (n.noteProgress t) := by
  cases tracked : n.progressTracking with
  | true => exact tracks.toStands.noted tracked
  | false =>
    have idle : n.noteProgress t = n := by
      unfold noteProgress
      rw [tracked]
      rfl
    rw [idle]
    exact tracks

/-- The journal of a path that is driven. -/
theorem Phase.drives {f : MissionFsm} {j : PointJournal} {tracking : Bool} {out : List Output}
    (phase : Phase k placed f (some j) tracking out) (active : f.terminal = false) :
    (f.state ≠ .loading ∧ f.state ≠ .placing) ∧ ∃ r, placed r ∧ (r.placement.ok = true ∧ r.stored = true) ∧ j.vertices.length = mustHits r ∧ tracking = true ∧
      j.next = k + (results out).length ∧ j.next ≤ j.vertices.length ∧
      (results out).map (·.pointIndex) = List.range' k (results out).length ∧ ∀ o ∈ out, ends o = false := by
  cases phase with
  | unplaced _ _ closed => cases closed
  | driving _ away open_ from_ ok size tracked next bound indices live =>
    cases open_
    exact ⟨away, _, from_, ok, size, tracked, next, bound, indices, live⟩
  | unopened ended => rw [active] at ended; cases ended
  | closed ended => rw [active] at ended; cases ended

/-- The node with the results of `evs` published and recorded. -/
def resolved (n : Node) (t : Clock) (j : PointJournal) (evs : List PointEvent) (pointIndex : ℕ) : Node :=
  recordResolved { n with
    journal := some j
    out := n.out ++ evs.map fun ev => .point ⟨n.fsm.missionId, ev⟩
    run := { n.run with pointIndex } } t evs

/-- The next points are resolved while the path is driven, and recorded at once. -/
theorem Tracks.resolve {j j' : PointJournal} {evs : List PointEvent}
    (tracks : Tracks k placed sha (told₀ ++ told n.out) n) (active : n.fsm.terminal = false) (open_ : n.journal = some j)
    (resolves : j.Resolves j' evs) (pointIndex : ℕ) :
    Tracks k placed sha (told₀ ++ told (n.resolved t j' evs pointIndex).out) (n.resolved t j' evs pointIndex) := by
  have phase := tracks.phase
  rw [open_] at phase
  obtain ⟨away, r, from_, ok, size, tracked, next, bound, indices, live⟩ := phase.drives active
  obtain ⟨id, number⟩ : ∃ id, id = n.fsm.missionId := ⟨_, rfl⟩
  have out : told₀ ++ told (n.resolved t j' evs pointIndex).out =
      (told₀ ++ told n.out) ++ evs.map fun ev => .point ⟨id, ev⟩ := by
    obtain ⟨_, _, _, _, _, recorded⟩ := recordResolved_eq { n with
      journal := some j'
      out := n.out ++ evs.map fun ev => .point ⟨n.fsm.missionId, ev⟩
      run := { n.run with pointIndex } } t evs
    rw [resolved, recorded, told_append, told_points, List.append_assoc, number]
  rw [out]
  generalize told₀ ++ told n.out = before at tracks indices next live
  have lives : ∀ o ∈ before ++ evs.map fun ev => .point ⟨id, ev⟩, ends o = false := by
    intro o member
    rcases List.mem_append.mp member with old | new
    · exact live o old
    · obtain ⟨ev, _, rfl⟩ := List.mem_map.mp new
      rfl
  have size' : (results (before ++ evs.map fun ev => .point ⟨id, ev⟩)).length = (results before).length + evs.length := by
    rw [results_append, results_points, List.length_append]
  have driving : Phase k placed n.fsm (some j') true (before ++ evs.map fun ev => .point ⟨id, ev⟩) := by
    refine .driving active away rfl from_ ok (by rw [resolves.vertices, size]) rfl ?_ ?_ ?_ lives
    · rw [resolves.next, next, size']
      omega
    · rw [resolves.vertices]
      exact resolves.bound bound
    · rw [size', results_append, results_points, List.map_append, indices, resolves.indices, next, List.range'_append_1]
  unfold resolved recordResolved
  split
  case isTrue none =>
    obtain rfl : evs = [] := by simpa using none
    simp only [List.map_nil, List.append_nil] at driving ⊢
    exact ⟨⟨tracks.source, tracks.resumed, tracks.marks, tracks.completed, tracks.place, tracked ▸ driving⟩,
      tracks.records⟩
  · refine Stands.noted ⟨tracks.source, tracks.resumed, tracks.marks, ?_, tracks.place, tracked ▸ driving⟩ tracked
    rw [driven_live lives, size', List.length_append, tracks.completed, driven_live live, List.length_map]
    omega

theorem running_active {f : MissionFsm} (running : f.state = .running) : f.terminal = false := by
  simp [MissionFsm.terminal, running]

theorem driven_active {f : MissionFsm} (driven : f.state = .running ∨ f.state = .paused ∨ f.reengaging = true)
    (marks : f.reengaging = true → f.state = .arming ∨ f.state = .engaging) : f.terminal = false := by
  rcases driven with at_ | at_ | again
  · exact running_active at_
  · simp [MissionFsm.terminal, at_]
  · rcases marks again with at_ | at_ <;> simp [MissionFsm.terminal, at_]

theorem Tracks.track (tracks : Tracks k placed sha (told₀ ++ told n.out) n) (v : VehicleState) :
    Tracks k placed sha (told₀ ++ told (trackPoints hypot n t v).out) (trackPoints hypot n t v) := by
  unfold trackPoints
  split
  case h_1 j open_ =>
    split
    case isTrue running =>
      dsimp only
      rw [publishPoints_eq]
      exact tracks.resolve (running_active running.1) open_ (PointJournal.update_resolves hypot j v.north v.east) _
    · exact tracks
  · exact tracks

theorem Tracks.skip (tracks : Tracks k placed sha (told₀ ++ told n.out) n) (active : n.fsm.terminal = false) :
    Tracks k placed sha (told₀ ++ told (n.skipPoint t).1.out) (n.skipPoint t).1 := by
  unfold skipPoint
  split
  · exact tracks
  case h_2 j open_ =>
    have resolves := j.skip_resolves
    split
    case h_1 j' skipped =>
      have same : Same n { n with journal := some j' } := by
        refine ⟨rfl, rfl, rfl, ?_, rfl, rfl, rfl, rfl, rfl, rfl, rfl, fun _ ready => ready⟩
        unfold PointJournal.skip at skipped
        split at skipped
        · cases skipped
          exact open_.symm
        · cases skipped
      exact tracks.same same
    case h_2 j' ev skipped =>
      rw [skipped] at resolves
      exact tracks.resolve active open_ resolves _

/-! ### Events -/

section Event

variable {f : MissionFsm} {now : ℤ} {c : MissionFsm.Call} {journal : Option PointJournal} {tracking : Bool}
  {out : List Output}

theorem terminal_iff {f : MissionFsm} :
    f.terminal = true ↔ f.state = .completed ∨ f.state = .aborted ∨ f.state = .error := by
  simp [MissionFsm.terminal, or_assoc]

/-- An event that leaves the state ends nothing and places nothing. -/
theorem logged_stays {id : ℕ} (stays : MissionFsm.Stays f (f.call now c)) :
    ends (.logged id (f.call now c).logged) = false ∧ places (.logged id (f.call now c).logged) = false := by
  simp only [ends, places, stays.src, stays.dst]
  constructor
  · simp
  · cases f.state <;> decide

theorem logged_ends {id : ℕ} (goes : MissionFsm.Goes f c (f.call now c)) (active : f.terminal = false) :
    ends (.logged id (f.call now c).logged) = (f.call now c).fsm.terminal := by
  simp only [ends, goes.src, goes.dst, goes.accepted]
  cases ended : (f.call now c).fsm.terminal with
  | false =>
    simp only [MissionFsm.terminal] at ended
    simp [ended]
  | true =>
    have other : f.state ≠ (f.call now c).fsm.state := by
      intro same
      rw [MissionFsm.terminal, same] at active
      rw [MissionFsm.terminal] at ended
      rw [ended] at active
      cases active
    simp only [MissionFsm.terminal] at ended
    simp [other, ended]

/-- An allowed event takes a mission that has not been placed nowhere but to its end. -/
theorem unplaced_moves (at_ : n.fsm.state = .loading ∨ n.fsm.state = .placing) (allowed : Allowed n c) {dst : State}
    (moves : MissionFsm.Moves n.fsm c dst) (active : dst ≠ .completed ∧ dst ≠ .aborted ∧ dst ≠ .error) : False := by
  cases moves with
  | start idle => simp [show n.fsm.active = true from allowed] at idle
  | loaded => exact allowed
  | placed => exact allowed
  | ekfPause here => rcases at_ with at_ | at_ <;> simp [at_] at here
  | _ => simp_all

/-- No event brings a mission back to LOADING or PLACING. -/
theorem away_moves (away : f.state ≠ .loading ∧ f.state ≠ .placing) {dst : State} (moves : MissionFsm.Moves f c dst)
    (refused : c = .start true → f.active = true) : dst ≠ .loading ∧ dst ≠ .placing := by
  cases moves with
  | start idle => simp [refused rfl] at idle
  | loaded here => exact absurd here away.1
  | _ => decide

/-- In a terminal state an allowed event changes nothing. -/
theorem terminal_stays (ended : n.fsm.terminal = true) (allowed : Allowed n c)
    (marks : n.fsm.reengaging = true → n.fsm.state = .arming ∨ n.fsm.state = .engaging) :
    MissionFsm.Stays n.fsm (n.fsm.call now c) := by
  rcases MissionFsm.call_cases n.fsm now c with stays | goes
  · exact stays
  · have start := goes.moves.of_terminal ended marks
    subst start
    have active : n.fsm.active = true := allowed
    simp [MissionFsm.active, ended] at active

theorem results_logged {id : ℕ} {tr : Transition} : results (out ++ [.logged id tr]) = results out := by
  rw [results_append]
  exact List.append_nil _

theorem live_append {p : Output → Bool} {o : Output} (live : ∀ o ∈ out, p o = false) (last : p o = false) :
    ∀ x ∈ out ++ [o], p x = false := by
  intro x member
  rcases List.mem_append.mp member with old | new
  · exact live x old
  · rw [List.mem_singleton.mp new]
    exact last

end Event

/-- What an event tells. -/
def toldBy (n : Node) (t : Clock) (c : MissionFsm.Call) : Output :=
  .logged (n.fsm.call t.steady c).fsm.missionId (n.fsm.call t.steady c).logged

theorem not_terminal {f : MissionFsm} (active : f.terminal = false) :
    f.state ≠ .completed ∧ f.state ≠ .aborted ∧ f.state ≠ .error := by
  simpa [MissionFsm.terminal, not_or, and_assoc] using active

/-- An event without an end: the log entry is all it tells. -/
theorem Phase.log {c : MissionFsm.Call} {journal : Option PointJournal} {tracking : Bool} {out : List Output}
    (phase : Phase k placed n.fsm journal tracking out) (allowed : Allowed n c)
    (marks : n.fsm.reengaging = true → n.fsm.state = .arming ∨ n.fsm.state = .engaging)
    (live : (n.fsm.call t.steady c).fsm.terminal = true → n.fsm.terminal = true) :
    Phase k placed (n.fsm.call t.steady c).fsm journal tracking (out ++ [n.toldBy t c]) ∧
      driven (out ++ [n.toldBy t c]) = driven out := by
  have refused : c = .start true → n.fsm.active = true := fun start => by
    subst start
    exact allowed
  have told : results (out ++ [n.toldBy t c]) = results out := results_logged
  have moved (goes : MissionFsm.Goes n.fsm c (n.fsm.call t.steady c)) (active : n.fsm.terminal = false) :
      (n.fsm.call t.steady c).fsm.terminal = false ∧ ends (n.toldBy t c) = false := by
    have still : (n.fsm.call t.steady c).fsm.terminal = false := by
      by_contra ended
      have ended := live (by simpa using ended)
      rw [active] at ended
      cases ended
    exact ⟨still, (logged_ends goes active).trans still⟩
  cases phase with
  | unplaced at_ tracked closed none alive never =>
    have active := unplaced_active at_
    rcases MissionFsm.call_cases n.fsm t.steady c with stays | goes
    · obtain ⟨ended, put⟩ : ends (n.toldBy t c) = false ∧ places (n.toldBy t c) = false := logged_stays stays
      have alive' := live_append alive ended
      refine ⟨.unplaced ?_ ?_ closed (told.trans none) alive' (live_append never put), ?_⟩
      · rw [stays.state]; exact at_
      · rw [stays.state]; exact tracked
      · rw [driven_live alive', driven_live alive, told]
    · exact (unplaced_moves at_ allowed goes.moves (not_terminal (moved goes active).1)).elim
  | driving active away open_ from_ ok size tracked next bound indices alive =>
    have ended : ends (n.toldBy t c) = false := by
      rcases MissionFsm.call_cases n.fsm t.steady c with stays | goes
      · exact (logged_stays stays).1
      · exact (moved goes active).2
    have still : (n.fsm.call t.steady c).fsm.terminal = false := by
      rcases MissionFsm.call_cases n.fsm t.steady c with stays | goes
      · simpa only [MissionFsm.terminal, stays.state] using active
      · exact (moved goes active).1
    have away' : (n.fsm.call t.steady c).fsm.state ≠ .loading ∧ (n.fsm.call t.steady c).fsm.state ≠ .placing := by
      rcases MissionFsm.call_cases n.fsm t.steady c with stays | goes
      · rw [stays.state]
        exact away
      · exact away_moves away goes.moves refused
    have alive' := live_append alive ended
    refine ⟨.driving still away' open_ from_ ok size tracked ?_ bound ?_ alive', ?_⟩
    · rw [told]; exact next
    · rw [told]; exact indices
    · rw [driven_live alive', driven_live alive, told]
  | unopened ended closed none over_ never =>
    have stays : MissionFsm.Stays n.fsm (n.fsm.call t.steady c) := terminal_stays ended allowed marks
    obtain ⟨o, member, last⟩ := over_
    refine ⟨.unopened ?_ closed (told.trans none) ⟨o, List.mem_append_left _ member, last⟩
      (live_append never (logged_stays stays).2), driven_over ⟨o, member, last⟩ _⟩
    simpa only [MissionFsm.terminal, stays.state] using ended
  | closed ended left from_ ok fits indices over_ =>
    have stays : MissionFsm.Stays n.fsm (n.fsm.call t.steady c) := terminal_stays ended allowed marks
    obtain ⟨o, member, last⟩ := over_
    refine ⟨.closed ?_ left from_ ok fits ?_ ⟨o, List.mem_append_left _ member, last⟩, driven_over ⟨o, member, last⟩ _⟩
    · simpa only [MissionFsm.terminal, stays.state] using ended
    · rw [told]; exact indices

theorem finish_nothing {j : PointJournal} (done : j.vertices.length ≤ j.next) : j.finish.2 = [] := by
  have none := j.finish_indices
  rw [Nat.sub_eq_zero_of_le done] at none
  exact List.map_eq_nil_iff.mp none

/-- An event into a terminal state: it closes the journal, and every point still open is told. -/
theorem Phase.close {c : MissionFsm.Call} {journal journal' : Option PointJournal} {tracking : Bool} {out : List Output}
    (id : ℕ) (phase : Phase k placed n.fsm journal tracking out) (allowed : Allowed n c)
    (marks : n.fsm.reengaging = true → n.fsm.state = .arming ∨ n.fsm.state = .engaging)
    (ended : (n.fsm.call t.steady c).fsm.terminal = true)
    (left : journal' = none ∨ journal' = journal.map fun j => j.finish.1) :
    Phase k placed (n.fsm.call t.steady c).fsm journal' tracking (out ++ n.toldBy t c ::
        (journal.elim [] fun j => j.finish.2).map fun ev => .point ⟨id, ev⟩) ∧
      driven (out ++ n.toldBy t c :: (journal.elim [] fun j => j.finish.2).map fun ev => .point ⟨id, ev⟩) = driven out := by
  have told (evs : List PointEvent) : results (out ++ n.toldBy t c :: evs.map fun ev => .point ⟨id, ev⟩) =
      results out ++ evs := by
    rw [results_append]
    exact congrArg (results out ++ ·) (results_points id evs)
  have ends_ (active : n.fsm.terminal = false) :
      MissionFsm.Goes n.fsm c (n.fsm.call t.steady c) ∧ ends (n.toldBy t c) = true := by
    rcases MissionFsm.call_cases n.fsm t.steady c with stays | goes
    · simp only [MissionFsm.terminal, stays.state] at ended active
      rw [ended] at active
      cases active
    · exact ⟨goes, (logged_ends goes active).trans ended⟩
  have put (never : ∀ o ∈ out, places o = false) (quiet : places (n.toldBy t c) = false) (evs : List PointEvent) :
      ∀ o ∈ out ++ n.toldBy t c :: evs.map fun ev => .point ⟨id, ev⟩, places o = false := by
    intro o member
    rcases List.mem_append.mp member with old | new
    · exact never o old
    · rcases List.mem_cons.mp new with rfl | point
      · exact quiet
      · obtain ⟨ev, _, rfl⟩ := List.mem_map.mp point
        rfl
  cases phase with
  | unplaced at_ tracked closed none alive never =>
    have active := unplaced_active at_
    obtain ⟨goes, last⟩ := ends_ active
    subst closed
    have quiet : places (n.toldBy t c) = false := by
      rcases terminal_iff.mp ended with at_ | at_ | at_ <;> simp [places, toldBy, goes.dst, at_]
    refine ⟨.unopened ended (by simpa using left) ((told []).trans (by simp [none])) ⟨_, by simp, last⟩ (put never quiet []),
      ?_⟩
    rw [driven_end alive last, driven_live alive]
  | driving active away open_ from_ ok size tracked next bound indices alive =>
    obtain ⟨goes, last⟩ := ends_ active
    subst open_
    refine ⟨.closed ended ?_ from_ ok ?_ ?_ ⟨_, by simp, last⟩, ?_⟩
    · intro j' open_
      rw [open_] at left
      rcases left with none | some
      · cases none
      · cases some
        rw [(PointJournal.finish_next _).1]
        exact (PointJournal.finish_next _).2
    · omega
    · rw [Option.elim_some, told, List.map_append, indices, PointJournal.finish_indices, next, List.range'_append_1, ← size]
      congr 1
      omega
    · rw [driven_end alive last, driven_live alive]
  | unopened over_ closed none last never =>
    have stays : MissionFsm.Stays n.fsm (n.fsm.call t.steady c) := terminal_stays over_ allowed marks
    obtain ⟨o, member, last⟩ := last
    subst closed
    refine ⟨.unopened ended (by simpa using left) ((told []).trans (by simp [none]))
      ⟨o, List.mem_append_left _ member, last⟩ (put never (logged_stays stays).2 []), driven_over ⟨o, member, last⟩ _⟩
  | closed over_ done from_ ok fits indices last =>
    obtain ⟨o, member, last⟩ := last
    have nothing : (journal.elim [] fun j => j.finish.2) = [] := by
      cases open_ : journal with
      | none => rfl
      | some j => exact finish_nothing (done j open_)
    rw [nothing]
    refine ⟨.closed ended ?_ from_ ok fits ?_ ⟨o, List.mem_append_left _ member, last⟩, driven_over ⟨o, member, last⟩ _⟩
    · intro j' open_
      rw [open_] at left
      rcases left with none | some
      · cases none
      · obtain ⟨j, _, rfl⟩ := Option.map_eq_some_iff.mp some.symm
        rw [(PointJournal.finish_next _).1]
        exact (PointJournal.finish_next _).2
    · rw [told []]
      simpa using indices

theorem raised_told (n : Node) (t : Clock) (c : MissionFsm.Call) :
    told₀ ++ told (n.raised t c).out = (told₀ ++ told n.out) ++ [n.toldBy t c] := by
  have entry : told (n.raised t c).out = told n.out ++ [n.toldBy t c] := told_append n.out [n.toldBy t c]
  rw [entry, List.append_assoc]

theorem Tracks.fire {c : MissionFsm.Call} (tracks : Tracks k placed sha (told₀ ++ told n.out) n) (allowed : Allowed n c) :
    Tracks k placed sha (told₀ ++ told (n.fire t c).out) (n.fire t c) := by
  have marks : (n.raised t c).fsm.reengaging = true →
      (n.raised t c).fsm.state = .arming ∨ (n.raised t c).fsm.state = .engaging := MissionFsm.call_marks tracks.marks
  rcases fire_cases n t c with ⟨same, live⟩ | ⟨ended, m, closed, same⟩
  · rw [same.told, raised_told]
    obtain ⟨phase, driven⟩ := tracks.phase.log (t := t) allowed tracks.marks live
    have raised : Tracks k placed sha (told₀ ++ told n.out ++ [n.toldBy t c]) (n.raised t c) :=
      ⟨⟨tracks.source, tracks.resumed, marks, by rw [driven]; exact tracks.completed, tracks.place, phase⟩,
        by rw [driven]; exact tracks.records⟩
    exact raised.same same
  · obtain ⟨phase, driven⟩ := Phase.close (n.raised t c).fsm.missionId (t := t) tracks.phase allowed tracks.marks ended
      closed.journal
    have tells : told₀ ++ told (n.fire t c).out = told₀ ++ told n.out ++ n.toldBy t c ::
        (n.journal.elim [] fun j => j.finish.2).map fun ev => .point ⟨(n.raised t c).fsm.missionId, ev⟩ := by
      rw [same.told, closed.told, ← List.append_assoc, raised_told, List.append_assoc _ [_], List.singleton_append]
      rfl
    rw [tells]
    rw [← closed.fsm] at marks
    have shut : Tracks k placed sha (told₀ ++ told n.out ++ n.toldBy t c ::
        (n.journal.elim [] fun j => j.finish.2).map fun ev => .point ⟨(n.raised t c).fsm.missionId, ev⟩) m := by
      refine ⟨⟨closed.source.trans tracks.source, ?_, marks, ?_, ?_, ?_⟩, ?_⟩
      · rw [closed.resumePoints]; exact tracks.resumed
      · rw [closed.completed, driven]; exact tracks.completed
      · rw [closed.place]; exact tracks.place
      · rw [closed.fsm, closed.tracking]; exact phase
      · rw [closed.progress, driven]; exact tracks.records
    exact shut.same same

theorem fire_live {c : MissionFsm.Call} (active : (n.fsm.call t.steady c).fsm.terminal = false) :
    Same (n.raised t c) (n.fire t c) := by
  rcases fire_cases n t c with ⟨same, _⟩ | ⟨ended, _⟩
  · exact same
  · rw [show (n.raised t c).fsm.terminal = false from active] at ended
    cases ended

theorem Phase.at_unplaced {f : MissionFsm} {journal : Option PointJournal} {tracking : Bool} {out : List Output}
    (phase : Phase k placed f journal tracking out) (at_ : f.state = .loading ∨ f.state = .placing) :
    (f.state = .placing → tracking = true) ∧ journal = none ∧ results out = [] ∧ (∀ o ∈ out, ends o = false) ∧
      ∀ o ∈ out, places o = false := by
  have active := unplaced_active at_
  cases phase with
  | unplaced _ tracked closed none live never => exact ⟨tracked, closed, none, live, never⟩
  | driving _ away => rcases at_ with here | here <;> simp [here] at away
  | unopened ended => rw [active] at ended; cases ended
  | closed ended => rw [active] at ended; cases ended

/-- A state change of a mission that goes on: `n'` is the node with the journal and the tracking it goes on with. -/
theorem Tracks.advances {n' : Node} {c : MissionFsm.Call} (tracks : Tracks k placed sha (told₀ ++ told n.out) n)
    (same : n'.fsm = n.fsm ∧ n'.out = n.out ∧ n'.run.sourceArtifactSha256 = n.run.sourceArtifactSha256 ∧
      n'.resumePoints = n.resumePoints ∧ n'.completed = n.completed ∧ n'.progress = n.progress)
    (place : ∀ r, n'.placeJob = .ready r → n.placeJob = .ready r)
    (active : (n'.fsm.call t.steady c).fsm.terminal = false) (live : ∀ o ∈ told₀ ++ told n.out, ends o = false)
    (quiet : ends (n'.toldBy t c) = false)
    (phase : Phase k placed (n'.fsm.call t.steady c).fsm n'.journal n'.progressTracking
      (told₀ ++ told n.out ++ [n'.toldBy t c])) :
    Tracks k placed sha (told₀ ++ told (n'.fire t c).out) (n'.fire t c) := by
  obtain ⟨fsm, out, source, resumePoints, completed, progress⟩ := same
  have shown := fire_live active
  have driven_ : driven (told₀ ++ told n.out ++ [n'.toldBy t c]) = driven (told₀ ++ told n.out) := by
    rw [driven_live (live_append live quiet), driven_live live]
    exact results_logged
  have raised : Tracks k placed sha (told₀ ++ told n.out ++ [n'.toldBy t c]) (n'.raised t c) := by
    refine ⟨⟨source.trans tracks.source, ?_, ?_, ?_, fun r ready => tracks.place r (place r ready), phase⟩, ?_⟩
    · exact (congrArg List.length resumePoints).trans tracks.resumed
    · exact MissionFsm.call_marks (fsm ▸ tracks.marks)
    · rw [driven_]
      exact (congrArg List.length completed).trans tracks.completed
    · rw [driven_]
      exact fun p found => tracks.records p (progress ▸ found)
  rw [shown.told, raised_told, out]
  exact raised.same shown

/-- The artifact was verified: LOADING to PLACING, with the progress recorded from here on. -/
theorem Tracks.verified (tracks : Tracks k placed sha (told₀ ++ told n.out) n) (loading : n.fsm.state = .loading)
    (a : PathArtifact) :
    Tracks k placed sha (told₀ ++ told ((n.loaded a).fire t (.artifactLoaded true "artifact verified")).out)
      ((n.loaded a).fire t (.artifactLoaded true "artifact verified")) := by
  obtain ⟨_, closed, none, live, never⟩ := tracks.phase.at_unplaced (.inl loading)
  have call : (n.loaded a).fsm.call t.steady (.artifactLoaded true "artifact verified") =
      n.fsm.go .placing .artifactLoaded reasonNone "artifact verified" t.steady := by
    simp [MissionFsm.call, MissionFsm.artifactLoaded, MissionFsm.step, loaded, loading]
  have quiet : ends ((n.loaded a).toldBy t (.artifactLoaded true "artifact verified")) = false ∧
      places ((n.loaded a).toldBy t (.artifactLoaded true "artifact verified")) = false := by
    rw [toldBy, call]
    simp [ends, places, MissionFsm.go, loading]
  refine tracks.advances ⟨rfl, rfl, rfl, rfl, rfl, rfl⟩ (fun _ ready => ready) (by rw [call]; rfl) live quiet.1 ?_
  refine .unplaced (.inr ?_) (fun _ => rfl) closed (results_logged.trans none) (live_append live quiet.1)
    (live_append never quiet.2)
  rw [call]
  rfl

theorem opened_journal {r : PlaceResult} {j : PointJournal} (opened : n.opened r = .ok (some j)) :
    j.vertices.length = mustHits r ∧ j.next = n.resumePoints.length ∧ j.next ≤ j.vertices.length := by
  cases made : PointJournal.make r.placement.execution.points (.fin (n.params.value .pointCaptureRadius)) with
  | error e =>
    rw [opened_error made] at opened
    cases opened
  | ok j₀ =>
    rw [opened_ok made] at opened
    have fresh : j₀.vertices.length = mustHits r ∧ j₀.next = 0 := by
      unfold PointJournal.make at made
      split at made
      · cases made
      · cases made
        exact ⟨by simp [mustHits, List.countP_eq_length_filter], rfl⟩
    split at opened
    case isTrue none =>
      cases opened
      obtain none : n.resumePoints = [] := by simpa using none
      exact ⟨fresh.1, by rw [fresh.2, none]; rfl, by omega⟩
    · unfold PointJournal.restoreResolved at opened
      split at opened
      · cases opened
      case isFalse fits =>
        cases opened
        simp only [not_or, Nat.not_lt] at fits
        exact ⟨fresh.1, rfl, fits.2.2⟩

/-- The path was placed: PLACING to ARMING, with the journal open at the first point that is not resolved. -/
theorem Tracks.arms {r : PlaceResult} {j : PointJournal} (tracks : Tracks k placed sha (told₀ ++ told n.out) n)
    (ready : n.placeJob = .ready r) (placing : n.fsm.state = .placing) (ok : r.placement.ok = true ∧ r.stored = true)
    (opened : n.opened r = .ok (some j)) :
    Tracks k placed sha (told₀ ++ told ((n.journaled r j).fire t (.placed true reasonNone r.placement.detail)).out)
      ((n.journaled r j).fire t (.placed true reasonNone r.placement.detail)) := by
  obtain ⟨tracked, _, none, live, _⟩ := tracks.phase.at_unplaced (.inr placing)
  obtain ⟨size, next, bound⟩ := opened_journal opened
  have call : (n.journaled r j).fsm.call t.steady (.placed true reasonNone r.placement.detail) =
      n.fsm.go .arming .placed reasonNone r.placement.detail t.steady := by
    simp [MissionFsm.call, MissionFsm.placed, MissionFsm.step, journaled, placing]
  have quiet : ends ((n.journaled r j).toldBy t (.placed true reasonNone r.placement.detail)) = false := by
    rw [toldBy, call]
    simp [ends, MissionFsm.go]
  have told : results (told₀ ++ told n.out ++ [(n.journaled r j).toldBy t (.placed true reasonNone r.placement.detail)]) = [] :=
    results_logged.trans none
  refine tracks.advances ⟨rfl, rfl, rfl, rfl, rfl, rfl⟩ (fun _ ready => absurd ready Job.none_ne_ready) (by rw [call]; rfl)
    live quiet ?_
  refine .driving (by rw [call]; rfl) (by rw [call]; simp [MissionFsm.go, MissionFsm.record]) rfl (tracks.place r ready) ok size (tracked placing) ?_ bound ?_
    (live_append live quiet)
  · rw [told, next]
    exact tracks.resumed
  · rw [told]
    rfl

theorem Tracks.act (tracks : Tracks k placed sha (told₀ ++ told n.out) n) (act : Act hypot t n m) :
    Tracks k placed sha (told₀ ++ told m.out) m := by
  cases act with
  | same same =>
    rw [same.told]
    exact tracks.same same
  | fire c allowed => exact tracks.fire allowed
  | note =>
    obtain ⟨_, _, _, _, noted⟩ := noteProgress_eq n t
    have same : (n.noteProgress t).out = n.out := by rw [noted]
    rw [same]
    exact tracks.note
  | poll =>
    obtain ⟨queue, job, polled⟩ := pollProgress_eq n
    rw [polled]
    exact ⟨⟨tracks.source, tracks.resumed, tracks.marks, tracks.completed, tracks.place, tracks.phase⟩, tracks.records⟩
  | verified a loading => exact tracks.verified loading a
  | placed ready placing ok opened => exact tracks.arms ready placing ok opened
  | unplaced placing =>
    obtain ⟨tracked, closed, none, live, never⟩ := tracks.phase.at_unplaced (.inr placing)
    exact ⟨⟨tracks.source, tracks.resumed, tracks.marks, tracks.completed, fun _ ready => absurd ready Job.none_ne_ready,
      .unplaced (.inr placing) tracked rfl none live never⟩, tracks.records⟩
  | track v => exact tracks.track v
  | skip driven => exact tracks.skip (driven_active driven tracks.marks)

theorem Tracks.acts (tracks : Tracks k placed sha (told₀ ++ told n.out) n) (acts : Acts hypot t n m) :
    Tracks k placed sha (told₀ ++ told m.out) m :=
  acts.keeps (fun n => Tracks k placed sha (told₀ ++ told n.out) n) (fun _ _ act tracks => tracks.act act) tracks

theorem Phase.mono {placed' : PlaceResult → Prop} {f : MissionFsm} {journal : Option PointJournal} {tracking : Bool}
    {out : List Output} (phase : Phase k placed f journal tracking out) (more : ∀ r, placed r → placed' r) :
    Phase k placed' f journal tracking out := by
  cases phase with
  | unplaced at_ tracked closed none live never => exact .unplaced at_ tracked closed none live never
  | driving active away open_ from_ ok size tracked next bound indices live =>
    exact .driving active away open_ (more _ from_) ok size tracked next bound indices live
  | unopened ended closed none over_ never => exact .unopened ended closed none over_ never
  | closed ended left from_ ok fits indices over_ => exact .closed ended left (more _ from_) ok fits indices over_

/-! ### Executions -/

end Execution

/-- What the callbacks of a history told, oldest first. -/
def tells : List Record → List Output
  | [] => []
  | x :: h => tells h ++ told x.out.outputs

/-- The results the placement job has had in a history. -/
def PlacedIn (h : List Record) (r : PlaceResult) : Prop := ∃ x ∈ h, x.event.event = .placeDone r

/-- No new execution begins. -/
def Goes (hypot : Flt → Flt → Flt) (_ : List Record) (n : Node) (i : Input) : Prop :=
  began ⟨i, (step hypot n i).2⟩ = false

variable {hypot : Flt → Flt → Flt} {k : ℕ} {sha : String} {told₀ : List Output} {n : Node} {h : List Record}

theorem finish_ready {α β : Type} {job : Job α β} {r r' : β} (ready : job.finish r = .ready r') :
    r = r' ∨ job = .ready r' := by
  cases job with
  | none => cases ready
  | running work => cases ready; exact .inl rfl
  | ready done => exact .inr ready

/-- One callback of an execution. -/
theorem Tracks.callback {i : Input} (tracks : Tracks k (PlacedIn h) sha told₀ n) (goes : Goes hypot h n i) :
    Tracks k (PlacedIn (⟨i, (step hypot n i).2⟩ :: h)) sha (told₀ ++ told (step hypot n i).2.outputs) (step hypot n i).1 := by
  obtain ⟨t, e⟩ := i
  have more : ∀ r, PlacedIn h r → PlacedIn (⟨⟨t, e⟩, (step hypot n ⟨t, e⟩).2⟩ :: h) r := by
    rintro r ⟨x, member, done⟩
    exact ⟨x, List.mem_cons_of_mem _ member, done⟩
  have fresh : Tracks k (PlacedIn (⟨⟨t, e⟩, (step hypot n ⟨t, e⟩).2⟩ :: h)) sha (told₀ ++ told [])
      { n with out := [] } := by
    simp only [told, List.filter_nil, List.append_nil]
    exact ⟨⟨tracks.source, tracks.resumed, tracks.marks, tracks.completed, fun r ready => more r (tracks.place r ready),
      tracks.phase.mono more⟩, tracks.records⟩
  by_cases place : ∃ r, e = .placeDone r
  · obtain ⟨r, rfl⟩ := place
    refine ⟨⟨fresh.source, fresh.resumed, fresh.marks, fresh.completed, fun r' ready => ?_, fresh.phase⟩, fresh.records⟩
    rcases finish_ready (show n.placeJob.finish r = .ready r' from ready) with rfl | before
    · exact ⟨_, List.mem_cons_self, rfl⟩
    · exact fresh.place r' before
  by_cases written : ∃ errors, e = .progressDone errors
  · obtain ⟨errors, rfl⟩ := written
    exact ⟨⟨fresh.source, fresh.resumed, fresh.marks, fresh.completed, fresh.place, fresh.phase⟩, fresh.records⟩
  refine Tracks.acts fresh (handle_acts _ e (fun o answer => ?_) (not_exists.mp place) (not_exists.mp written))
  have answer : (step hypot n ⟨t, e⟩).2.answer = .start o := answer
  rw [Goes, began, answer] at goes
  exact goes

theorem Tracks.run {s : Node} (begins : Tracks k (PlacedIn []) sha told₀ s) (run : RunIf (step hypot) (Goes hypot) s h n) :
    Tracks k (PlacedIn h) sha (told₀ ++ tells h) n := by
  induction run with
  | start =>
    rw [tells, List.append_nil]
    exact begins
  | next _ i goes ih =>
    rw [tells, ← List.append_assoc]
    exact ih.callback goes

/-- A start brings the resolved points of the record it resumes. -/
theorem restored_length {p : MissionProgress} (resume : Bool) (found : n.progress.lookup sha = some p) :
    (n.restored sha resume).2.length ≤ p.completedPoints.length := by
  unfold restored
  cases resume with
  | false => exact Nat.zero_le _
  | true =>
    rw [if_pos rfl, found]
    dsimp only
    split
    · exact Nat.zero_le _
    · exact le_rfl

/-- An execution begins in LOADING with nothing told but its start. -/
theorem Begins.tracks {t : Clock} {m : Node} {o : StartOutcome} {requestId : String} {resume : Bool}
    (begins : Begins t n m o sha requestId resume) (out : n.out = []) :
    Tracks (n.restored sha resume).2.length (PlacedIn []) sha (told m.out) m := by
  obtain ⟨run, _, _, place, _, progress⟩ := begun_kept t sha requestId resume begins.idle
  obtain ⟨loading, _, _, unmarked⟩ := begun_fsm t sha requestId resume begins.idle
  have first := begun_told t sha requestId resume begins.idle
  rw [out] at first
  have entry : (n.fsm.call t.steady (.start true)).logged.dst = .loading := by
    rw [call_start begins.idle]
    rfl
  have live : ∀ o ∈ told (n.begun t sha requestId resume).out, ends o = false ∧ places o = false := by
    intro o member
    rw [first] at member
    obtain rfl := List.mem_singleton.mp member
    simp [ends, places, entry]
  have none : results (told (n.begun t sha requestId resume).out) = [] := by
    rw [first]
    rfl
  have start : Tracks (n.restored sha resume).2.length (PlacedIn []) sha ([] ++ told (n.begun t sha requestId resume).out)
      (n.begun t sha requestId resume) := by
    rw [List.nil_append]
    have driven_ : driven (told (n.begun t sha requestId resume).out) = [] := by
      rw [driven_live fun o member => (live o member).1, none]
    refine ⟨⟨by rw [run]; rfl, rfl, ?_, ?_, ?_, ?_⟩, ?_⟩
    · rw [unmarked]
      exact nofun
    · rw [driven_]
      rfl
    · intro r ready
      rw [place, (jobsPending_false begins.free).2] at ready
      exact absurd ready Job.none_ne_ready
    · exact .unplaced (.inl loading) (fun at_ => by rw [loading] at at_; cases at_) rfl none (fun o member => (live o member).1)
        fun o member => (live o member).2
    · intro p found
      rw [progress] at found
      rw [driven_]
      exact restored_length resume found
  have onward : Acts (fun north _ => north) t (n.begun t sha requestId resume) m := begins.node ▸ acts_advance _
  have all := start.acts onward
  rw [List.nil_append] at all
  exact all

/-- One execution of an artifact: an accepted start of a node, and what follows before another start is accepted. -/
structure Execution (hypot : Flt → Flt → Flt) where
  params : Params
  found : List (String × MissionProgress)
  before : List Record
  node : Node
  reached : Run (step hypot) (start params found) before node
  clock : Clock
  sha : String
  requestId : String
  resume : Bool
  accepted : began ⟨⟨clock, .start sha requestId resume⟩, (step hypot node ⟨clock, .start sha requestId resume⟩).2⟩ = true
  later : List Record
  final : Node
  goes : RunIf (step hypot) (Goes hypot) (step hypot node ⟨clock, .start sha requestId resume⟩).1 later final

namespace Execution

/-- The transitions and the point results, oldest first. -/
def told (e : Execution hypot) : List Output :=
  Node.told (step hypot e.node ⟨e.clock, .start e.sha e.requestId e.resume⟩).2.outputs ++ tells e.later

/-- How many points are resolved at its start. -/
def resolved (e : Execution hypot) : ℕ := (e.node.restored e.sha e.resume).2.length

def reported (e : Execution hypot) : List PointEvent := results e.told

/-- What it reported before it ended. -/
def reportedDriving (e : Execution hypot) : List PointEvent := driven e.told

theorem tracks (e : Execution hypot) : Tracks e.resolved (PlacedIn e.later) e.sha e.told e.final := by
  have begins : Tracks e.resolved (PlacedIn []) e.sha
      (Node.told (step hypot e.node ⟨e.clock, .start e.sha e.requestId e.resume⟩).2.outputs)
      (step hypot e.node ⟨e.clock, .start e.sha e.requestId e.resume⟩).1 := by
    rcases beginMission_cases { e.node with out := [] } e.clock e.sha e.requestId e.resume with ⟨refused, _⟩ | begins
    · have accepted : Node.begins ({ e.node with out := [] }.beginMission e.clock e.sha e.requestId e.resume).2 = true :=
        e.accepted
      rw [accepted] at refused
      cases refused
    · exact begins.tracks rfl
  exact begins.run e.goes

/-- `e'` is started from the progress that `e` left. -/
def Continues (e e' : Execution hypot) : Prop :=
  e'.sha = e.sha ∧ e'.resume = true ∧
    ∃ p, e.final.progress.lookup e.sha = some p ∧ p.complete = false ∧ e'.node.progress.lookup e'.sha = some p

/-- The points that `e` resolved while it drove are resolved when `e'` starts. -/
def Carries (e e' : Execution hypot) : Prop := e.resolved + e.reportedDriving.length ≤ e'.resolved

instance : IsTrans (Execution hypot) Carries where
  trans a b c first second := by
    unfold Carries at *
    omega

theorem Continues.carries {e e' : Execution hypot} (continues : Continues e e') : Carries e e' := by
  obtain ⟨_, resumes, p, left, resumable, found⟩ := continues
  refine (e.tracks.records p left).trans ?_
  rw [resolved, restored, resumes, if_pos rfl, found]
  simp [resumable]

/-- The results are those of the first points that were not resolved at the start. -/
theorem reported_indices (e : Execution hypot) :
    ∃ count, e.reported.map (·.pointIndex) = List.range' e.resolved count := by
  cases e.tracks.phase with
  | unplaced _ _ _ none => exact ⟨0, by rw [reported, none]; rfl⟩
  | driving _ _ _ _ _ _ _ _ _ indices => exact ⟨_, indices⟩
  | unopened _ _ none => exact ⟨0, by rw [reported, none]; rfl⟩
  | closed _ _ _ _ _ indices => exact ⟨_, indices⟩

theorem reported_resolved {e : Execution hypot} {ev : PointEvent} (member : ev ∈ e.reported) :
    e.resolved ≤ ev.pointIndex := by
  obtain ⟨count, indices⟩ := e.reported_indices
  have index : ev.pointIndex ∈ e.reported.map (·.pointIndex) := List.mem_map_of_mem member
  rw [indices, List.mem_range'_1] at index
  exact index.1

theorem driving_resolved {e : Execution hypot} {ev : PointEvent} (member : ev ∈ e.reportedDriving) :
    ev.pointIndex < e.resolved + e.reportedDriving.length := by
  obtain ⟨count, indices⟩ := e.reported_indices
  have first : e.reportedDriving.map (·.pointIndex) <+: List.range' e.resolved count := by
    rw [← indices]
    exact (driven_within e.told).map _
  have exact_ : e.reportedDriving.map (·.pointIndex) = List.range' e.resolved e.reportedDriving.length := by
    have shorter := first.length_le
    rw [List.length_map, List.length_range'] at shorter
    rw [List.prefix_iff_eq_take.mp first, List.length_map, List.take_range'_of_length_ge shorter]
  have index : ev.pointIndex ∈ e.reportedDriving.map (·.pointIndex) := List.mem_map_of_mem member
  rw [exact_, List.mem_range'_1] at index
  exact index.2

end Execution

open Execution in
/-- Over every chain of executions that resume one another: a point reported while an execution drove is not reported by a
later one, and an execution that has ended either never had its path placed and reported nothing, or reported each point
that was not resolved at its start exactly once. -/
theorem points_once (chain : List (Execution hypot)) (linked : chain.IsChain Continues) :
    (chain.Pairwise fun e e' => ∀ ev ∈ e.reportedDriving, ∀ ev' ∈ e'.reported, ev'.pointIndex ≠ ev.pointIndex) ∧
      ∀ e ∈ chain, e.final.fsm.terminal = true →
        (e.reported = [] ∧ ∀ o ∈ e.told, places o = false) ∨
          ∃ r, PlacedIn e.later r ∧ r.placement.ok = true ∧ r.stored = true ∧ e.resolved ≤ mustHits r ∧
            e.reported.map (·.pointIndex) = List.range' e.resolved (mustHits r - e.resolved) := by
  constructor
  · have carried : chain.IsChain Carries := linked.imp fun _ _ continues => continues.carries
    refine (List.isChain_iff_pairwise.mp carried).imp ?_
    intro e e' carries ev driven ev' reported same
    have before := driving_resolved driven
    have after := reported_resolved reported
    unfold Carries at carries
    omega
  · intro e _ ended
    cases e.tracks.phase with
    | unplaced at_ => rw [unplaced_active at_] at ended; cases ended
    | driving active => rw [active] at ended; cases ended
    | unopened _ _ none _ never => exact .inl ⟨none, never⟩
    | closed _ _ from_ ok fits indices => exact .inr ⟨_, from_, ok.1, ok.2, fits, indices⟩

/-! ### Two points on a line -/

instance (h : List Record) (n : Node) (i : Input) : Decidable (Goes hypot h n i) := inferInstanceAs (Decidable (_ = false))

/-- `std::hypot` of a vector along an axis. -/
def axisHypot (north east : Flt) : Flt := north.abs.max east.abs

/-- The execution that a start after the callbacks `before` begins, with the callbacks `later`. -/
def executionOf (before : List Input) (clock : Clock) (requestId : String) (resume : Bool) (later : List Input)
    (accepted : began ⟨⟨clock, .start someSha requestId resume⟩,
      (step axisHypot (exec (step axisHypot) [] (start Params.defaults []) before).2
        ⟨clock, .start someSha requestId resume⟩).2⟩ = true)
    (goes : Guarded (step axisHypot) (Goes axisHypot) []
      (step axisHypot (exec (step axisHypot) [] (start Params.defaults []) before).2
        ⟨clock, .start someSha requestId resume⟩).1 later) : Execution axisHypot where
  params := Params.defaults
  found := []
  before := (exec (step axisHypot) [] (start Params.defaults []) before).1
  node := (exec (step axisHypot) [] (start Params.defaults []) before).2
  reached := exec_run before .start
  clock
  sha := someSha
  requestId
  resume
  accepted
  later := _
  final := _
  goes := exec_runIf later goes .start

def twoPoints : List ArtifactPoint := [⟨.fin 0, .fin 0, 2⟩, ⟨.fin 5, .fin 0, 2⟩]

def readyAt (ms : ℤ) : List Input := [atMs ms (.gate ⟨false, gateArming, true, 0⟩), atMs ms (.vehicle {})]

/-- The path is loaded and placed. -/
def placesAt (ms : ℤ) : List Input :=
  [atMs (ms + 5) (.loadDone { ok := true, artifact := ⟨someSha, 1, "", "", twoPoints⟩ }), atMs (ms + 5) .workTimer,
    atMs (ms + 10) (.placeDone ⟨{ ok := true, execution := ⟨someSha, 1, "", "", twoPoints⟩ }, true, ""⟩),
    atMs (ms + 10) .workTimer]

def drivesTo (ms : ℤ) (north : ℚ) : Input := atMs ms (.vehicle { positionValid := true, north := .fin north })

/-- The mission runs and the rover stands on the first point. -/
def reachesFirst : List Input :=
  placesAt 0 ++ [atMs 20 (.px4Reply 1 true 0), atMs 30 (.px4Reply 2 true 0), atMs 40 (.gate ⟨true, 0, true, 0⟩),
    atMs 40 (.rpp ⟨1, rppLoaded, 0, false⟩), drivesTo 50 0]

/-- An abort and the release of the vehicle. -/
def released : List Input := [atMs 60 (.abort reasonOperator), atMs 70 (.px4Reply 3 true 0), atMs 80 (.px4Reply 4 true 0)]

/-- The callbacks of an execution with its start. -/
def whole (later : List Input) : List Input := readyAt 0 ++ atMs 0 (.start someSha "a" false) :: later

/-- The rover leaves the first point before the abort. -/
def passes : Execution axisHypot :=
  executionOf (readyAt 0) ⟨0, ""⟩ "a" false (reachesFirst ++ drivesTo 55 1 :: released) (by decide +kernel) (by decide +kernel)

def passesAgain : Execution axisHypot :=
  executionOf (whole (reachesFirst ++ drivesTo 55 1 :: released) ++ readyAt 100) ⟨100 * 10 ^ 6, ""⟩ "b" true
    (placesAt 100 ++ [atMs 120 (.abort reasonOperator)]) (by decide +kernel) (by decide +kernel)

/-- The first point is not reported again. -/
theorem passes_once :
    passes.reportedDriving.map (·.pointIndex) = [0] ∧ passesAgain.reported.map (·.pointIndex) = [1] ∧
      [passes, passesAgain].Pairwise fun e e' =>
        ∀ ev ∈ e.reportedDriving, ∀ ev' ∈ e'.reported, ev'.pointIndex ≠ ev.pointIndex := by
  refine ⟨by decide +kernel, by decide +kernel, (points_once [passes, passesAgain] ?_).1⟩
  refine .cons_cons ⟨rfl, rfl, ⟨someSha, 1, 0, 1, [0], "ABORTED", ""⟩, by decide +kernel, by decide +kernel, by decide +kernel⟩
    (.singleton _)

/-- The mission is aborted with the rover still on the first point. -/
def captures : Execution axisHypot :=
  executionOf (readyAt 0) ⟨0, ""⟩ "a" false (reachesFirst ++ released) (by decide +kernel) (by decide +kernel)

def capturesAgain : Execution axisHypot :=
  executionOf (whole (reachesFirst ++ released) ++ readyAt 100) ⟨100 * 10 ^ 6, ""⟩ "b" true
    (placesAt 100 ++ [atMs 120 (.abort reasonOperator)]) (by decide +kernel) (by decide +kernel)

/-- The mission is aborted in LOADING. -/
def unloaded : Execution axisHypot :=
  executionOf (readyAt 0) ⟨0, ""⟩ "a" false [atMs 5 (.abort reasonOperator)] (by decide +kernel) (by decide +kernel)

/-- A capture that the end cuts short is reported COMPLETED and again by the execution that resumes, and a mission that ends
before its path is placed reports no point. -/
theorem captures_twice :
    (Execution.Continues captures capturesAgain ∧
      (captures.reported.map fun ev => (ev.pointIndex, ev.outcome)) = [(0, .completed), (1, .failed)] ∧
      0 ∈ capturesAgain.reported.map (·.pointIndex)) ∧
    unloaded.final.fsm.terminal = true ∧ unloaded.resolved = 0 ∧ unloaded.reported = [] := by
  refine ⟨⟨⟨rfl, rfl, ⟨someSha, 1, 0, 0, [], "ABORTED", ""⟩, ?_, ?_, ?_⟩, ?_, ?_⟩, ?_, ?_, ?_⟩ <;> decide +kernel

end Node

end Dyx3.Mission
