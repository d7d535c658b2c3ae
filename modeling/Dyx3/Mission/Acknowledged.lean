import Dyx3.Mission.Running

/-!
Whether RPP acknowledged an execution before it drives. READY is left for RUNNING only by a status that shows the
path; but an EKF reset takes READY to PAUSED, and a resume from there asks only for a fresh status, of any state.
-/

namespace Dyx3.Mission

open Lib

namespace Node

/-- The mission `m` has entered `s`. -/
def Entered (s : State) (m : ℕ) (items : List Item) : Prop := ∃ t, .logged m t ∈ items ∧ Enters s t

/-- After the mission `m` entered READY a status of it came that shows that RPP holds its path. -/
def Acked (m : ℕ) (items : List Item) : Prop :=
  ∃ later i ans status before, items = later ++ .call i ans :: before ∧ i.event = .rpp status ∧ status.missionId = m ∧
    status.holdsPath = true ∧ Entered .ready m before

theorem Entered.cons {s : State} {m : ℕ} {items : List Item} (h : Entered s m items) (x : Item) :
    Entered s m (x :: items) := by
  obtain ⟨t, mem, enters⟩ := h
  exact ⟨t, List.mem_cons_of_mem x mem, enters⟩

theorem Acked.cons {m : ℕ} {items : List Item} (h : Acked m items) (x : Item) : Acked m (x :: items) := by
  obtain ⟨later, i, ans, status, before, rfl, rest⟩ := h
  exact ⟨x :: later, i, ans, status, before, rfl, rest⟩

theorem Acked.append {m : ℕ} {items : List Item} (h : Acked m items) (newer : List Item) : Acked m (newer ++ items) := by
  induction newer with
  | nil => exact h
  | cons x newer ih => exact ih.cons x

/-- The callers' promise: a resume call that finds a mission PAUSED that never was RUNNING comes after RPP showed its
path. -/
def ResumesAcked (h : List Record) (n : Node) (i : Input) : Prop :=
  i.event = .resume → n.fsm.state = .paused → ¬ Entered .running n.fsm.missionId (timeline h) →
    Acked n.fsm.missionId (timeline h)

/-- What the timeline shows of RPP's acknowledgement. -/
structure Acknowledged (items : List Item) (f : MissionFsm) : Prop where
  numbered : ∀ m t, .logged m t ∈ items → m ≤ f.missionId
  ready : f.state = .ready → Entered .ready f.missionId items
  driven : f.state = .running ∨ f.reengaging = true → Acked f.missionId items
  entered : ∀ later m t earlier, items = later ++ .logged m t :: earlier → Enters .running t → Acked m earlier

theorem Acknowledged.receive {items : List Item} {f : MissionFsm} (h : Acknowledged items f) (i : Input) (ans : Answer) :
    Acknowledged (.call i ans :: items) f := by
  refine ⟨fun m t mem => h.numbered m t (by simpa using mem), fun at_ => (h.ready at_).cons _,
    fun driven => (h.driven driven).cons _, ?_⟩
  intro later m t earlier split enters
  obtain ⟨later, rfl, rest⟩ := call_split split
  exact h.entered later m t earlier rest enters

/-- A mission that was RUNNING once is acknowledged. -/
theorem Acknowledged.of_running {items : List Item} {f : MissionFsm} {m : ℕ} (h : Acknowledged items f)
    (ran : Entered .running m items) : Acked m items := by
  obtain ⟨t, mem, enters⟩ := ran
  obtain ⟨later, earlier, rfl⟩ := List.append_of_mem mem
  exact ((h.entered later m t earlier rfl enters).cons _).append later

section

variable {i : Input} {ans : Answer} {k n : Node} {c : MissionFsm.Call} {h : List Record}

/-- A resume with its grounds comes after the acknowledgement. -/
theorem acked_resume (before : Acknowledged (timeline h) n.fsm) (guard : ResumesAcked h n i)
    (grounds : Grounds i ans n.fsm k c) (paused : k.fsm.state = .paused) (call : c = .resume true ∨ c = .reengage) :
    Acked k.fsm.missionId (noted (logs k.out) ++ .call i ans :: timeline h) := by
  have same : i.event = .resume ∧ k.fsm = n.fsm := by
    rcases call with rfl | rfl
    · exact ⟨grounds.1.1, grounds.1.2.1⟩
    · exact ⟨grounds.1, grounds.2.1⟩
  obtain ⟨event, fsm⟩ := same
  rw [fsm] at paused ⊢
  refine Acked.append (Acked.cons ?_ _) _
  by_cases ran : Entered .running n.fsm.missionId (timeline h)
  · exact before.of_running ran
  · exact guard event paused ran

/-- An event that enters RUNNING comes after the acknowledgement. -/
theorem acked_running (before : Acknowledged (timeline h) n.fsm) (guard : ResumesAcked h n i)
    (grounds : Grounds i ans n.fsm k c)
    (now : Acknowledged (noted (logs k.out) ++ .call i ans :: timeline h) k.fsm)
    (moves : MissionFsm.Moves k.fsm c .running) :
    Acked k.fsm.missionId (noted (logs k.out) ++ .call i ans :: timeline h) := by
  cases moves with
  | rppAck at_ =>
    obtain ⟨⟨⟨status, event, mine, holds⟩, fsm, clean⟩, -⟩ := grounds
    rw [clean]
    refine ⟨[], i, ans, status, timeline h, rfl, event, mine, holds, ?_⟩
    rw [fsm] at at_ ⊢
    exact before.ready at_
  | resume at_ => exact acked_resume before guard grounds at_ (.inl rfl)
  | reengaged at_ again => exact now.driven (.inr again)

theorem Acknowledged.fire (before : Acknowledged (timeline h) n.fsm) (guard : ResumesAcked h n i)
    (grounds : Grounds i ans n.fsm k c)
    (now : Acknowledged (noted (logs k.out) ++ .call i ans :: timeline h) k.fsm) :
    Acknowledged (.logged (k.fsm.call i.clock.steady c).fsm.missionId (k.fsm.call i.clock.steady c).logged ::
      (noted (logs k.out) ++ .call i ans :: timeline h)) (k.fsm.call i.clock.steady c).fsm := by
  have numbered : ∀ m t, .logged m t ∈ Item.logged (k.fsm.call i.clock.steady c).fsm.missionId
      (k.fsm.call i.clock.steady c).logged :: (noted (logs k.out) ++ .call i ans :: timeline h) →
      m ≤ (k.fsm.call i.clock.steady c).fsm.missionId := by
    intro m t mem
    rcases List.mem_cons.mp mem with same | old
    · obtain ⟨rfl, -⟩ := Item.logged.inj same
      exact le_rfl
    · exact (now.numbered m t old).trans (call_missionId _ _ c)
  rcases MissionFsm.call_cases k.fsm i.clock.steady c with stays | goes
  · have still : ∀ s, ¬ Enters s (k.fsm.call i.clock.steady c).logged := fun s enters =>
      enters.2 (stays.src.trans (stays.dst.symm.trans enters.1))
    refine ⟨numbered, ?_, ?_, ?_⟩
    · rw [stays.state, stays.missionId]
      exact fun at_ => (now.ready at_).cons _
    · rw [stays.state, stays.missionId, stays.reengaging]
      exact fun driven => (now.driven driven).cons _
    · intro later m t earlier split enters
      rcases logged_split split with ⟨-, -, rfl, -⟩ | ⟨later, rfl, rest⟩
      · exact absurd enters (still _)
      · exact now.entered later m t earlier rest enters
  · have same : (k.fsm.call i.clock.steady c).fsm.state ≠ .loading →
        (k.fsm.call i.clock.steady c).fsm.missionId = k.fsm.missionId := by
      intro other
      rw [goes.missionId, if_neg]
      rintro rfl
      exact other goes.moves.of_start
    have running : (k.fsm.call i.clock.steady c).fsm.state = .running →
        Acked k.fsm.missionId (noted (logs k.out) ++ .call i ans :: timeline h) := by
      intro at_
      exact acked_running before guard grounds now (at_ ▸ goes.moves)
    refine ⟨numbered, ?_, ?_, ?_⟩
    · intro at_
      refine ⟨_, List.mem_cons_self, goes.dst.trans at_, ?_⟩
      have moves := at_ ▸ goes.moves
      rw [goes.src]
      cases moves with
      | engaged from_ => simp [from_]
    · rintro (at_ | again)
      · rw [same (by simp [at_])]
        exact (running at_).cons _
      · obtain ⟨cause, at_⟩ := goes.reengaging again
        rw [same (by rcases at_ with at_ | at_ <;> simp [at_])]
        rcases cause with again | rfl
        · exact (now.driven (.inr again)).cons _
        · exact (acked_resume before guard grounds goes.moves.of_reengage (.inr rfl)).cons _
    · intro later m t earlier split enters
      rcases logged_split split with ⟨-, rfl, rfl, rfl⟩ | ⟨later, rfl, rest⟩
      · have at_ := goes.dst.symm.trans enters.1
        rw [same (by simp [at_])]
        exact running at_
      · exact now.entered later m t earlier rest enters

end

/-- In every run whose resume calls keep the promise, RPP showed its path between READY and any RUNNING. -/
theorem running_acked {hypot : Flt → Flt → Flt} {ps : Params} {progress : List (String × MissionProgress)}
    {h : List Record} {n : Node} (run : RunIf (step hypot) ResumesAcked (start ps progress) h n) :
    ∀ later m t earlier, timeline h = later ++ .logged m t :: earlier → Enters .running t → Acked m earlier := by
  have begins : Acknowledged [] (start ps progress).fsm := ⟨by simp, by simp [start], by simp [start], by simp⟩
  have kept : Acknowledged (timeline h) n.fsm := by
    refine timeline_invariant run Acknowledged begins (fun _ _ i ans h => h.receive i ans) ?_
    intro h n i ans k c before guard grounds now
    exact before.fire guard grounds now
  exact kept.entered

/-! ### A resume that RPP never acknowledged -/

def Item.showsPath : Item → Bool
  | .call ⟨_, .rpp status⟩ _ => status.holdsPath
  | _ => false

theorem Acked.shown {m : ℕ} {items : List Item} (h : Acked m items) : ∃ x ∈ items, x.showsPath = true := by
  obtain ⟨later, ⟨t, _⟩, ans, status, before, rfl, rfl, -, holds, -⟩ := h
  exact ⟨_, List.mem_append_right later List.mem_cons_self, holds⟩

/-- READY, the EKF resets, RPP reports IDLE, and the operator resumes. -/
def resumesUnseen : List Input :=
  engages ++ [atMs 40 (.gate ⟨true, 0, true, 0⟩), atMs 50 (.vehicle { xyResetCounter := 1 }),
    atMs 60 (.rpp ⟨1, rppIdle, 0, false⟩), atMs 70 .resume]

/-- It drives, and no status showed that RPP holds its path. -/
theorem running_unacked : ¬ ∀ h n, Run (step fun north _ => north) (start Params.defaults []) h n →
    ∀ later m t earlier, timeline h = later ++ .logged m t :: earlier → Enters .running t →
      (∀ p, .logged m p ∈ earlier → ¬ Enters .running p) → Acked m earlier := by
  intro claim
  let t : Transition := ⟨7, .paused, .running, .resume, 0, false, .none, "operator resume", 70000000⟩
  have split : timeline (defaultRun resumesUnseen).1 =
      [] ++ .logged 1 t :: (timeline (defaultRun resumesUnseen).1).tail := by decide +kernel
  have first : ∀ p, .logged 1 p ∈ (timeline (defaultRun resumesUnseen).1).tail → ¬ Enters .running p := by
    have others : (timeline (defaultRun resumesUnseen).1).tail.all (fun x => match x with
        | .logged _ p => p.dst ≠ .running
        | .call _ _ => true) = true := by decide +kernel
    intro p mem enters
    exact of_decide_eq_true (List.all_eq_true.mp others _ mem) enters.1
  have unseen : (timeline (defaultRun resumesUnseen).1).tail.all (fun x => !x.showsPath) = true := by decide +kernel
  obtain ⟨x, mem, shows⟩ :=
    (claim _ _ (exec_run resumesUnseen .start) [] 1 t _ split (by decide) first).shown
  simpa [shows] using List.all_eq_true.mp unseen x mem

theorem guarded_of_no_resume {hypot : Flt → Flt → Flt} {events : List Input} (none : ∀ i ∈ events, i.event ≠ .resume)
    (h : List Record) (n : Node) : Guarded (step hypot) ResumesAcked h n events := by
  induction events generalizing h n with
  | nil => trivial
  | cons i events ih =>
    exact ⟨fun event => absurd event (none i List.mem_cons_self),
      ih (fun j mem => none j (List.mem_cons_of_mem i mem)) _ _⟩

/-- READY, the EKF resets, and RPP shows its path. -/
def pausedSeen : List Input :=
  engages ++ [atMs 40 (.gate ⟨true, 0, true, 0⟩), atMs 50 (.vehicle { xyResetCounter := 1 }),
    atMs 60 (.rpp ⟨1, rppLoaded, 0, false⟩)]

/-- The operator then resumes. -/
theorem pausedSeen_acked : ∃ t earlier,
    timeline (defaultRun (pausedSeen ++ [atMs 70 .resume])).1 = .logged 1 t :: earlier ∧ Enters .running t ∧
      Acked 1 earlier := by
  have run : RunIf (step fun north _ => north) ResumesAcked (start Params.defaults []) (defaultRun pausedSeen).1
      (defaultRun pausedSeen).2 :=
    exec_runIf pausedSeen (guarded_of_no_resume (by decide +kernel) _ _) .start
  have shown : timeline (defaultRun pausedSeen).1 = [] ++ .call (atMs 60 (.rpp ⟨1, rppLoaded, 0, false⟩)) .none ::
      (timeline (defaultRun pausedSeen).1).tail := by decide +kernel
  have ready : Item.logged 1 ⟨5, .engaging, .ready, .engaged, 0, false, .none, "set_offboard(true) ok", 30000000⟩ ∈
      (timeline (defaultRun pausedSeen).1).tail := by decide +kernel
  have number : (defaultRun pausedSeen).2.fsm.missionId = 1 := by decide +kernel
  have guard : ResumesAcked (defaultRun pausedSeen).1 (defaultRun pausedSeen).2 (atMs 70 .resume) := by
    rintro - - -
    rw [number]
    exact ⟨_, _, _, _, _, shown, rfl, rfl, rfl, _, ready, by decide⟩
  let t : Transition := ⟨7, .paused, .running, .resume, 0, false, .none, "operator resume", 70000000⟩
  have split : timeline (defaultRun (pausedSeen ++ [atMs 70 .resume])).1 =
      .logged 1 t :: (timeline (defaultRun (pausedSeen ++ [atMs 70 .resume])).1).tail := by decide +kernel
  have resumed := runIf_concat run guard
  exact ⟨t, _, split, by decide, running_acked resumed [] 1 t _ split (by decide)⟩

end Node

end Dyx3.Mission
