import Dyx3.Lib.Run
import Dyx3.Mission.Callbacks

/-!
When the mission node enters RUNNING. The timeline of a run lists, newest first, every callback and every
transition the state machine logged in it.
-/

namespace Dyx3.Mission

open Lib

namespace Node

/-- A callback comes before the transitions it makes; its answer is the one it gives when it ends. -/
inductive Item where
  | call (i : Input) (answer : Answer)
  | logged (missionId : ℕ) (t : Transition)
  deriving DecidableEq

abbrev Record := Entry Input Reply

def noted (logs : List (ℕ × Transition)) : List Item := logs.reverse.map fun x => .logged x.1 x.2

def timeline (h : List Record) : List Item :=
  h.flatMap fun x => noted (logs x.out.outputs) ++ [.call x.event x.out.answer]

theorem timeline_cons (x : Record) (h : List Record) :
    timeline (x :: h) = noted (logs x.out.outputs) ++ .call x.event x.out.answer :: timeline h := by
  simp [timeline]

/-- The newest transition; it shows the mission and its state. -/
def latest : List Item → Option (ℕ × Transition)
  | [] => none
  | .call _ _ :: items => latest items
  | .logged m t :: _ => some (m, t)

/-- The transition enters `s`. -/
def Enters (s : State) (t : Transition) : Prop := t.dst = s ∧ t.src ≠ s

/-- The mission `m` is PAUSED where the timeline ends. -/
def PausedAt (m : ℕ) (items : List Item) : Prop := ∃ t, latest items = some (m, t) ∧ t.dst = .paused

instance (s : State) (t : Transition) : Decidable (Enters s t) := inferInstanceAs (Decidable (_ ∧ _))

section

variable {i : Input} {ans : Answer} {f₀ : MissionFsm}

/-- What a callback keeps: what every event with its grounds keeps. -/
theorem Fires.keeps {P : List Item → MissionFsm → Prop} {past : List Item} {n n' : Node} (fires : Fires i ans f₀ n n')
    (keep : ∀ k c, Grounds i ans f₀ k c → P (noted (logs k.out) ++ past) k.fsm →
      P (.logged (k.fsm.call i.clock.steady c).fsm.missionId (k.fsm.call i.clock.steady c).logged ::
        (noted (logs k.out) ++ past)) (k.fsm.call i.clock.steady c).fsm)
    (start : P (noted (logs n.out) ++ past) n.fsm) : P (noted (logs n'.out) ++ past) n'.fsm := by
  induction fires with
  | quiet same =>
    rw [same.logs, same.fsm]
    exact start
  | @fire k c grounds =>
    obtain ⟨fsm, logs, -, -⟩ := fire_spec k i.clock c
    rw [logs, fsm]
    simpa [noted] using keep k c grounds start
  | trans _ _ first second => exact second (first start)

end

theorem step_fires (hypot : Flt → Flt → Flt) (n : Node) (i : Input) (other : ∀ ps, i.event ≠ .parameters ps) :
    Fires i (step hypot n i).2.answer n.fsm (received { n with out := [] } i) (step hypot n i).1 :=
  handle_fires hypot (n := { n with out := [] }) rfl i other

theorem step_parameters (hypot : Flt → Flt → Flt) (n : Node) {i : Input} {ps : List (String × ParamValue)}
    (event : i.event = .parameters ps) :
    (step hypot n i).1.fsm = n.fsm ∧ (step hypot n i).1.out = [] := by
  obtain ⟨t, e⟩ := i
  obtain rfl : e = .parameters ps := event
  exact onParameters_fsm { n with out := [] } ps

theorem received_same (n : Node) (i : Input) :
    (received { n with out := [] } i).fsm = n.fsm ∧ (received { n with out := [] } i).out = [] := by
  unfold received
  split
  · exact ⟨rfl, rfl⟩
  · exact ⟨rfl, rfl⟩

variable {hypot : Flt → Flt → Flt}

/-- The invariant rule: a callback is received, and then every event with its grounds keeps what is claimed. -/
theorem timeline_invariant {ok : List Record → Node → Input → Prop} {n₀ n : Node} {h : List Record}
    (run : RunIf (step hypot) ok n₀ h n) (P : List Item → MissionFsm → Prop) (start : P [] n₀.fsm)
    (receive : ∀ items f i ans, P items f → P (.call i ans :: items) f)
    (keep : ∀ h n i ans k c, P (timeline h) n.fsm → ok h n i → Grounds i ans n.fsm k c →
      P (noted (logs k.out) ++ .call i ans :: timeline h) k.fsm →
      P (.logged (k.fsm.call i.clock.steady c).fsm.missionId (k.fsm.call i.clock.steady c).logged ::
        (noted (logs k.out) ++ .call i ans :: timeline h)) (k.fsm.call i.clock.steady c).fsm) :
    P (timeline h) n.fsm := by
  refine run.invariant (fun h n => P (timeline h) n.fsm) start ?_
  intro h n i inv guard
  have received := receive (timeline h) n.fsm i (step hypot n i).2.answer inv
  rw [timeline_cons]
  show P (noted (logs (step hypot n i).1.out) ++ _) _
  by_cases parameters : ∃ ps, i.event = .parameters ps
  · obtain ⟨ps, event⟩ := parameters
    obtain ⟨fsm, out⟩ := step_parameters hypot n event
    rw [fsm, out]
    exact received
  · refine (step_fires hypot n i fun ps event => parameters ⟨ps, event⟩).keeps (fun k c => keep h n i _ k c inv guard) ?_
    obtain ⟨fsm, out⟩ := received_same n i
    rw [fsm, out]
    exact received

/-! ### The full gate -/

/-- An event that enters RUNNING has the full gate among its grounds. -/
theorem grounds_gate {i : Input} {ans : Answer} {f₀ : MissionFsm} {k : Node} {c : MissionFsm.Call}
    (grounds : Grounds i ans f₀ k c) (enters : Enters .running (k.fsm.call i.clock.steady c).logged) :
    (k.gateOk i.clock).1 = true := by
  rcases MissionFsm.call_cases k.fsm i.clock.steady c with stays | goes
  · exact absurd (stays.src.trans (stays.dst.symm.trans enters.1)) enters.2
  · have moves := goes.moves
    rw [← goes.dst, enters.1] at moves
    cases moves with
    | rppAck => exact grounds.2
    | resume => exact grounds.2
    | reengaged => exact grounds

theorem running_gated (n : Node) (i : Input) :
    ∀ x ∈ logs (step hypot n i).2.outputs, Enters .running x.2 → ((step hypot n i).1.gateOk i.clock).1 = true := by
  by_cases parameters : ∃ ps, i.event = .parameters ps
  · obtain ⟨ps, event⟩ := parameters
    show ∀ x ∈ logs (step hypot n i).1.out, _
    rw [(step_parameters hypot n event).2]
    exact fun _ mem => absurd mem List.not_mem_nil
  · have fires := step_fires hypot n i fun ps event => parameters ⟨ps, event⟩
    have kept : ∀ {a b : Node}, Fires i (step hypot n i).2.answer n.fsm a b →
        (∀ x ∈ logs a.out, Enters .running x.2 → (a.gateOk i.clock).1 = true) →
        ∀ x ∈ logs b.out, Enters .running x.2 → (b.gateOk i.clock).1 = true := by
      intro a b fires
      induction fires with
      | quiet same =>
        rw [same.logs, gateOk_congr same.gate same.params]
        exact id
      | @fire k c grounds =>
        intro before x mem enters
        obtain ⟨-, logs, gate, params⟩ := fire_spec k i.clock c
        rw [gateOk_congr gate params]
        rw [logs, List.mem_append, List.mem_singleton] at mem
        rcases mem with old | rfl
        · exact before x old enters
        · exact grounds_gate grounds enters
      | trans _ _ first second => exact fun before => second (first before)
    refine kept fires ?_
    rw [(received_same n i).2]
    exact fun _ mem => absurd mem List.not_mem_nil

/-! ### An operator's resume -/

/-- Where a transition stands in a timeline with one transition more. -/
theorem logged_split {m m' : ℕ} {t p : Transition} {items mid old : List Item}
    (split : Item.logged m t :: items = mid ++ .logged m' p :: old) :
    (mid = [] ∧ m = m' ∧ t = p ∧ items = old) ∨ ∃ mid', mid = .logged m t :: mid' ∧ items = mid' ++ .logged m' p :: old := by
  rcases cons_split split with ⟨rfl, same, rfl⟩ | ⟨mid', rfl, rest⟩
  · obtain ⟨rfl, rfl⟩ := Item.logged.inj same
    exact .inl ⟨rfl, rfl, rfl, rfl⟩
  · exact .inr ⟨mid', rfl, rest⟩

/-- A transition in a timeline with one callback more was there before. -/
theorem call_split {i : Input} {ans : Answer} {m : ℕ} {p : Transition} {items mid old : List Item}
    (split : Item.call i ans :: items = mid ++ .logged m p :: old) :
    ∃ mid', mid = .call i ans :: mid' ∧ items = mid' ++ .logged m p :: old := by
  rcases cons_split split with ⟨-, same, -⟩ | rest
  · cases same
  · exact rest

/-- A resume call among the entries `mid` was accepted, and it found the mission `m` PAUSED. -/
def Resumed (m : ℕ) (mid old : List Item) : Prop :=
  ∃ later i reason before, mid = later ++ .call i (.resume true reason) :: before ∧ i.event = .resume ∧
    PausedAt m (before ++ old)

theorem Resumed.cons {m : ℕ} {mid old : List Item} (h : Resumed m mid old) (x : Item) : Resumed m (x :: mid) old := by
  obtain ⟨later, i, reason, before, rfl, rest⟩ := h
  exact ⟨x :: later, i, reason, before, rfl, rest⟩

theorem Resumed.of_logged {m m' : ℕ} {t : Transition} {mid old : List Item} (h : Resumed m (.logged m' t :: mid) old) :
    Resumed m mid old := by
  obtain ⟨later, i, reason, before, split, rest⟩ := h
  cases later with
  | nil => cases split
  | cons x later => exact ⟨later, i, reason, before, (List.cons.inj split).2, rest⟩

/-- PAUSED or ended: without a resume the mission drives no more. -/
def Halted (f : MissionFsm) : Prop := f.state = .paused ∨ f.terminal = true

/-- Only a start or an operator's resume ends the halt. -/
theorem halted_moves {f : MissionFsm} {c : MissionFsm.Call} {dst : State} (halted : Halted f)
    (moves : MissionFsm.Moves f c dst) :
    c = .start true ∨ (f.state = .paused ∧ (c = .resume true ∨ c = .reengage)) ∨
      (dst = .paused ∨ dst = .aborted ∨ dst = .error) := by
  have still : f.state = .paused ∨ f.state = .completed ∨ f.state = .aborted ∨ f.state = .error := by
    rcases halted with paused | ended
    · exact .inl paused
    · simp only [MissionFsm.terminal, Bool.or_eq_true, decide_eq_true_eq, or_assoc] at ended
      exact .inr ended
  cases moves with
  | start => exact .inl rfl
  | resume at_ => exact .inr (.inl ⟨at_, .inl rfl⟩)
  | reengage at_ => exact .inr (.inl ⟨at_, .inr rfl⟩)
  | loaded at_ | placed at_ | armed at_ | engaged at_ | rppAck at_ | rppComplete at_ => simp [at_] at still
  | reengaged at_ => simp [at_] at still
  | _ => simp

/-- What the timeline says about a halt. -/
structure Halts (items : List Item) (f : MissionFsm) : Prop where
  numbered : ∀ m t, .logged m t ∈ items → m ≤ f.missionId
  shows : f.state = .idle ∨ ∃ t, latest items = some (f.missionId, t) ∧ t.dst = f.state
  held : ∀ mid p old, items = mid ++ .logged f.missionId p :: old → p.dst = .paused →
    Resumed f.missionId mid (.logged f.missionId p :: old) ∨ Halted f
  resumed : ∀ later m t mid p old, items = later ++ .logged m t :: (mid ++ .logged m p :: old) → p.dst = .paused →
    Enters .running t → Resumed m mid (.logged m p :: old)

theorem Halts.receive {items : List Item} {f : MissionFsm} (h : Halts items f) (i : Input) (ans : Answer) :
    Halts (.call i ans :: items) f := by
  refine ⟨fun m t mem => ?_, h.shows, fun mid p old split paused => ?_, ?_⟩
  · simpa using h.numbered m t (by simpa using mem)
  · obtain ⟨mid, rfl, rest⟩ := call_split split
    exact (h.held mid p old rest paused).imp_left fun resumed => resumed.cons _
  · intro later m t mid p old split paused enters
    obtain ⟨later, rfl, rest⟩ := call_split split
    exact h.resumed later m t mid p old rest paused enters

section

variable {i : Input} {ans : Answer} {k n : Node} {c : MissionFsm.Call} {h : List Record}

/-- A resume with its grounds: the callback is the resume call, and it found the mission PAUSED. -/
theorem resumed_now (before : Halts (timeline h) n.fsm) (grounds : Grounds i ans n.fsm k c)
    (paused : k.fsm.state = .paused) (call : c = .resume true ∨ c = .reengage) {mid old : List Item} {p : Transition}
    (split : noted (logs k.out) ++ .call i ans :: timeline h = mid ++ .logged k.fsm.missionId p :: old) :
    Resumed k.fsm.missionId mid (.logged k.fsm.missionId p :: old) := by
  have same : i.event = .resume ∧ k.fsm = n.fsm ∧ logs k.out = [] ∧
      (n.fsm.state = .paused → ∃ reason, ans = .resume true reason) := by
    rcases call with rfl | rfl
    · exact grounds.1
    · exact grounds
  obtain ⟨event, fsm, clean, accepted⟩ := same
  obtain ⟨reason, rfl⟩ := accepted (fsm ▸ paused)
  rw [clean] at split
  obtain ⟨mid, rfl, rest⟩ := call_split split
  refine ⟨[], i, reason, mid, rfl, event, ?_⟩
  rw [← rest, fsm]
  rcases before.shows with idle | ⟨t, latest, dst⟩
  · rw [← fsm, paused] at idle
    cases idle
  · exact ⟨t, latest, dst.trans (fsm ▸ paused)⟩

theorem Halts.fire_held (before : Halts (timeline h) n.fsm) (grounds : Grounds i ans n.fsm k c)
    (now : Halts (noted (logs k.out) ++ .call i ans :: timeline h) k.fsm) {mid old : List Item} {p : Transition}
    (split : .logged (k.fsm.call i.clock.steady c).fsm.missionId (k.fsm.call i.clock.steady c).logged ::
      (noted (logs k.out) ++ .call i ans :: timeline h) =
        mid ++ .logged (k.fsm.call i.clock.steady c).fsm.missionId p :: old)
    (paused : p.dst = .paused) :
    Resumed (k.fsm.call i.clock.steady c).fsm.missionId mid
        (.logged (k.fsm.call i.clock.steady c).fsm.missionId p :: old) ∨
      Halted (k.fsm.call i.clock.steady c).fsm := by
  rcases MissionFsm.call_cases k.fsm i.clock.steady c with stays | goes
  · rw [stays.missionId] at split ⊢
    rcases logged_split split with ⟨-, -, rfl, -⟩ | ⟨mid, rfl, rest⟩
    · exact .inr (.inl (stays.state.trans (stays.dst.symm.trans paused)))
    · rcases now.held mid p old rest paused with resumed | halted
      · exact .inl (resumed.cons _)
      · right
        simpa only [Halted, MissionFsm.terminal, stays.state] using halted
  · rcases logged_split split with ⟨-, -, rfl, -⟩ | ⟨mid, rfl, rest⟩
    · exact .inr (.inl (goes.dst.symm.trans paused))
    · have number := goes.missionId
      split at number
      · -- the new mission's number is not in the timeline yet
        have known := now.numbered _ p (rest ▸ List.mem_append_right mid List.mem_cons_self)
        omega
      case isFalse other =>
        rw [number] at rest ⊢
        rcases now.held mid p old rest paused with resumed | halted
        · exact .inl (resumed.cons _)
        · rcases halted_moves halted goes.moves with start | ⟨at_, call⟩ | ends
          · exact absurd start other
          · exact .inl ((resumed_now before grounds at_ call rest).cons _)
          · right
            rcases ends with dst | dst | dst
            · exact .inl dst
            · exact .inr (by simp [MissionFsm.terminal, dst])
            · exact .inr (by simp [MissionFsm.terminal, dst])

theorem call_missionId (f : MissionFsm) (now : ℤ) (c : MissionFsm.Call) :
    f.missionId ≤ (f.call now c).fsm.missionId := by
  rcases MissionFsm.call_cases f now c with stays | goes
  · exact stays.missionId.ge
  · rw [goes.missionId]
    split
    · exact Nat.le_succ _
    · exact le_rfl

theorem Halts.fire (before : Halts (timeline h) n.fsm) (grounds : Grounds i ans n.fsm k c)
    (now : Halts (noted (logs k.out) ++ .call i ans :: timeline h) k.fsm) :
    Halts (.logged (k.fsm.call i.clock.steady c).fsm.missionId (k.fsm.call i.clock.steady c).logged ::
      (noted (logs k.out) ++ .call i ans :: timeline h)) (k.fsm.call i.clock.steady c).fsm := by
  refine ⟨?_, .inr ⟨_, rfl, ?_⟩, fun mid p old => fire_held before grounds now, ?_⟩
  · intro m t mem
    rcases List.mem_cons.mp mem with same | old
    · obtain ⟨rfl, -⟩ := Item.logged.inj same
      exact le_rfl
    · exact (now.numbered m t old).trans (call_missionId _ _ c)
  · rcases MissionFsm.call_cases k.fsm i.clock.steady c with stays | goes
    · rw [stays.dst, stays.state]
    · exact goes.dst
  · intro later m t mid p old split paused enters
    rcases logged_split split with ⟨-, rfl, rfl, rest⟩ | ⟨later, rfl, rest⟩
    · rcases fire_held before grounds now (by rw [rest]; rfl : _ = (.logged _ _ :: mid) ++ _) paused with
        resumed | halted
      · exact resumed.of_logged
      · rcases MissionFsm.call_cases k.fsm i.clock.steady c with stays | goes
        · exact absurd (stays.src.trans (stays.dst.symm.trans enters.1)) enters.2
        · have running := goes.dst.symm.trans enters.1
          rcases halted with paused | ended
          · rw [running] at paused
            cases paused
          · simp [MissionFsm.terminal, running] at ended
    · exact now.resumed later m t mid p old rest paused enters

end

theorem halts_run {ps : Params} {progress : List (String × MissionProgress)} {h : List Record} {n : Node}
    (run : Run (step hypot) (start ps progress) h n) : Halts (timeline h) n.fsm := by
  have begins : Halts [] (start ps progress).fsm :=
    ⟨by simp, .inl rfl, by simp, by simp⟩
  refine timeline_invariant run Halts begins (fun _ _ i ans h => h.receive i ans) ?_
  intro h n i ans k c before _ grounds now
  exact before.fire grounds now

/-- RUNNING is entered only with the full gate, and never again after a PAUSED without an operator's resume that
was accepted in PAUSED. -/
theorem running_gated_resumed {ps : Params} {progress : List (String × MissionProgress)} {h : List Record} {n : Node}
    (run : Run (step hypot) (start ps progress) h n) :
    (∀ i, ∀ x ∈ logs (step hypot n i).2.outputs, Enters .running x.2 → ((step hypot n i).1.gateOk i.clock).1 = true) ∧
      ∀ later m t mid p old, timeline h = later ++ .logged m t :: (mid ++ .logged m p :: old) → p.dst = .paused →
        Enters .running t → Resumed m mid (.logged m p :: old) :=
  ⟨fun i => running_gated n i, (halts_run run).resumed⟩

/-! ### A re-engage -/

def atMs (ms : ℤ) (event : Event) : Input := ⟨⟨ms * 10 ^ 6, ""⟩, event⟩

def someSha : String := "0123456789abcdef0123456789abcdef0123456789abcdef0123456789abcdef"

/-- A mission started, placed, armed and engaged: it is READY. -/
def engages : List Input :=
  [atMs 0 (.gate ⟨false, gateArming, true, 0⟩), atMs 0 (.vehicle {}), atMs 0 (.start someSha "r1" false),
    atMs 5 (.loadDone { ok := true, artifact := ⟨someSha, 1, "", "", []⟩ }), atMs 5 .workTimer,
    atMs 10 (.placeDone ⟨{ ok := true, execution := ⟨someSha, 1, "", "", []⟩ }, true, ""⟩), atMs 10 .workTimer,
    atMs 20 (.px4Reply 1 true 0), atMs 30 (.px4Reply 2 true 0)]

/-- It runs and is paused; the vehicle is disarmed, and the operator resumes. -/
def rearms : List Input :=
  engages ++ [atMs 40 (.gate ⟨true, 0, true, 0⟩), atMs 40 (.rpp ⟨1, rppLoaded, 0, false⟩), atMs 50 .pause,
    atMs 60 (.gate ⟨false, gateArming, true, 0⟩), atMs 70 .resume, atMs 80 (.px4Reply 3 true 0),
    atMs 90 (.px4Reply 4 true 0), atMs 100 (.gate ⟨true, 0, true, 0⟩)]

def defaultRun (events : List Input) : List Record × Node :=
  exec (step fun north _ => north) [] (start Params.defaults []) events

theorem rearms_resumed : ∃ t mid p old,
    timeline (defaultRun rearms).1 = .logged 1 t :: (mid ++ .logged 1 p :: old) ∧ p.dst = .paused ∧
      Enters .running t ∧ Resumed 1 mid (.logged 1 p :: old) := by
  let t : Transition :=
    ⟨11, .engaging, .running, .reengaged, 0, false, .none, "re-engaged: armed and OFFBOARD", 100000000⟩
  let p : Transition := ⟨7, .running, .paused, .pause, 1, false, .none, "operator pause", 50000000⟩
  let mid := (timeline (defaultRun rearms).1).tail.take 8
  let old := (timeline (defaultRun rearms).1).drop 10
  have split : timeline (defaultRun rearms).1 = .logged 1 t :: (mid ++ .logged 1 p :: old) := by decide +kernel
  have enters : Enters .running t := by decide
  exact ⟨t, mid, p, old, split, rfl, enters,
    (running_gated_resumed (exec_run rearms .start)).2 [] 1 t mid p old split rfl enters⟩

end Node

end Dyx3.Mission
