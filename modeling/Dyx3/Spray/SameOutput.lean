import Dyx3.Spray.Node

/-!
An OFF closes the valve that was opened. The payload of a command is read when it is published, so the property ties
the commanded ON to the parameters: the backend and the servo never change at runtime, the actuator index may change
whenever no mission is running, and then a bench ON may still be commanded.
-/

namespace Dyx3.Spray

open Lib Px4Link

/-- The physical output a command names: the backend and its own index. -/
def output (c : SprayActuatorCommand) : Nat × Nat :=
  (c.backend, if c.backend = backendActuator then c.actuatorSetIndex else c.servoInstance)

/-- No OFF of its output has followed the ON `on`. -/
def StillOpen (between : List SprayActuatorCommand) (on : SprayActuatorCommand) : Prop :=
  on.on = true ∧ ∀ x ∈ between, x.on = false → output x ≠ output on

/-- Every OFF after an ON names the ON's output, until an OFF for that output has been published. -/
def ClosesWhatItOpened (published : List SprayActuatorCommand) : Prop :=
  ∀ later off between on older, published = later ++ off :: (between ++ on :: older) → off.on = false →
    StillOpen between on → output off = output on

/-- The outputs of the ONs that are still open. -/
def OnlyOpen (o : Nat × Nat) (published : List SprayActuatorCommand) : Prop :=
  ∀ between on older, published = between ++ on :: older → StillOpen between on → output on = o

variable {o : Nat × Nat} {c : SprayActuatorCommand} {published : List SprayActuatorCommand}

theorem StillOpen.tail {between : List SprayActuatorCommand} {on : SprayActuatorCommand}
    (open_ : StillOpen (c :: between) on) : StillOpen between on :=
  ⟨open_.1, fun x member => open_.2 x (List.mem_cons_of_mem c member)⟩

theorem ClosesWhatItOpened.on (closes : ClosesWhatItOpened published) (on : c.on = true) :
    ClosesWhatItOpened (c :: published) := by
  intro later off between x older same closed open_
  rcases cons_split same with ⟨_, rfl, _⟩ | ⟨later, rfl, rest⟩
  · rw [on] at closed
    cases closed
  · exact closes later off between x older rest closed open_

theorem ClosesWhatItOpened.off (closes : ClosesWhatItOpened published) (only : OnlyOpen (output c) published) :
    ClosesWhatItOpened (c :: published) := by
  intro later off between x older same closed open_
  rcases cons_split same with ⟨_, rfl, rest⟩ | ⟨later, rfl, rest⟩
  · exact (only between x older rest open_).symm
  · exact closes later off between x older rest closed open_

theorem OnlyOpen.on (only : OnlyOpen (output c) published) : OnlyOpen (output c) (c :: published) := by
  intro between x older same open_
  rcases cons_split same with ⟨_, rfl, _⟩ | ⟨between, rfl, rest⟩
  · rfl
  · exact only between x older rest open_.tail

/-- After an OFF of the only open output nothing is open. -/
theorem OnlyOpen.off (only : OnlyOpen (output c) published) (off : c.on = false) : OnlyOpen o (c :: published) := by
  intro between x older same open_
  rcases cons_split same with ⟨_, rfl, _⟩ | ⟨between, rfl, rest⟩
  · have on := open_.1
    rw [off] at on
    cases on
  · exact absurd (only between x older rest open_.tail).symm (open_.2 c List.mem_cons_self off)

namespace Node

/-- The output that the parameters map. -/
def mapped (p : ParamSet) : Nat × Nat :=
  let backend := (Controller.backend p % 2 ^ 8).toNat
  (backend, if backend = backendActuator then (p.integer .actuatorSetIndex % 2 ^ 8).toNat
    else (p.integer .servoInstance % 2 ^ 8).toNat)

theorem command_output (s : Node) (seq : Nat) (on : Bool) : output (s.command seq on) = mapped s.params := rfl

/-- While an ON is commanded, the mapped output is the only one that can be open; otherwise none is. -/
structure Held (s : Node) : Prop where
  closes : ClosesWhatItOpened s.published
  commanded : s.ctl.fsm.commanded = true → OnlyOpen (mapped s.params) s.published
  closed : s.ctl.fsm.commanded = false → ∀ o, OnlyOpen o s.published

variable {s t : Node}

/-- Nothing is published and neither the machine's output nor the mapping changes. -/
theorem Held.still (held : Held s) (published : t.published = s.published)
    (fsm : t.ctl.fsm.commanded = s.ctl.fsm.commanded)
    (params : s.ctl.fsm.commanded = true → mapped t.params = mapped s.params) : Held t := by
  refine ⟨published ▸ held.closes, ?_, ?_⟩
  · intro on
    rw [fsm] at on
    rw [published, params on]
    exact held.commanded on
  · intro off
    rw [fsm] at off
    rw [published]
    exact held.closed off

theorem Held.only (held : Held s) : OnlyOpen (mapped s.params) s.published := by
  cases on : s.ctl.fsm.commanded with
  | true => exact held.commanded on
  | false => exact held.closed on _

/-- A command is published by a node that stands by it. -/
theorem Held.publish (held : Held s) (published : t.published = s.published) (params : t.params = s.params) {on : Bool}
    (commanded : t.ctl.fsm.commanded = on) (seq : Nat) : Held (t.publishCommand seq on) := by
  have only : OnlyOpen (output (t.command seq on)) t.published := by
    rw [command_output, params, published]
    exact held.only
  have closes : ClosesWhatItOpened t.published := published ▸ held.closes
  cases on with
  | true =>
    refine ⟨closes.on rfl, fun _ => only.on, ?_⟩
    intro off
    have on : t.ctl.fsm.commanded = false := off
    rw [commanded] at on
    cases on
  | false => exact ⟨closes.off only, fun _ => only.off rfl, fun _ o => only.off rfl⟩

/-- A call of the state machine, and what it answers. -/
theorem Held.answer (held : Held s) {r : Controller × Option SprayCommand} (e : Fsm.Event)
    (fsm : r.1.fsm = (s.ctl.fsm.step {} e).1) (out : r.2 = (s.ctl.fsm.step {} e).2) : Held (s.answer r) := by
  obtain ⟨ctl, out'⟩ := r
  dsimp only at fsm out
  subst out
  unfold Node.answer
  dsimp only
  rcases Fsm.step_follows {} s.ctl.fsm e with ⟨c, emitted, _, _, commanded, _⟩ | ⟨quiet, _, commanded, _⟩
  · rw [emitted]
    refine held.publish ?_ ?_ ?_ c.seq
    · rfl
    · rfl
    · exact fsm ▸ commanded
  · rw [quiet]
    exact held.still rfl (fsm ▸ commanded) fun _ => rfl

theorem expireManual_fsm (p : ParamSet) (c : Controller) (now : ℚ) : (c.expireManual p now).fsm = c.fsm := by
  unfold Controller.expireManual
  split <;> rfl

theorem debounce_fsm (p : ParamSet) (c : Controller) (desired : Bool) : (c.debounce p desired).fsm = c.fsm := by
  unfold Controller.debounce
  dsimp only
  split
  · split <;> rfl
  · split <;> rfl

theorem setManual_fsm (p : ParamSet) (c : Controller) (on : Bool) (now : ℚ) : (c.setManual p on now).1.fsm = c.fsm := by
  unfold Controller.setManual
  dsimp only
  repeat' split
  all_goals rfl

theorem Held.reassert (held : Held s) (now : ℚ) : Held (s.reassert now) := by
  unfold Node.reassert
  dsimp only
  split
  · rename_i due
    have commanded := due.2.2
    simp only [Controller.reassertDue, Bool.and_eq_true] at commanded
    refine held.publish ?_ ?_ ?_ s.ctl.fsm.seq
    · rfl
    · rfl
    · exact commanded.1.2
  · exact held

theorem Held.step (held : Held s) (now : ℚ) (d : Decision) (flow : Option Flt) : Held (s.step now d flow) := by
  have ticked : Held (s.answer (s.ctl.tick s.params now d flow)) := by
    let c := ({ s.ctl.expireManual s.params now with
      lastTick := now, commandedFlow := flow, lastDecision := some d } : Controller).debounce s.params d.desired
    have same : c.fsm = s.ctl.fsm := by
      rw [debounce_fsm]
      exact expireManual_fsm s.params s.ctl now
    refine held.answer (.tick c.effectiveDesired (c.fsmSafetyOk s.params now).isNone (s.params.flag .sprayEnabled) now)
      ?_ ?_
    all_goals
      rw [← same]
      rfl
  exact ticked.reassert now

theorem noteEventReset_commanded (f : Fsm) (now : ℚ) : (f.noteEventReset now).commanded = f.commanded := by
  unfold Fsm.noteEventReset
  split <;> rfl

theorem Held.missionState (held : Held s) (phase : MissionPhase) (missionId : Nat) (sha : String) (loads : Bool) :
    Held (s.onMissionState phase missionId sha loads) := by
  have cleared := noteEventReset_commanded s.ctl.fsm s.ctl.lastTick
  unfold onMissionState clearPath loadArtifact
  dsimp only
  repeat' split
  all_goals first
    | exact held.still rfl cleared fun _ => rfl
    | exact held.still rfl rfl fun _ => rfl

theorem Held.rppStatus (held : Held s) (state : RppState) (missionId : Nat) (sha : String) (loads : Bool) (now : ℚ) :
    Held (s.onRppStatus state missionId sha loads now) := by
  unfold onRppStatus loadArtifact
  dsimp only
  split
  · exact held.still rfl (noteEventReset_commanded s.ctl.fsm s.ctl.lastTick) fun _ => rfl
  · exact held.still rfl rfl fun _ => rfl

/-- While an ON is commanded through the actuator backend and no mission runs, no accepted batch moves the index. -/
def Untouched (s : Node) : Event → Prop
  | .setParameters items => s.ctl.fsm.commanded = true → s.missionRunning = false →
      s.params.str .actuatorBackend = "mavlink_actuator" → (s.onSetParameters items).isOk = true →
      ∀ it ∈ items, it.name = "actuator_set_index" → it.num = s.params.num .actuatorSetIndex
  | _ => True

theorem onSetParameters_accepted {items : List Item} {q : ParamSet} (accepted : s.onSetParameters items = .ok q) :
    s.params.setMany (items.filter fun it => it.name ≠ "use_sim_time") s.missionRunning = .ok q := by
  unfold onSetParameters at accepted
  dsimp only at accepted
  split at accepted
  · cases accepted
  · exact accepted

/-- The backend and the servo are fixed at runtime, and the index while a mission runs. -/
theorem mapped_accepted {items : List Item} {q : ParamSet} (accepted : s.onSetParameters items = .ok q)
    (untouched : s.Untouched (.setParameters items)) (commanded : s.ctl.fsm.commanded = true) :
    mapped q = mapped s.params := by
  have applied := onSetParameters_accepted accepted
  have backend : Controller.backend q = Controller.backend s.params := by
    have same : q.str .actuatorBackend = s.params.str .actuatorBackend := (ParamSet.setMany_restart applied rfl).2
    simp [Controller.backend, same]
  have servo : q.integer .servoInstance = s.params.integer .servoInstance := by
    have same : q.num .servoInstance = s.params.num .servoInstance := (ParamSet.setMany_restart applied rfl).1
    simp [ParamSet.integer, same]
  by_cases actuator : s.params.str .actuatorBackend = "mavlink_actuator"
  · have index : q.num .actuatorSetIndex = s.params.num .actuatorSetIndex := by
      rcases ParamSet.apply_origin applied .actuatorSetIndex with same | ⟨it, member, name, allowed, num, _⟩
      · exact same.1
      · cases running : s.missionRunning with
        | true => simp [ParamSet.classRule, running, descriptor] at allowed
        | false =>
          rw [num]
          exact untouched commanded running actuator (by rw [accepted]; rfl) it (List.mem_filter.mp member).1 name
    have same : q.integer .actuatorSetIndex = s.params.integer .actuatorSetIndex := by simp [ParamSet.integer, index]
    simp only [mapped, backend, servo, same]
  · have other : Controller.backend s.params = 1 := by simp [Controller.backend, actuator]
    simp [mapped, backend, servo, other, backendActuator]

theorem Held.handle (held : Held s) {e : Event} (untouched : s.Untouched e) : Held (s.handle e).1 := by
  cases e with
  | step now d flow => exact held.step now d flow
  | ack a now =>
    simp only [Node.handle]
    split
    · exact held
    · exact held.answer (.ack a.seq a.success now) rfl rfl
  | setManual on now d flow =>
    have set : Held { s with ctl := (s.ctl.setManual s.params on now).1 } :=
      held.still rfl (by rw [setManual_fsm]) fun _ => rfl
    exact set.step now d flow
  | setParameters items =>
    simp only [Node.handle]
    split
    · rename_i q accepted
      exact held.still rfl rfl fun commanded => mapped_accepted accepted untouched commanded
    · exact held
  | missionState phase missionId sha loads => exact held.missionState phase missionId sha loads
  | rppStatus state missionId sha loads now => exact held.rppStatus state missionId sha loads now
  | vehicle armed offboard now => exact held.still rfl rfl fun _ => rfl
  | estop asserted now => exact held.still rfl rfl fun _ => rfl
  | watchdog alive ready now => exact held.still rfl rfl fun _ => rfl
  | shutdown now =>
    have reset : Held { s with ctl := { s.ctl with fsm := s.ctl.fsm.noteEventReset now } } :=
      held.still rfl (noteEventReset_commanded s.ctl.fsm now) fun _ => rfl
    exact reset.answer (.tick false false false now) rfl rfl

theorem held_start (params : ParamSet) : Held { params } := by
  refine ⟨?_, ?_, ?_⟩
  · intro later off between on older same
    simp at same
  · intro _ between on older same
    simp at same
  · intro _ o between on older same
    simp at same

/-- In every run that leaves the mapped output alone while an ON is commanded. -/
theorem off_closes_untouched (params : ParamSet) {h : List Record} {s : Node}
    (run : RunIf handle (fun _ s e => s.Untouched e) { params } h s) : ClosesWhatItOpened s.published :=
  (run.invariant (fun _ s => Held s) (held_start params) fun _ _ _ held untouched => held.handle untouched).closes

instance (s : Node) : DecidablePred s.Untouched
  | .setParameters items => inferInstanceAs (Decidable (s.ctl.fsm.commanded = true → s.missionRunning = false →
      s.params.str .actuatorBackend = "mavlink_actuator" → (s.onSetParameters items).isOk = true →
      ∀ it ∈ items, it.name = "actuator_set_index" → it.num = s.params.num .actuatorSetIndex))
  | .step .. | .ack .. | .setManual .. | .missionState .. | .rppStatus .. | .vehicle .. | .estop .. | .watchdog .. |
    .shutdown _ => inferInstanceAs (Decidable True)

/-- The rover is armed on the bench with no mission; the first OFF is confirmed and the operator opens the valve. -/
def bench : List Event :=
  [.missionState .idle 0 "" false, .vehicle true false 0, .estop false 0, .watchdog true true 0, .step 0 {} none,
    .ack ⟨1, sourceController, true, resultAccepted⟩ 0, .setManual true 0 {} none]

def secondOutput : Event := .setParameters [{ name := "actuator_set_index", num := .fin 2 }]

/-- The output is changed once the valve is closed, and used for the next ON. -/
def benchTwice : List Event :=
  bench ++ [.setManual false 0 {} none, secondOutput, .ack ⟨3, sourceController, true, resultAccepted⟩ 0,
    .setManual true 0 {} none, .setManual false 0 {} none]

theorem off_closes_untouched_benchTwice :
    (exec handle [] ({ params := {} } : Node) benchTwice).2.published.map (fun c => (c.on, output c)) =
      [(false, 0, 2), (true, 0, 2), (false, 0, 1), (true, 0, 1), (true, 0, 1), (false, 0, 1)] ∧
    ClosesWhatItOpened (exec handle [] ({ params := {} } : Node) benchTwice).2.published :=
  ⟨by decide +kernel, off_closes_untouched {} (exec_runIf benchTwice (by decide +kernel) .start)⟩

/-- The output is changed while the valve is open: the OFF goes to the other output. -/
theorem off_closes_fails_bench :
    ¬ ∀ (params : ParamSet) (h : List Record) (s : Node), Run handle { params } h s →
      ClosesWhatItOpened s.published := by
  intro all
  have closes := all {} _ _ (exec_run (bench ++ [secondOutput, .setManual false 0 {} none]) .start)
  have published : (exec handle [] ({ params := {} } : Node) (bench ++ [secondOutput, .setManual false 0 {} none])).2.published =
      [{ seq := 3, on := false, actuatorSetIndex := 2, value := .fin (-1), servoInstance := 1 },
        { seq := 2, on := true, value := .fin 1, servoInstance := 1, pwmUs := 1800 },
        { seq := 2, on := true, value := .fin 1, servoInstance := 1, pwmUs := 1800 },
        { seq := 1, on := false, value := .fin (-1), servoInstance := 1 }] := by decide +kernel
  rw [published] at closes
  have same := closes [] _ [] _ _ rfl rfl ⟨rfl, by simp⟩
  exact absurd same (by decide)

end Node

end Dyx3.Spray
