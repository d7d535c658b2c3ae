import Dyx3.Rpp.Tick
import Dyx3.Lib.Run

/-!
A corner pivot starts from a standing rover: which ticks confirm a stop, which may use it, and what a
drive in between does to it.
-/

namespace Dyx3.RppCore

open Lib Scalar

variable {R : Type} [Scalar R]

/-- A confirmation that allows a pivot at `place`: its own, or the one of the boundary before the run. -/
def StopPlace.confirms (c place : StopPlace) : Bool :=
  c = place || match c, place with
    | .boundary r, .entry r' => r' = r + 1
    | _, _ => false

namespace Core

/-- Where a stop now would be used. -/
def place (s : Core R) : StopPlace :=
  if s.runAlignPending then .entry s.runIdx else .corner s.runIdx s.segmentIdx

/-- The segment index is past the coincident vertices and not on the last segment. -/
def Steady (s : Core R) : Prop :=
  s.runAlignPending = false → currentSegment s.path s.segmentIdx = s.segmentIdx ∧ s.segmentIdx + 2 < s.path.length

/-- The confirmed stop and the place it is for. -/
def mark (s : Core R) : Bool × Bool × ℕ × ℕ × Option (ConditionedRun R) :=
  (s.corner.stopComplete, s.runAlignPending, s.runIdx, s.segmentIdx, s.run)

/-- What a part of a tick may do: a stop that is confirmed after it was confirmed before, for the same
place, or has been confirmed in this tick. -/
structure Moves (s s' : Core R) : Prop where
  asked : s.out.asked ⊆ s'.out.asked
  stop : s'.corner.stopComplete = true →
    s'.mark = s.mark ∨ s'.Steady ∧ ∃ c, (c, true) ∈ s'.out.asked ∧ c.confirms s'.place = true

theorem place_of_mark {s s' : Core R} (same : s'.mark = s.mark) : s'.place = s.place := by
  simp only [mark, Prod.mk.injEq] at same
  obtain ⟨_, pending, run, seg, _⟩ := same
  rw [place, place, pending, run, seg]

theorem path_of_mark {s s' : Core R} (same : s'.mark = s.mark) : s'.path = s.path := by
  simp only [mark, Prod.mk.injEq] at same
  rw [path, path, same.2.2.2.2]

theorem stop_of_mark {s s' : Core R} (same : s'.mark = s.mark) : s'.corner.stopComplete = s.corner.stopComplete := by
  simp only [mark, Prod.mk.injEq] at same
  exact same.1

theorem steady_of_mark {s s' : Core R} (same : s'.mark = s.mark) (steady : s.Steady) : s'.Steady := by
  have samePath := path_of_mark same
  simp only [mark, Prod.mk.injEq] at same
  obtain ⟨_, pending, _, seg, _⟩ := same
  rw [Steady, pending, seg, samePath]
  exact steady

theorem Moves.of_mark {s s' : Core R} (same : s'.mark = s.mark) (asked : s'.out.asked = s.out.asked) : Moves s s' :=
  ⟨fun _ member => asked ▸ member, fun _ => .inl same⟩

theorem Moves.refl (s : Core R) : Moves s s := .of_mark rfl rfl

theorem Moves.of_unconfirmed {s s' : Core R} (asked : s.out.asked ⊆ s'.out.asked)
    (unconfirmed : s'.corner.stopComplete = false) : Moves s s' :=
  ⟨asked, fun stop => by rw [unconfirmed] at stop; cases stop⟩

theorem Moves.trans {s s' s'' : Core R} (first : Moves s s') (second : Moves s' s'') : Moves s s'' := by
  refine ⟨fun _ member => second.asked (first.asked member), fun stop => ?_⟩
  rcases second.stop stop with same | new
  · rcases first.stop (stop_of_mark same ▸ stop) with before | ⟨steady, c, member, confirms⟩
    · exact .inl (same.trans before)
    · exact .inr ⟨steady_of_mark same steady, c, second.asked member, place_of_mark same ▸ confirms⟩
  · exact .inr new

theorem Moves.since {s s' s'' : Core R} (second : Moves s' s'') (first : Moves s s') : Moves s s'' := first.trans second

theorem Moves.steady {s s' : Core R} (moves : Moves s s') (steady : s.corner.stopComplete = true → s.Steady)
    (stop : s'.corner.stopComplete = true) : s'.Steady := by
  rcases moves.stop stop with same | ⟨new, _⟩
  · exact steady_of_mark same (steady (stop_of_mark same ▸ stop))
  · exact new

/-- A command that neither drives nor pivots. -/
def Quiet (s : Core R) : Prop := s.out.cmd ≠ .track ∧ s.out.cmd ≠ .pivot

/-- The end of a tick: a pivot has a confirmed stop, a drive has none. -/
structure Ends (s s' : Core R) : Prop where
  moves : Moves s s'
  pivot : s'.out.cmd = .pivot → s'.corner.stopComplete = true
  track : s'.out.cmd = .track → s'.corner.stopComplete = false

theorem Ends.of_quiet {s s' : Core R} (moves : Moves s s') (quiet : s'.Quiet) : Ends s s' :=
  ⟨moves, fun cmd => absurd cmd quiet.2, fun cmd => absurd cmd quiet.1⟩

theorem Ends.since {s s' s'' : Core R} (ends : Ends s' s'') (first : Moves s s') : Ends s s'' :=
  ⟨first.trans ends.moves, ends.pivot, ends.track⟩

theorem quiet_of_stop {s : Core R} (cmd : s.out.cmd = .stop) : s.Quiet := by
  rw [Quiet, cmd]
  exact ⟨by decide, by decide⟩

theorem quiet_of_brake {s : Core R} (cmd : s.out.cmd = .brake) : s.Quiet := by
  rw [Quiet, cmd]
  exact ⟨by decide, by decide⟩

theorem quiet_of_creep {s : Core R} (cmd : s.out.cmd = .creep) : s.Quiet := by
  rw [Quiet, cmd]
  exact ⟨by decide, by decide⟩

section Publish

variable (s : Core R)

@[simp] theorem mark_publishZero (state : StateCode) : (s.publishZero state).mark = s.mark := by
  rw [publishZero]
  split <;> rfl

@[simp] theorem asked_publishZero (state : StateCode) : (s.publishZero state).out.asked = s.out.asked := by
  rw [publishZero]
  split <;> rfl

@[simp] theorem cmd_publishZero (state : StateCode) : (s.publishZero state).out.cmd = .stop := by
  rw [publishZero]
  split <;> rfl

theorem publishZero_ends (state : StateCode) : Ends s (s.publishZero state) :=
  .of_quiet (.of_mark (mark_publishZero s state) (asked_publishZero s state)) (quiet_of_stop (cmd_publishZero s state))

end Publish

/-- The first alternative of `note`: what is asked is in the list. -/
theorem note_asked (s : Core R) (place : StopPlace) (answer : Option Bool) : s.out.asked ⊆ (s.note place answer).out.asked := by
  cases answer with
  | none => exact List.Subset.refl _
  | some _ => exact List.subset_append_left _ _

theorem note_mark (s : Core R) (place : StopPlace) (answer : Option Bool) : (s.note place answer).mark = s.mark := by
  cases answer <;> rfl

theorem note_mem (s : Core R) (place : StopPlace) (answer : Bool) : (place, answer) ∈ (s.note place (some answer)).out.asked :=
  List.mem_append_right _ (List.mem_singleton.mpr rfl)

theorem note_cmd (s : Core R) (place : StopPlace) (answer : Option Bool) : (s.note place answer).out.cmd = s.out.cmd := by
  cases answer <;> rfl

/-- What the corner machine at `place` does to a core that stands there. -/
theorem stepCorner_cases (s : Core R) (place : StopPlace) (i : CornerInput R) (here : place = s.place) (steady : s.Steady) :
    let r := s.stepCorner place i
    Moves s r.2 ∧ r.2.out.cmd = s.out.cmd ∧ r.2.path = s.path ∧ r.2.runAlignPending = s.runAlignPending ∧
      r.2.params = s.params ∧
      (r.1.action = .advance → r.2.corner.stopComplete = false) ∧
      (r.1.action = .pivot → r.2.corner.stopComplete = true) := by
  rcases result : s.corner.step s.stopConfirm s.stopParams i with ⟨out, corner, stopConfirm⟩
  have cases := CornerFsm.step_cases s.corner s.stopConfirm s.stopParams i
  rw [result] at cases
  obtain ⟨t, made⟩ : ∃ t : Core R, t = { s with corner, stopConfirm } := ⟨_, rfl⟩
  have same : s.stepCorner place i = (out, t.note place out.confirmed) := by
    simp only [stepCorner, result, made]
  have heldMark : t.mark = (corner.stopComplete, s.mark.2) := by rw [made]; rfl
  have heldPlace : t.place = s.place := by rw [made]; rfl
  have heldSteady : t.Steady := by rw [made]; exact steady
  have marked := note_mark t place out.confirmed
  have stop : (t.note place out.confirmed).corner.stopComplete = corner.stopComplete := by
    rw [stop_of_mark marked, made]
  have unchanged : s.corner.stopComplete = true → corner.stopComplete = true →
      (t.note place out.confirmed).mark = s.mark := by
    intro before after
    rw [marked, heldMark, after, ← before]
    rfl
  rw [same]
  refine ⟨⟨fun _ member => note_asked t place out.confirmed (by rw [made]; exact member), fun stopped => ?_⟩,
    (note_cmd t _ _).trans (by rw [made]), (path_of_mark marked).trans (by rw [made]; rfl), ?_, ?_, ?_, ?_⟩
  · rw [stop] at stopped
    rcases cases with ⟨_, none⟩ | ⟨_, none⟩ | ⟨_, before, after⟩ | ⟨_, after, before | confirmed⟩
    · rw [none] at stopped; cases stopped
    · rw [none] at stopped; cases stopped
    · exact .inl (unchanged before after)
    · exact .inl (unchanged before after)
    · refine .inr ⟨steady_of_mark marked heldSteady, place, ?_, ?_⟩
      · rw [confirmed]
        exact note_mem _ _ _
      · rw [place_of_mark marked, heldPlace, here]
        exact (Bool.or_eq_true _ _).mpr (.inl (decide_eq_true rfl))
  · simp only [mark, Prod.mk.injEq] at marked
    exact marked.2.1.trans (by rw [made])
  · rw [made]
    cases out.confirmed <;> rfl
  · intro advance
    rw [stop]
    rcases cases with ⟨_, none⟩ | ⟨other, _⟩ | ⟨other, _⟩ | ⟨other, _⟩
    · exact none
    all_goals rw [advance] at other; cases other
  · intro pivot
    rw [stop]
    rcases cases with ⟨other, _⟩ | ⟨other, _⟩ | ⟨other, _⟩ | ⟨_, after, _⟩
    · rw [pivot] at other; cases other
    · rw [pivot] at other; cases other
    · rw [pivot] at other; cases other
    · exact after

/-- The entry alignment: while it holds the tick ends, otherwise the tick goes on. -/
theorem runAlignmentHold_spec (s : Core R) (fix : Fix R) (now : ℤ)
    (leg : s.corner.stopComplete = true → s.runAlignPending = true →
      ¬ (s.path.length < 2 ∨ distance (s.path.at 0) (s.path.at 1) < lit 1e-6)) :
    ((s.runAlignmentHold fix now).2 = true → Ends s (s.runAlignmentHold fix now).1) ∧
      ((s.runAlignmentHold fix now).2 = false →
        Moves s (s.runAlignmentHold fix now).1 ∧ (s.runAlignmentHold fix now).1.out.cmd = s.out.cmd ∧
          (s.runAlignmentHold fix now).1.runAlignPending = false) := by
  have dropped : ∀ short : s.path.length < 2 ∨ distance (s.path.at 0) (s.path.at 1) < lit 1e-6, s.runAlignPending = true →
      Moves s { s with runAlignPending := false } := by
    intro short pending
    refine .of_unconfirmed (fun _ member => member) (Bool.eq_false_iff.mpr fun stop => ?_)
    exact leg stop pending short
  simp only [runAlignmentHold]
  by_cases pending : s.runAlignPending = true
  · rw [if_neg (by simp [pending])]
    split
    · rename_i short
      exact ⟨fun held => (Bool.noConfusion held), fun _ => ⟨dropped (.inl short) pending, rfl, rfl⟩⟩
    · split
      · rename_i short
        exact ⟨fun held => (Bool.noConfusion held), fun _ => ⟨dropped (.inr short) pending, rfl, rfl⟩⟩
      · have here : StopPlace.entry s.runIdx = s.place := by rw [place, if_pos pending]
        have steady : s.Steady := fun other => by rw [pending] at other; cases other
        generalize CornerInput.mk now _ _ _ _ = input
        obtain ⟨moves, cmd, _, _, _, advance, pivot⟩ := stepCorner_cases s (.entry s.runIdx) input here steady
        generalize s.stepCorner (.entry s.runIdx) input = r at moves cmd advance pivot ⊢
        obtain ⟨co, t⟩ := r
        dsimp only at moves cmd advance pivot ⊢
        cases action : co.action with
        | advance =>
          refine ⟨fun held => (Bool.noConfusion held), fun _ => ⟨?_, cmd, rfl⟩⟩
          exact .of_unconfirmed moves.asked (advance action)
        | settleBrake => exact ⟨fun _ => .of_quiet (moves.trans (.of_mark rfl rfl)) (quiet_of_brake rfl), fun held => Bool.noConfusion held⟩
        | brake => exact ⟨fun _ => .of_quiet (moves.trans (.of_mark rfl rfl)) (quiet_of_brake rfl), fun held => Bool.noConfusion held⟩
        | pivot =>
          refine ⟨fun _ => ⟨moves.trans (.of_mark rfl rfl), fun _ => pivot action, fun cmd => ?_⟩, fun held => Bool.noConfusion held⟩
          cases cmd
  · rw [if_pos (by simp [pending])]
    exact ⟨fun held => (Bool.noConfusion held), fun _ => ⟨.refl s, rfl, Bool.eq_false_iff.mpr pending⟩⟩

/-- A hold that asks for the stop keeps the mark and leaves the answer. -/
theorem stepHold_spec (s : Core R) (place : StopPlace) (now : ℤ) (tel : StopTelemetry R) :
    (s.stepHold place now tel).2.mark = s.mark ∧ (s.stepHold place now tel).2.out.cmd = s.out.cmd ∧
      s.out.asked ⊆ (s.stepHold place now tel).2.out.asked ∧
      (s.stepHold place now tel).2.runs = s.runs ∧
      ((s.stepHold place now tel).1 = true → (place, true) ∈ (s.stepHold place now tel).2.out.asked) := by
  simp only [stepHold]
  refine ⟨note_mark _ _ _, note_cmd _ _ _, List.subset_append_left _ _, rfl, fun stopped => ?_⟩
  rw [stopped]
  exact note_mem _ _ _

theorem applyRun_spec {s : Core R} (idx : ℕ) (preStopped : Bool) (exists' : idx < s.runs.length) :
    (s.applyRun idx preStopped).out = s.out ∧ (s.applyRun idx preStopped).runIdx = idx ∧
      ((s.applyRun idx preStopped).corner.stopComplete = true →
        preStopped = true ∧ (s.applyRun idx preStopped).runAlignPending = true) := by
  unfold applyRun
  rw [List.getElem?_eq_getElem exists']
  rcases s.alignment idx s.runs[idx] with ⟨pending, turn⟩
  dsimp only
  refine ⟨rfl, rfl, fun stopped => ?_⟩
  split at stopped
  · rename_i both
    exact ⟨(Bool.and_eq_true_iff.mp both).1, (Bool.and_eq_true_iff.mp both).2⟩
  · cases stopped

theorem advanceRun_plain (s : Core R) : Moves s (s.advanceRun false).1 ∧ (s.advanceRun false).1.out.cmd = s.out.cmd := by
  rw [advanceRun]
  split
  · exact ⟨.refl s, rfl⟩
  · rename_i more
    obtain ⟨out, _, stop⟩ := applyRun_spec (s := s) (s.runIdx + 1) false (by omega)
    dsimp only
    refine ⟨.of_unconfirmed (by rw [out]; exact List.Subset.refl _) (Bool.eq_false_iff.mpr fun stopped => ?_), by rw [out]⟩
    exact Bool.noConfusion (stop stopped).1

/-- The run after a confirmed boundary starts with that stop. -/
theorem advanceRun_stopped {s : Core R} (asked : (StopPlace.boundary s.runIdx, true) ∈ s.out.asked) :
    Moves s (s.advanceRun true).1 ∧ (s.advanceRun true).1.out.cmd = s.out.cmd := by
  rw [advanceRun]
  split
  · exact ⟨.refl s, rfl⟩
  · rename_i more
    obtain ⟨out, run, stop⟩ := applyRun_spec (s := s) (s.runIdx + 1) true (by omega)
    dsimp only
    refine ⟨⟨by rw [out]; exact List.Subset.refl _, fun stopped => .inr ⟨?_, .boundary s.runIdx, by rw [out]; exact asked, ?_⟩⟩, by rw [out]⟩
    · intro pending
      rw [(stop stopped).2] at pending
      cases pending
    · rw [place, if_pos (stop stopped).2, run]
      exact (Bool.or_eq_true _ _).mpr (.inr (decide_eq_true rfl))

theorem holdBrake_spec (s : Core R) (fix : Fix R) (tel : StopTelemetry R) :
    Moves s (s.holdBrake fix tel) ∧ (s.holdBrake fix tel).Quiet :=
  ⟨.of_mark rfl rfl, quiet_of_brake rfl⟩

theorem reset_moves {s s' : Core R} (asked : s'.out = s.out) (corner : s'.corner = s.corner.reset) : Moves s s' := by
  refine .of_unconfirmed (by rw [asked]; exact List.Subset.refl _) ?_
  rw [corner]
  rfl

theorem holdBeforeRunAdvance_spec (s : Core R) (fix : Fix R) (now : ℤ) (cmd : s.out.cmd = .stop) :
    Moves s (s.holdBeforeRunAdvance fix now) ∧ (s.holdBeforeRunAdvance fix now).Quiet := by
  simp only [holdBeforeRunAdvance]
  split
  · exact ⟨.refl s, quiet_of_stop cmd⟩
  · split
    · obtain ⟨moves, same⟩ := advanceRun_plain s
      exact ⟨moves, quiet_of_stop (same.trans cmd)⟩
    · obtain ⟨t, made⟩ : ∃ t : Core R, t =
          if s.runBoundaryStopPending then s else { s.resetCornerPivotState with runBoundaryStopPending := true } := ⟨_, rfl⟩
      have entered : Moves s t ∧ t.out.cmd = s.out.cmd := by
        rw [made]
        split
        · exact ⟨.refl s, rfl⟩
        · exact ⟨reset_moves rfl rfl, rfl⟩
      rw [← made]
      obtain ⟨marked, same, asked, _, confirmed⟩ := stepHold_spec t (.boundary t.runIdx) now (t.telemetry now fix.yaw)
      generalize t.stepHold (.boundary t.runIdx) now (t.telemetry now fix.yaw) = r at marked same asked confirmed ⊢
      obtain ⟨stopped, u⟩ := r
      dsimp only at marked same asked confirmed ⊢
      have held : Moves s u := entered.1.trans ⟨asked, fun _ => .inl marked⟩
      have run : u.runIdx = t.runIdx := by
        simp only [mark, Prod.mk.injEq] at marked
        exact marked.2.2.1
      split
      · rename_i yes
        obtain ⟨moves, after⟩ := advanceRun_stopped (s := { u with runBoundaryStopPending := false })
          (by rw [← run] at confirmed; exact confirmed yes)
        have cleared : Moves u { u with runBoundaryStopPending := false } := .of_mark rfl rfl
        refine ⟨(held.trans cleared).trans moves, quiet_of_stop ?_⟩
        rw [after]
        exact same.trans (entered.2.trans cmd)
      · obtain ⟨moves, quiet⟩ := holdBrake_spec u fix (t.telemetry now fix.yaw)
        exact ⟨held.trans moves, quiet⟩

theorem holdAtCompletion_spec (s : Core R) (fix : Fix R) (now : ℤ) :
    Moves s (s.holdAtCompletion fix now) ∧ (s.holdAtCompletion fix now).Quiet := by
  simp only [holdAtCompletion]
  obtain ⟨t, made⟩ : ∃ t : Core R, t =
      if s.completionStopPending then s else { s.resetCornerPivotState with completionStopPending := true } := ⟨_, rfl⟩
  have entered : Moves s t := by
    rw [made]
    split
    · exact .refl s
    · exact reset_moves rfl rfl
  rw [← made]
  obtain ⟨marked, _, asked, _, _⟩ := stepHold_spec t (.completion t.runIdx) now (t.telemetry now fix.yaw)
  generalize t.stepHold (.completion t.runIdx) now (t.telemetry now fix.yaw) = r at marked asked ⊢
  obtain ⟨stopped, u⟩ := r
  dsimp only at marked asked ⊢
  have held : Moves s u := entered.trans ⟨asked, fun _ => .inl marked⟩
  split
  · refine ⟨held.trans (.of_mark (mark_publishZero _ _) (asked_publishZero _ _)), quiet_of_stop (cmd_publishZero _ _)⟩
  · obtain ⟨moves, quiet⟩ := holdBrake_spec u fix (t.telemetry now fix.yaw)
    exact ⟨held.trans moves, quiet⟩

theorem endpointHold_spec (s : Core R) (fix : Fix R) (tel : StopTelemetry R) (o : EndOffset R) :
    Moves s (s.endpointHold fix tel o) ∧ (s.endpointHold fix tel o).Quiet := by
  simp only [endpointHold]
  generalize (if lit 0 < o.residual ∧ lit 0 < s.params.segmentEndpointPreciseDecel then
    sqrt (lit 2 * s.params.segmentEndpointPreciseDecel * o.residual) else lit 0) = vProfile
  split
  · refine ⟨.of_mark rfl rfl, ?_⟩
    simp only [Quiet, command, publishDebug]
    split <;> exact ⟨by decide, by decide⟩
  · exact ⟨.of_mark rfl rfl, quiet_of_brake rfl⟩

theorem endpointStop_spec (s : Core R) (fix : Fix R) (o : EndOffset R) (now : ℤ) :
    Moves s (s.endpointStop fix o now) ∧ (s.endpointStop fix o now).Quiet := by
  simp only [endpointStop]
  generalize s.stopConfirm.satisfied now (s.telemetry now fix.yaw) s.stopParams = answer
  obtain ⟨stopped, stopConfirm⟩ := answer
  dsimp only
  obtain ⟨t, made⟩ : ∃ t : Core R, t = { s with stopConfirm }.note (.endpoint s.runIdx) (some stopped) := ⟨_, rfl⟩
  have held : Moves s t := by
    rw [made]
    exact ⟨List.subset_append_left _ _, fun _ => .inl (note_mark _ _ _)⟩
  rw [← made]
  split
  · exact ⟨(holdAtCompletion_spec _ fix now).1.since (held.trans (.of_mark rfl rfl)), (holdAtCompletion_spec _ fix now).2⟩
  · split
    · exact ⟨held.trans (.of_mark rfl rfl), quiet_of_brake rfl⟩
    · split
      · exact ⟨held.trans (.of_mark rfl rfl), quiet_of_brake rfl⟩
      · split
        · exact ⟨(endpointHold_spec _ fix _ o).1.since (held.trans (.of_mark rfl rfl)), (endpointHold_spec _ fix _ o).2⟩
        · exact ⟨held.trans (.of_mark rfl rfl), quiet_of_creep rfl⟩

theorem preciseStopTick_spec (s : Core R) (fix : Fix R) (now : ℤ) :
    ((s.preciseStopTick fix now).2 = true → Moves s (s.preciseStopTick fix now).1 ∧ (s.preciseStopTick fix now).1.Quiet) ∧
      ((s.preciseStopTick fix now).2 = false → (s.preciseStopTick fix now).1 = s) := by
  simp only [preciseStopTick]
  split
  · exact ⟨fun h => Bool.noConfusion h, fun _ => rfl⟩
  split
  · exact ⟨fun h => Bool.noConfusion h, fun _ => rfl⟩
  split
  · exact ⟨fun h => Bool.noConfusion h, fun _ => rfl⟩
  split
  · exact ⟨fun h => Bool.noConfusion h, fun _ => rfl⟩
  split
  · exact ⟨fun h => Bool.noConfusion h, fun _ => rfl⟩
  refine ⟨fun _ => ?_, fun h => Bool.noConfusion h⟩
  split
  · exact endpointStop_spec s fix _ now
  · exact ⟨(endpointStop_spec _ fix _ now).1.since (reset_moves rfl rfl), (endpointStop_spec _ fix _ now).2⟩

/-- The run that ends, or the mission. -/
theorem endOfRun_spec (s : Core R) (fix : Fix R) (now : ℤ) (cmd : s.out.cmd = .stop) (more : Prop) [Decidable more] :
    Ends s (if more then s.holdBeforeRunAdvance fix now else s.holdAtCompletion fix now) := by
  split
  · exact .of_quiet (holdBeforeRunAdvance_spec s fix now cmd).1 (holdBeforeRunAdvance_spec s fix now cmd).2
  · exact .of_quiet (holdAtCompletion_spec s fix now).1 (holdAtCompletion_spec s fix now).2

/-- What a stage does: it ends the tick, or hands on a core with the same mark that has no command yet. -/
def Passes {A : Type} (s : Core R) : Stage R A → Prop
  | .halt s' => Ends s s'
  | .go s' _ => s'.mark = s.mark ∧ s'.out.asked = s.out.asked ∧ s'.out.cmd = .stop

/-- A gate either lets the tick go on or ends it with a stop; the mark stays. -/
def Gates {A : Type} (s : Core R) : Stage R A → Prop
  | .halt s' | .go s' _ => s'.mark = s.mark ∧ s'.out.asked = s.out.asked ∧ s'.out.cmd = .stop

theorem publishZero_gates {s s' : Core R} (state : StateCode) (same : s'.mark = s.mark) (asked : s'.out.asked = s.out.asked) :
    (s'.publishZero state).mark = s.mark ∧ (s'.publishZero state).out.asked = s.out.asked ∧
      (s'.publishZero state).out.cmd = .stop :=
  ⟨(mark_publishZero s' state).trans same, (asked_publishZero s' state).trans asked, cmd_publishZero s' state⟩

theorem goalCheck_passes (s : Core R) (fix : Fix R) (now : ℤ) (cmd : s.out.cmd = .stop) : Passes s (s.goalCheck fix now) := by
  simp only [goalCheck]
  split
  · exact .of_quiet (.of_mark rfl rfl) (quiet_of_stop rfl)
  split
  · exact .of_quiet (holdBeforeRunAdvance_spec s fix now cmd).1 (holdBeforeRunAdvance_spec s fix now cmd).2
  split
  · exact .of_quiet (holdAtCompletion_spec s fix now).1 (holdAtCompletion_spec s fix now).2
  obtain ⟨r, made⟩ : ∃ r : Core R × Bool, r =
      if (s.profileSegment && decide (s.runs.length ≤ s.runIdx + 1) && decide (s.runMinTravel ≤ s.pathTravel)) = true then
        s.preciseStopTick fix now
      else (s, false) := ⟨_, rfl⟩
  have precise : (r.2 = true → Moves s r.1 ∧ r.1.Quiet) ∧ (r.2 = false → r.1 = s) := by
    rw [made]
    split
    · exact preciseStopTick_spec s fix now
    · exact ⟨fun h => Bool.noConfusion h, fun _ => rfl⟩
  rw [← made]
  obtain ⟨t, held⟩ := r
  dsimp only at precise ⊢
  cases held with
  | true => exact .of_quiet (precise.1 rfl).1 (precise.1 rfl).2
  | false =>
    obtain rfl := precise.2 rfl
    rw [if_neg (by decide)]
    split
    · exact endOfRun_spec _ fix now cmd _
    · exact ⟨rfl, rfl, cmd⟩

theorem projectSmooth_passes (s : Core R) (fix : Fix R) (cmd : s.out.cmd = .stop) : Passes s (s.projectSmooth fix) := by
  simp only [projectSmooth]
  split
  · exact ⟨rfl, rfl, cmd⟩
  · split
    · exact (publishZero_ends _ .idle).since (.of_mark rfl rfl)
    · refine ⟨?_, ?_, ?_⟩
      all_goals rw [updatePathProgress]; split
      all_goals first | rfl | exact cmd

theorem jumpGuard_gates (s : Core R) (pos : Pos R) (now : ℤ) (cmd : s.out.cmd = .stop) : Gates s (s.jumpGuard pos now) := by
  simp only [jumpGuard]
  split
  · split
    · exact ⟨rfl, rfl, cmd⟩
    · exact publishZero_gates _ rfl rfl
  · exact ⟨rfl, rfl, cmd⟩

theorem rtkGate_mark (s : Core R) (now : ℤ) : (s.rtkGate now).1.mark = s.mark ∧ (s.rtkGate now).1.out = s.out := by
  simp only [rtkGate]
  split
  · exact ⟨rfl, rfl⟩
  · repeat' split
    all_goals exact ⟨rfl, rfl⟩

theorem frontEnd_gates (s : Core R) (now : ℤ) (cmd : s.out.cmd = .stop) : Gates s (s.frontEnd now) := by
  simp only [frontEnd]
  generalize s.params.poseMaxAge + (if s.params.useImuExtrapolation = true then s.params.imuMaxExtrapAge else lit 0) = maxAge
  split
  · exact publishZero_gates _ rfl rfl
  split
  · exact publishZero_gates _ rfl rfl
  obtain ⟨r, made⟩ : ∃ r : Core R × Bool × RtkReason, r = if s.params.requireRtkFix = true then s.rtkGate now
      else ({ s with rtkRecoverSince := { s.rtkRecoverSince with has := false } }, true, .ok) := ⟨_, rfl⟩
  have gated : r.1.mark = s.mark ∧ r.1.out = s.out := by
    rw [made]
    split
    · exact rtkGate_mark s now
    · exact ⟨rfl, rfl⟩
  rw [← made]
  obtain ⟨t, ok, reason⟩ := r
  dsimp only at gated ⊢
  obtain ⟨u, noted⟩ : ∃ u : Core R, u = { t with out := { t.out with rtkReason := reason } } := ⟨_, rfl⟩
  have same : u.mark = s.mark := by rw [noted]; exact gated.1
  have asked : u.out.asked = s.out.asked := by rw [noted, ← gated.2]
  have quiet : u.out.cmd = .stop := by rw [noted, ← cmd, ← gated.2]
  rw [← noted]
  split
  · exact publishZero_gates _ same asked
  split
  · exact publishZero_gates _ same asked
  split
  · exact publishZero_gates _ same asked
  have jump := jumpGuard_gates u (s.extrapolated now (nsToS (now - s.poseRecv))) now quiet
  generalize u.jumpGuard (s.extrapolated now (nsToS (now - s.poseRecv))) now = stage at jump ⊢
  cases stage with
  | halt v => exact ⟨jump.1.trans same, jump.2.1.trans asked, jump.2.2⟩
  | go v _ => exact ⟨jump.1.trans same, jump.2.1.trans asked, jump.2.2⟩

/-- The segment index a pass works on is kept by the next pass. -/
theorem currentSegment_idem (path : Path R) (i : ℕ) :
    currentSegment path (currentSegment path i) = currentSegment path i := by
  have skip : ∀ left j, skipCoincident path left j = j + left ∨
      ∀ left', skipCoincident path left' (skipCoincident path left j) = skipCoincident path left j := by
    intro left
    induction left with
    | zero => exact fun j => .inl rfl
    | succ left ih =>
      intro j
      rw [skipCoincident]
      split
      · rename_i apart
        right
        intro left'
        cases left' with
        | zero => rfl
        | succ _ => rw [skipCoincident, if_pos apart]
      · rcases ih (j + 1) with all | stays
        · left
          omega
        · exact .inr stays
  have last : ∀ j, path.length - 2 ≤ j → currentSegment path j = path.length - 2 := by
    intro j far
    rw [currentSegment, Nat.sub_eq_zero_of_le far, skipCoincident]
    omega
  by_cases far : path.length - 2 ≤ currentSegment path i
  · have top : currentSegment path i = path.length - 2 := by
      have := Nat.min_le_right (skipCoincident path (path.length - 2 - i) i) (path.length - 2)
      rw [currentSegment] at far ⊢
      omega
    rw [top]
    exact last _ le_rfl
  · have inside : currentSegment path i = skipCoincident path (path.length - 2 - i) i := by
      rw [currentSegment] at far ⊢
      omega
    rw [inside] at far ⊢
    rcases skip (path.length - 2 - i) i with all | stays
    · omega
    · rw [currentSegment, stays]
      omega

/-- What a pass of the segment law does: it ends the tick, or passes a corner and forgets the stop. -/
def Proceeds (s : Core R) : Stage R Unit → Prop
  | .halt s' => Ends s s'
  | .go s' _ => Moves s s' ∧ s'.corner.stopComplete = false ∧ s'.out.cmd = .stop ∧ s'.runAlignPending = false

theorem cornerBlock_proceeds (s : Core R) (fix : Fix R) (x : R) (now : ℤ) (cmd : s.out.cmd = .stop)
    (aligned : s.runAlignPending = false) (steady : s.Steady) : Proceeds s (s.cornerBlock fix x now) := by
  simp only [cornerBlock]
  have here : StopPlace.corner s.runIdx s.segmentIdx = s.place := by rw [place, aligned]; rfl
  generalize CornerInput.mk now _ _ _ _ = input
  obtain ⟨moves, same, _, pending, _, advance, pivot⟩ := stepCorner_cases s (.corner s.runIdx s.segmentIdx) input here steady
  generalize s.stepCorner (.corner s.runIdx s.segmentIdx) input = r at moves same pending advance pivot ⊢
  obtain ⟨co, t⟩ := r
  dsimp only at moves same pending advance pivot ⊢
  cases action : co.action with
  | advance => exact ⟨.of_unconfirmed moves.asked (advance action), advance action, same.trans cmd, pending.trans aligned⟩
  | settleBrake => exact .of_quiet (moves.trans (.of_mark rfl rfl)) (quiet_of_brake rfl)
  | brake => exact .of_quiet (moves.trans (.of_mark rfl rfl)) (quiet_of_brake rfl)
  | pivot =>
    refine ⟨moves.trans (.of_mark rfl rfl), fun _ => pivot action, fun track => ?_⟩
    cases track

theorem segmentEnd_passes (s : Core R) (fix : Fix R) (now : ℤ) (cmd : s.out.cmd = .stop) : Passes s (s.segmentEnd fix now) := by
  simp only [segmentEnd]
  split
  · obtain ⟨held, free⟩ := preciseStopTick_spec s fix now
    generalize s.preciseStopTick fix now = r at held free ⊢
    obtain ⟨t, precise⟩ := r
    dsimp only at held free ⊢
    cases precise with
    | true => exact .of_quiet (held rfl).1 (held rfl).2
    | false =>
      obtain rfl := free rfl
      rw [if_neg (by decide)]
      split
      · exact endOfRun_spec _ fix now cmd _
      · exact ⟨rfl, rfl, cmd⟩
  · exact ⟨rfl, rfl, cmd⟩

theorem updatePathProgress_spec (s : Core R) (i : ℕ) (t : R) :
    (s.updatePathProgress i t).mark = s.mark ∧ (s.updatePathProgress i t).out = s.out ∧
      (s.updatePathProgress i t).params = s.params := by
  rw [updatePathProgress]
  split <;> exact ⟨rfl, rfl, rfl⟩

/-- A confirmed stop at a core that comes to the segment law is used at the corner the rover stands at. -/
def AtCorner (s : Core R) (pos : Pos R) : Prop :=
  s.corner.stopComplete = true → s.Steady ∧ s.inAcceptance pos s.segmentIdx = true

theorem onSegment_proceeds (s : Core R) (fix : Fix R) (now : ℤ) (cmd : s.out.cmd = .stop)
    (aligned : s.runAlignPending = false) (current : currentSegment s.path s.segmentIdx = s.segmentIdx)
    (atCorner : s.AtCorner fix.pos) : Proceeds s (s.onSegment fix now) := by
  simp only [onSegment]
  split
  · exact publishZero_ends s _
  split
  · exact publishZero_ends s _
  obtain ⟨progressMark, progressOut, progressParams⟩ :=
    updatePathProgress_spec s s.segmentIdx (projectOntoSegment fix.pos s.path s.segmentIdx).t
  generalize s.updatePathProgress s.segmentIdx (projectOntoSegment fix.pos s.path s.segmentIdx).t = u
    at progressMark progressOut progressParams ⊢
  have moved : Moves s u := .of_mark progressMark (by rw [progressOut])
  have quiet : u.out.cmd = .stop := by rw [progressOut]; exact cmd
  have marks := progressMark
  simp only [mark, Prod.mk.injEq] at marks
  obtain ⟨sameStop, samePending, _, sameIndex, _⟩ := marks
  by_cases final : s.path.length - 2 ≤ s.segmentIdx
  · have unconfirmed : u.corner.stopComplete = false := by
      refine Bool.eq_false_iff.mpr fun stop => ?_
      have := ((atCorner (sameStop ▸ stop)).1 aligned).2
      omega
    rw [decide_eq_true final]
    simp only [if_true, Bool.not_true, Bool.false_and]
    have ended := segmentEnd_passes u fix now quiet
    generalize u.segmentEnd fix now = stage at ended ⊢
    cases stage with
    | halt v => exact Ends.since ended moved
    | go v _ =>
      have still : v.corner.stopComplete = false := (stop_of_mark ended.1).trans unconfirmed
      have moved : Moves s v := moved.trans (.of_mark ended.1 ended.2.1)
      dsimp only
      rw [if_neg (by decide)]
      cases v.segmentDrive fix (projectOntoSegment fix.pos s.path s.segmentIdx) (s.path.at (s.segmentIdx + 1)) true now with
      | none => exact (publishZero_ends _ _).since moved
      | some d => exact ⟨moved.trans (.of_mark rfl rfl), fun pivot => (by cases pivot), fun _ => still⟩
  · rw [decide_eq_false final]
    simp only [Bool.not_false, Bool.true_and]
    rw [if_neg (by decide)]
    dsimp only
    have steady : u.Steady := by
      intro _
      rw [path_of_mark progressMark, sameIndex]
      exact ⟨current, by omega⟩
    split
    · have corner := cornerBlock_proceeds u fix (projectOntoSegment fix.pos s.path s.segmentIdx).signedCross now quiet
        (samePending.trans aligned) steady
      generalize u.cornerBlock fix (projectOntoSegment fix.pos s.path s.segmentIdx).signedCross now = stage at corner ⊢
      cases stage with
      | halt v => exact Ends.since corner moved
      | go v _ => exact ⟨moved.trans corner.1, corner.2⟩
    · rename_i away
      -- a confirmed stop would have taken the corner block
      have unconfirmed : u.corner.stopComplete = false := by
        refine Bool.eq_false_iff.mpr fun stop => away ?_
        rw [inAcceptance, path_of_mark progressMark, progressParams]
        exact (atCorner (sameStop ▸ stop)).2
      cases u.segmentDrive fix (projectOntoSegment fix.pos s.path s.segmentIdx) (s.path.at (s.segmentIdx + 1)) false now with
      | none => exact (publishZero_ends _ _).since moved
      | some d => exact ⟨moved.trans (.of_mark rfl rfl), fun pivot => (by cases pivot), fun _ => unconfirmed⟩

theorem segmentPass_proceeds (s : Core R) (fix : Fix R) (now : ℤ) (cmd : s.out.cmd = .stop)
    (aligned : s.runAlignPending = false) (atCorner : s.AtCorner fix.pos) : Proceeds s (s.segmentPass fix now) := by
  simp only [segmentPass]
  split
  · obtain ⟨moves, same⟩ := advanceRun_plain s
    generalize s.advanceRun false = r at moves same ⊢
    obtain ⟨t, advanced⟩ := r
    dsimp only at moves same ⊢
    cases advanced with
    | true => exact Ends.of_quiet (moves.trans (.of_mark rfl rfl)) (quiet_of_stop (same.trans cmd))
    | false => exact (publishZero_ends _ _).since (moves.trans (.of_mark rfl rfl))
  · obtain ⟨t, made⟩ : ∃ t : Core R, t = { s with segmentIdx := currentSegment s.path s.segmentIdx } := ⟨_, rfl⟩
    have same : t.corner.stopComplete = true → t = s := by
      intro stop
      have before : s.corner.stopComplete = true := by rw [made] at stop; exact stop
      rw [made, ((atCorner before).1 aligned).1]
    have placed : Moves s t := ⟨by rw [made]; exact List.Subset.refl _, fun stop => .inl (by rw [same stop])⟩
    have passed := onSegment_proceeds t fix now (by rw [made]; exact cmd) (by rw [made]; exact aligned)
      (by rw [made]; exact currentSegment_idem s.path s.segmentIdx)
      fun stop => by have unmoved := same stop; rw [unmoved] at stop ⊢; exact atCorner stop
    rw [← made]
    generalize t.onSegment fix now = stage at passed ⊢
    cases stage with
    | halt v => exact Ends.since passed placed
    | go v _ => exact ⟨placed.trans passed.1, passed.2⟩

theorem segmentLoop_ends (fix : Fix R) (now : ℤ) (passes : ℕ) (s : Core R) (cmd : s.out.cmd = .stop)
    (aligned : s.runAlignPending = false) (atCorner : s.AtCorner fix.pos) : Ends s (segmentLoop fix now passes s) := by
  induction passes generalizing s with
  | zero => exact .of_quiet (.refl s) (quiet_of_stop cmd)
  | succ passes ih =>
    rw [segmentLoop]
    have pass := segmentPass_proceeds s fix now cmd aligned atCorner
    generalize s.segmentPass fix now = stage at pass ⊢
    cases stage with
    | halt t => exact pass
    | go t _ =>
      obtain ⟨moves, unconfirmed, quiet, still⟩ := pass
      refine (ih t quiet still fun stop => ?_).since moves
      rw [unconfirmed] at stop
      cases stop

theorem controlSmooth_ends (s : Core R) (fix : Fix R) (proj : PathProjection R) (unconfirmed : s.corner.stopComplete = false) :
    Ends s (s.controlSmooth fix proj) := by
  rw [controlSmooth]
  split
  · exact publishZero_ends s _
  · exact ⟨.of_mark rfl rfl, fun pivot => (by cases pivot), fun _ => unconfirmed⟩

/-- A confirmed stop is still good when the tick comes to use it: the first leg of the run it aligns to
has a direction, and at the tracking law the rover is at the corner it stopped for. -/
def stopKept (s : Core R) (now : ℤ) : Bool :=
  let s := s.beginTick now
  (match s.frontEnd now with
    | .halt _ => true
    | .go s _ =>
      !(s.corner.stopComplete && s.runAlignPending) ||
        !(decide (s.path.length < 2) || decide (distance (s.path.at 0) (s.path.at 1) < lit 1e-6))) &&
    match s.beforeTracking now with
    | .halt _ => true
    | .go s (fix, _) => !s.corner.stopComplete || (s.profileSegment && s.inAcceptance fix.pos s.segmentIdx)

theorem tick_ends (s : Core R) (now : ℤ) (steady : s.corner.stopComplete = true → s.Steady) (kept : s.stopKept now = true) :
    Ends (s.beginTick now) (s.tick now) := by
  obtain ⟨leg, corner⟩ := Bool.and_eq_true_iff.mp kept
  have steady : (s.beginTick now).corner.stopComplete = true → (s.beginTick now).Steady := steady
  have quiet : (s.beginTick now).out.cmd = .stop := rfl
  have loop : Ends (s.beginTick now) ((s.beginTick now).controlLoopImpl now) := by
    generalize s.beginTick now = t at leg corner steady quiet ⊢
    simp only [beforeTracking] at corner
    simp only [controlLoopImpl, beforeTracking]
    have front := frontEnd_gates t now quiet
    generalize t.frontEnd now = stage at leg corner front ⊢
    cases stage with
    | halt u => exact .of_quiet (.of_mark front.1 front.2.1) (quiet_of_stop front.2.2)
    | go u fix =>
      obtain ⟨same, asked, quiet⟩ := front
      have first : Moves t u := .of_mark same asked
      have leg : u.corner.stopComplete = true → u.runAlignPending = true →
          ¬ (u.path.length < 2 ∨ distance (u.path.at 0) (u.path.at 1) < lit 1e-6) := by
        intro stop pending short
        simp only [stop, pending] at leg
        rcases short with short | short <;> simp [short] at leg
      dsimp only at corner ⊢
      obtain ⟨held, free⟩ := runAlignmentHold_spec u fix now leg
      generalize u.runAlignmentHold fix now = r at corner held free ⊢
      obtain ⟨v, holds⟩ := r
      dsimp only at corner held free ⊢
      cases holds with
      | true => exact (held rfl).since first
      | false =>
        obtain ⟨moves, cmd, aligned⟩ := free rfl
        have moved := first.trans moves
        rw [if_neg (by decide)] at corner ⊢
        have smooth := projectSmooth_passes v fix (cmd.trans quiet)
        generalize v.projectSmooth fix = stage at corner smooth ⊢
        cases stage with
        | halt w => exact smooth.since moved
        | go w proj =>
          have moved := moved.trans (.of_mark smooth.1 smooth.2.1)
          dsimp only at corner ⊢
          have goal := goalCheck_passes w fix now smooth.2.2
          generalize w.goalCheck fix now = stage at corner goal ⊢
          cases stage with
          | halt x => exact goal.since moved
          | go x _ =>
            have moved := moved.trans (.of_mark goal.1 goal.2.1)
            have aligned : x.runAlignPending = false := by
              have marks := goal.1.trans smooth.1
              simp only [mark, Prod.mk.injEq] at marks
              exact marks.2.1.trans aligned
            dsimp only at corner ⊢
            cases stop : x.corner.stopComplete with
            | true =>
              simp only [stop, Bool.not_true, Bool.false_or, Bool.and_eq_true] at corner
              rw [if_pos corner.1]
              exact (segmentLoop_ends fix now _ x goal.2.2 aligned
                fun stop => ⟨moved.steady steady stop, corner.2⟩).since moved
            | false =>
              split
              · refine (segmentLoop_ends fix now _ x goal.2.2 aligned fun other => ?_).since moved
                rw [stop] at other
                cases other
              · exact (controlSmooth_ends x fix proj stop).since moved
  exact ⟨loop.moves.trans (.of_mark rfl rfl), loop.pivot, loop.track⟩

end Core

inductive Event (R : Type) [Scalar R] where
  | pose (pose : NedPose R) (now : ℤ)
  | velocity (vNorth vEast yawRateNed : R) (now : ℤ)
  | gps (fixType : ℤ) (hAcc : R) (now : ℤ)
  | configure (params : Params R)
  | pause
  | startAtRun (idx : ℕ)
  | tick (now : ℤ)

/-- What is seen of a call: a tick has its command, the place it was given at, and the confirmations asked. -/
inductive Answer where
  | silent
  | started (ok : Bool)
  | ticked (cmd : CmdKind) (place : StopPlace) (asked : List (StopPlace × Bool))
  deriving DecidableEq, Repr

def step (s : Core R) : Event R → Core R × Answer
  | .pose pose now => (s.onPose pose now, .silent)
  | .velocity vNorth vEast yawRateNed now => (s.onVelocity vNorth vEast yawRateNed now, .silent)
  | .gps fixType hAcc now => (s.onGps fixType hAcc now, .silent)
  | .configure params => ({ s with params }, .silent)
  | .pause => (s.pause, .silent)
  | .startAtRun idx => ((s.startAtRun idx).1, .started (s.startAtRun idx).2)
  | .tick now => (s.tick now, .ticked (s.tick now).out.cmd (s.tick now).place (s.tick now).out.asked)

/-- No tick drives away from the corner with the stop still confirmed. -/
def KeepsStop (_ : List (Entry (Event R) Answer)) (s : Core R) : Event R → Prop
  | .tick now => s.stopKept now = true
  | _ => True

instance (h : List (Entry (Event R) Answer)) (s : Core R) (e : Event R) : Decidable (KeepsStop h s e) := by
  cases e <;> unfold KeepsStop <;> infer_instance

abbrev History (R : Type) [Scalar R] := List (Entry (Event R) Answer)

/-- A tick that drives. -/
def drives (x : Entry (Event R) Answer) : Bool :=
  match x.out with
  | .ticked .track _ _ => true
  | _ => false

/-- A tick that confirmed a stop for `place`, or a start at its run from standing. -/
def confirmsStop (place : StopPlace) (x : Entry (Event R) Answer) : Bool :=
  match x.event, x.out with
  | _, .ticked _ _ asked => asked.any fun c => c.2 && c.1.confirms place
  | .startAtRun idx, .started ok => ok && decide (0 < idx) && place = .entry idx
  | _, _ => false

/-- A confirmation for `place`, with no drive from it to the newest entry. -/
def Standing (place : StopPlace) (h : History R) : Prop :=
  ∃ since x older, h = since ++ x :: older ∧ confirmsStop place x = true ∧ drives x = false ∧ ∀ y ∈ since, drives y = false

/-- A pivot is from a standing rover. -/
def FromStanding (x : Entry (Event R) Answer) (earlier : History R) : Prop :=
  ∀ place asked, x.out = .ticked .pivot place asked → Standing place (x :: earlier)

theorem Standing.now {place : StopPlace} {x : Entry (Event R) Answer} (h : History R) (confirms : confirmsStop place x = true)
    (still : drives x = false) : Standing place (x :: h) :=
  ⟨[], x, h, rfl, confirms, still, by simp⟩

theorem Standing.later {place : StopPlace} {x : Entry (Event R) Answer} {h : History R} (standing : Standing place h)
    (still : drives x = false) : Standing place (x :: h) := by
  obtain ⟨since, y, older, rfl, confirms, stopped, none⟩ := standing
  refine ⟨x :: since, y, older, rfl, confirms, stopped, ?_⟩
  intro z member
  rcases List.mem_cons.mp member with rfl | member
  · exact still
  · exact none z member

/-- The same read off a history from the newest entry on. -/
def stood (place : StopPlace) : History R → Bool
  | [] => false
  | x :: h => !drives x && (confirmsStop place x || stood place h)

theorem Standing.stood {place : StopPlace} {h : History R} (standing : Standing place h) : stood place h = true := by
  obtain ⟨since, x, older, rfl, confirms, stopped, none⟩ := standing
  induction since with
  | nil => simp [RppCore.stood, confirms, stopped]
  | cons y since ih =>
    have rest := ih fun z member => none z (List.mem_cons_of_mem _ member)
    have still := none y List.mem_cons_self
    simp only [List.cons_append, RppCore.stood, still, rest, Bool.or_true, Bool.not_false, Bool.and_true]

/-- A confirmed stop is one for this place with no drive since. -/
def Backed (h : History R) (s : Core R) : Prop :=
  s.run = none ∨ (s.corner.stopComplete = true → s.Steady ∧ Standing s.place h)

theorem silent_still {e : Event R} : drives (⟨e, .silent⟩ : Entry (Event R) Answer) = false := rfl

/-- An input that leaves the stop and the place alone. -/
theorem Backed.input {h : History R} {s s' : Core R} {e : Event R} (backed : Backed h s) (same : s'.mark = s.mark) :
    Backed (⟨e, .silent⟩ :: h) s' := by
  rcases backed with idle | backed
  · left
    simp only [Core.mark, Prod.mk.injEq] at same
    exact same.2.2.2.2.trans idle
  · right
    intro stop
    obtain ⟨steady, standing⟩ := backed (Core.stop_of_mark same ▸ stop)
    exact ⟨Core.steady_of_mark same steady, Core.place_of_mark same ▸ standing.later silent_still⟩

/-- Without a run a tick only stops. -/
theorem Core.frontEnd_idle {s : Core R} (idle : s.run = none) (now : ℤ) (fix : Fix R) (t : Core R) :
    s.frontEnd now ≠ .go t fix := by
  simp only [Core.frontEnd]
  generalize s.params.poseMaxAge + (if s.params.useImuExtrapolation = true then s.params.imuMaxExtrapAge else lit 0) = maxAge
  split
  · exact nofun
  split
  · exact nofun
  obtain ⟨r, made⟩ : ∃ r : Core R × Bool × RtkReason, r = if s.params.requireRtkFix = true then s.rtkGate now
      else ({ s with rtkRecoverSince := { s.rtkRecoverSince with has := false } }, true, .ok) := ⟨_, rfl⟩
  have gated : r.1.mark = s.mark := by
    rw [made]
    split
    · exact (rtkGate_mark s now).1
    · rfl
  rw [← made]
  obtain ⟨u, ok, reason⟩ := r
  have empty : u.path = [] := by
    rw [path_of_mark gated, path, idle]
    rfl
  have noted : Core.path { u with out := { u.out with rtkReason := reason } } = [] := empty
  split
  · exact nofun
  · rw [if_pos (by rw [noted]; rfl)]
    exact nofun

theorem Core.tick_idle {s : Core R} (idle : s.run = none) (now : ℤ) :
    (s.tick now).run = none ∧ (s.tick now).out.cmd = .stop := by
  have gates := frontEnd_gates (s.beginTick now) now rfl
  have never := frontEnd_idle (s := s.beginTick now) idle now
  simp only [tick, controlLoopImpl, beforeTracking]
  generalize (s.beginTick now).frontEnd now = stage at gates never ⊢
  cases stage with
  | halt t =>
    obtain ⟨same, _, cmd⟩ := gates
    simp only [mark, Prod.mk.injEq] at same
    exact ⟨same.2.2.2.2.trans idle, cmd⟩
  | go t fix => exact absurd rfl (never fix t)

theorem installMission_backed (s : Core R) (runs : List (ConditionedRun R)) : Backed [] (s.installMission runs) := by
  simp only [Core.installMission]
  split
  · exact .inl rfl
  · rename_i loaded
    have first : 0 < runs.length := List.length_pos_iff.mpr (by simpa using loaded)
    right
    intro stop
    exact Bool.noConfusion ((Core.applyRun_spec 0 false first).2.2 stop).1

theorem startAtRun_backed {h : History R} {s : Core R} (idx : ℕ) (before : Backed h s) :
    Backed (⟨.startAtRun idx, .started (s.startAtRun idx).2⟩ :: h) (s.startAtRun idx).1 := by
  have still : ∀ ok, drives (⟨.startAtRun idx, .started ok⟩ : Entry (Event R) Answer) = false := fun _ => rfl
  simp only [Core.startAtRun]
  split
  · rcases before with idle | before
    · exact .inl idle
    · exact .inr fun stop => ⟨(before stop).1, (before stop).2.later (still _)⟩
  · rename_i inside
    right
    obtain ⟨_, run, carried⟩ := Core.applyRun_spec (s := s) idx (decide (0 < idx)) (Nat.lt_of_not_le inside)
    obtain ⟨t, made⟩ : ∃ t : Core R, t = s.applyRun idx (decide (0 < idx)) := ⟨_, rfl⟩
    rw [← made] at run carried ⊢
    have started : t.corner.stopComplete = true → t.Steady ∧ Standing t.place (⟨.startAtRun idx, .started true⟩ :: h) := by
      intro stop
      obtain ⟨positive, pending⟩ := carried stop
      refine ⟨fun other => absurd other (by rw [pending]; decide), .now h ?_ (still true)⟩
      rw [Core.place, if_pos pending, run]
      simp only [confirmsStop, positive, Bool.true_and, decide_true]
    split
    · exact started
    · exact started

/-- One tick that keeps the stop. -/
theorem tick_backed {h : History R} {s : Core R} {now : ℤ} (before : Backed h s) (kept : s.stopKept now = true) :
    let x : Entry (Event R) Answer := ⟨.tick now, (step s (.tick now)).2⟩
    Backed (x :: h) (s.tick now) ∧ FromStanding x h := by
  intro x
  rcases before with idle | before
  · obtain ⟨still, cmd⟩ := Core.tick_idle idle now
    refine ⟨.inl still, fun place asked same => ?_⟩
    injection same with pivot
    rw [cmd] at pivot
    cases pivot
  · have ends := Core.tick_ends s now (fun stop => (before stop).1) kept
    have standing : (s.tick now).corner.stopComplete = true → (s.tick now).Steady ∧ Standing (s.tick now).place (x :: h) := by
      intro stop
      have still : drives x = false := by
        cases cmd : (s.tick now).out.cmd with
        | track => rw [ends.track cmd] at stop; cases stop
        | stop | brake | pivot | creep => simp only [x, step, drives, cmd]
      rcases ends.moves.stop stop with same | ⟨steady, c, member, confirms⟩
      · have before := before (Core.stop_of_mark same ▸ stop)
        exact ⟨Core.steady_of_mark same before.1, Core.place_of_mark same ▸ before.2.later still⟩
      · refine ⟨steady, .now h ?_ still⟩
        exact List.any_eq_true.mpr ⟨(c, true), member, confirms⟩
    refine ⟨.inr standing, fun place asked same => ?_⟩
    injection same with pivot here
    exact here ▸ (standing (ends.pivot pivot)).2

theorem step_backed {h : History R} {s : Core R} (e : Event R) (before : Backed h s) (kept : KeepsStop h s e) :
    Backed (⟨e, (step s e).2⟩ :: h) (step s e).1 ∧ FromStanding ⟨e, (step s e).2⟩ h := by
  have noPivot : ∀ answer, (∀ cmd place asked, answer ≠ .ticked cmd place asked) →
      FromStanding (⟨e, answer⟩ : Entry (Event R) Answer) h :=
    fun answer silent place asked same => absurd same (silent _ _ _)
  cases e with
  | pose pose now =>
    refine ⟨before.input ?_, noPivot _ nofun⟩
    simp only [step, Core.onPose]
    repeat' split
    all_goals rfl
  | velocity vNorth vEast yawRateNed now =>
    refine ⟨before.input ?_, noPivot _ nofun⟩
    simp only [step, Core.onVelocity]
    split <;> rfl
  | gps fixType hAcc now => exact ⟨before.input rfl, noPivot _ nofun⟩
  | configure params => exact ⟨before.input rfl, noPivot _ nofun⟩
  | pause =>
    refine ⟨.inr fun stop => ?_, noPivot _ nofun⟩
    cases stop
  | startAtRun idx => exact ⟨startAtRun_backed idx before, noPivot _ nofun⟩
  | tick now => exact tick_backed before kept

/-- In every run of inputs and ticks on an installed mission, as long as no tick drives away from a corner
whose stop is confirmed, every pivot is from a standing rover. -/
theorem pivot_from_standing (s₀ : Core R) (runs : List (ConditionedRun R)) {h : History R} {s : Core R}
    (run : RunIf step KeepsStop (s₀.installMission runs) h s) : Everywhere FromStanding h := by
  have both : Backed h s ∧ Everywhere FromStanding h := by
    refine run.invariant (fun h s => Backed h s ∧ Everywhere FromStanding h) ⟨installMission_backed s₀ runs, trivial⟩ ?_
    intro h s e ⟨before, all⟩ kept
    obtain ⟨after, new⟩ := step_backed e before kept
    exact ⟨after, new, all⟩
  exact both.2

section Example

/-- One round of inputs and a tick: an RTK fix, a pose on the first leg heading north, a velocity. -/
def round (n v : ℚ) (ms : ℤ) : List (Event Flt) :=
  let now := ms * 1000000
  [.gps 6 (.fin 0.01) now, .pose ⟨.fin n, .fin 0, .fin 0⟩ now, .velocity (.fin v) (.fin 0) (.fin 0) now, .tick now]

/-- One metre north, then one metre east, in the segment profile. -/
def ell : ConditionedRun Flt :=
  { pts := [⟨.fin 0, .fin 0⟩, ⟨.fin 1, .fin 0⟩, ⟨.fin 1, .fin 1⟩], flags := [false, false, false], segment := true
    length := .fin 2, cumS := [.fin 0, .fin 1, .fin 2], closed := false }

/-- The rover stands 3 cm before the corner: entry alignment, then the stop at the corner and its pivot. -/
def cornerStop : List (Event Flt) :=
  round 0.97 0 0 ++ round 0.97 0 1000 ++ round 0.97 0 1300 ++ round 0.97 0 1320 ++ round 0.97 0 1520 ++ round 0.97 0 1820

/-- The position moves out of the acceptance radius and back in, now at 0.3 m/s. -/
def drift : List (Event Flt) := round 0.94 0.1 1840 ++ round 0.96 0.3 1860

theorem pivot_from_standing_corner :
    Everywhere FromStanding (exec step [] (Core.installMission {} [ell]) cornerStop).1 ∧
      (exec step [] (Core.installMission {} [ell]) cornerStop).1.head?.map Entry.out =
        some (.ticked .pivot (.corner 0 0) [(.corner 0 0, true)]) :=
  ⟨pivot_from_standing {} [ell] (exec_runIf cornerStop (by decide +kernel) .start), by decide +kernel⟩

/-- After the drift the rover pivots while it moves: the last confirmation is older than a drive. -/
theorem pivot_after_drive : ∃ (h : History Flt) (s : Core Flt),
    Run step (Core.installMission {} [ell]) h s ∧ ¬ Everywhere FromStanding h := by
  refine ⟨_, _, exec_run (cornerStop ++ drift) .start, fun all => ?_⟩
  have pivot : (exec step [] (Core.installMission {} [ell]) (cornerStop ++ drift)).1.head?.map Entry.out =
      some (.ticked .pivot (.corner 0 0) []) := by decide +kernel
  have drove : stood (.corner 0 0) (exec step [] (Core.installMission {} [ell]) (cornerStop ++ drift)).1 = false := by
    decide +kernel
  cases history : (exec step [] (Core.installMission {} [ell]) (cornerStop ++ drift)).1 with
  | nil => rw [history] at pivot; cases pivot
  | cons x earlier =>
    rw [history] at all pivot drove
    have standing := all.1 (.corner 0 0) [] (Option.some.inj pivot)
    rw [standing.stood] at drove
    cases drove

end Example

end Dyx3.RppCore
