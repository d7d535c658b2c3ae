import Dyx3.Rpp.PivotStops

/-!
What a tick of `RppCore` leaves alone: the installed runs and the parameters always, the hand-off unless the
point hold is enabled, and a finished path. With the point hold enabled no tick is silent.
-/

namespace Dyx3.RppCore

open Lib Scalar

variable {R : Type} [Scalar R]

def Stage.core {A : Type} : Stage R A → Core R
  | .halt s | .go s _ => s

namespace Core

/-- The runs, the parameters and the hand-off of the tick. -/
def frame (s : Core R) : List (ConditionedRun R) × Params R × Handoff := (s.runs, s.params, s.out.handoff)

section Publish

variable (s : Core R)

@[simp] theorem frame_publishZero (state : StateCode) : (s.publishZero state).frame = s.frame := by
  rw [publishZero]
  split <;> rfl

theorem published_publishZero (state : StateCode) : (s.publishZero state).out.velocityPublished = true := by
  rw [publishZero]
  split <;> rfl

theorem pathDone_publishZero (state : StateCode) : (s.publishZero state).pathDone = s.pathDone := by
  rw [publishZero]
  split <;> rfl

@[simp] theorem frame_note (place : StopPlace) (answer : Option Bool) : (s.note place answer).frame = s.frame := by
  cases answer <;> rfl

@[simp] theorem frame_applyRun (idx : ℕ) (preStopped : Bool) : (s.applyRun idx preStopped).frame = s.frame := by
  rw [applyRun]
  split
  · rfl
  · rename_i run _
    rcases s.alignment idx run with ⟨pending, turn⟩
    rfl

theorem applyRun_keeps (idx : ℕ) (preStopped : Bool) :
    (s.applyRun idx preStopped).runs = s.runs ∧ (s.applyRun idx preStopped).params = s.params :=
  ⟨congrArg (·.1) (frame_applyRun s idx preStopped), congrArg (·.2.1) (frame_applyRun s idx preStopped)⟩

@[simp] theorem frame_advanceRun (preStopped : Bool) : (s.advanceRun preStopped).1.frame = s.frame := by
  rw [advanceRun]
  split
  · rfl
  · exact frame_applyRun s _ _

@[simp] theorem frame_updatePathProgress (i : ℕ) (t : R) : (s.updatePathProgress i t).frame = s.frame := by
  rw [updatePathProgress]
  split <;> rfl

theorem frame_stepCorner (place : StopPlace) (i : CornerInput R) : (s.stepCorner place i).2.frame = s.frame := by
  simp only [stepCorner]
  exact frame_note _ _ _

theorem frame_stepHold (place : StopPlace) (now : ℤ) (tel : StopTelemetry R) : (s.stepHold place now tel).2.frame = s.frame := by
  simp only [stepHold]
  exact frame_note _ _ _

end Publish

variable (s : Core R) (fix : Fix R) (now : ℤ)

/-- The entry alignment publishes while it holds. -/
theorem runAlignmentHold_frame : (s.runAlignmentHold fix now).1.frame = s.frame ∧
    ((s.runAlignmentHold fix now).2 = true → (s.runAlignmentHold fix now).1.out.velocityPublished = true) := by
  simp only [runAlignmentHold]
  split
  · exact ⟨rfl, fun held => Bool.noConfusion held⟩
  split
  · exact ⟨rfl, fun held => Bool.noConfusion held⟩
  split
  · exact ⟨rfl, fun held => Bool.noConfusion held⟩
  · generalize CornerInput.mk now _ _ _ _ = input
    have kept := frame_stepCorner s (.entry s.runIdx) input
    generalize s.stepCorner (.entry s.runIdx) input = r at kept ⊢
    obtain ⟨co, t⟩ := r
    dsimp only at kept ⊢
    cases co.action with
    | advance => exact ⟨kept, fun held => Bool.noConfusion held⟩
    | settleBrake | brake | pivot => exact ⟨kept, fun _ => rfl⟩

theorem frame_holdBeforeRunAdvance : (s.holdBeforeRunAdvance fix now).frame = s.frame := by
  simp only [holdBeforeRunAdvance]
  split
  · rfl
  split
  · exact frame_advanceRun s false
  · have begun : (if s.runBoundaryStopPending = true then s
        else { s.resetCornerPivotState with runBoundaryStopPending := true }).frame = s.frame := by
      split <;> rfl
    generalize (if s.runBoundaryStopPending = true then s
        else { s.resetCornerPivotState with runBoundaryStopPending := true }) = u at begun ⊢
    have kept := frame_stepHold u (.boundary u.runIdx) now (u.telemetry now fix.yaw)
    generalize u.stepHold (.boundary u.runIdx) now (u.telemetry now fix.yaw) = r at kept ⊢
    obtain ⟨stopped, t⟩ := r
    dsimp only at kept ⊢
    split
    · exact (frame_advanceRun _ true).trans (kept.trans begun)
    · exact kept.trans begun

theorem frame_holdAtCompletion : (s.holdAtCompletion fix now).frame = s.frame := by
  simp only [holdAtCompletion]
  have begun : (if s.completionStopPending = true then s
      else { s.resetCornerPivotState with completionStopPending := true }).frame = s.frame := by
    split <;> rfl
  generalize (if s.completionStopPending = true then s
      else { s.resetCornerPivotState with completionStopPending := true }) = u at begun ⊢
  have kept := frame_stepHold u (.completion u.runIdx) now (u.telemetry now fix.yaw)
  generalize u.stepHold (.completion u.runIdx) now (u.telemetry now fix.yaw) = r at kept ⊢
  obtain ⟨stopped, t⟩ := r
  dsimp only at kept ⊢
  split
  · exact (frame_publishZero _ _).trans (kept.trans begun)
  · exact kept.trans begun

theorem frame_endpointHold (tel : StopTelemetry R) (o : EndOffset R) : (s.endpointHold fix tel o).frame = s.frame := by
  simp only [endpointHold]
  generalize (if lit 0 < o.residual ∧ lit 0 < s.params.segmentEndpointPreciseDecel then
    sqrt (lit 2 * s.params.segmentEndpointPreciseDecel * o.residual) else lit 0) = vProfile
  split <;> rfl

theorem frame_endpointStop (o : EndOffset R) : (s.endpointStop fix o now).frame = s.frame := by
  simp only [endpointStop]
  generalize s.stopConfirm.satisfied now (s.telemetry now fix.yaw) s.stopParams = answer
  obtain ⟨stopped, stopConfirm⟩ := answer
  dsimp only
  obtain ⟨t, made⟩ : ∃ t : Core R, t = { s with stopConfirm }.note (.endpoint s.runIdx) (some stopped) := ⟨_, rfl⟩
  have held : t.frame = s.frame := by
    rw [made]
    exact frame_note _ _ _
  rw [← made]
  split
  · exact (frame_holdAtCompletion _ fix now).trans held
  split
  · exact held
  split
  · exact held
  split
  · exact (frame_endpointHold _ fix _ o).trans held
  · exact held

theorem frame_preciseStopTick : (s.preciseStopTick fix now).1.frame = s.frame := by
  simp only [preciseStopTick]
  split
  · rfl
  split
  · rfl
  split
  · rfl
  split
  · rfl
  split
  · rfl
  · refine (frame_endpointStop _ fix now _).trans ?_
    split <;> rfl

theorem frame_endOfRun (more : Prop) [Decidable more] :
    (if more then s.holdBeforeRunAdvance fix now else s.holdAtCompletion fix now).frame = s.frame := by
  split
  · exact frame_holdBeforeRunAdvance s fix now
  · exact frame_holdAtCompletion s fix now

theorem rtkGate_frame : (s.rtkGate now).1.frame = s.frame ∧ (s.rtkGate now).1.pathDone = s.pathDone := by
  simp only [rtkGate]
  split
  · exact ⟨rfl, rfl⟩
  · repeat' split
    all_goals exact ⟨rfl, rfl⟩

/-- A stage keeps the frame, and publishes when it ends the tick. -/
def Loud {A : Type} (s : Core R) : Stage R A → Prop
  | .halt t => t.frame = s.frame ∧ t.out.velocityPublished = true ∧ t.pathDone = s.pathDone
  | .go t _ => t.frame = s.frame ∧ t.pathDone = s.pathDone

variable {s} in
theorem Loud.zero {A : Type} {u : Core R} (state : StateCode) (same : u.frame = s.frame) (done : u.pathDone = s.pathDone) :
    Loud (A := A) s (.halt (u.publishZero state)) :=
  ⟨(frame_publishZero u state).trans same, published_publishZero u state, (pathDone_publishZero u state).trans done⟩

theorem jumpGuard_loud (pos : Pos R) : Loud s (s.jumpGuard pos now) := by
  simp only [jumpGuard]
  split
  · split
    · exact ⟨rfl, rfl⟩
    · exact .zero _ rfl rfl
  · exact ⟨rfl, rfl⟩

/-- The gates, which a finished path never passes. -/
theorem frontEnd_loud : Loud s (s.frontEnd now) ∧ (s.pathDone = true → ∃ t, s.frontEnd now = .halt t) := by
  simp only [frontEnd]
  generalize s.params.poseMaxAge + (if s.params.useImuExtrapolation = true then s.params.imuMaxExtrapAge else lit 0) = maxAge
  split
  · exact ⟨.zero _ rfl rfl, fun _ => ⟨_, rfl⟩⟩
  split
  · exact ⟨.zero _ rfl rfl, fun _ => ⟨_, rfl⟩⟩
  obtain ⟨r, made⟩ : ∃ r : Core R × Bool × RtkReason, r = if s.params.requireRtkFix = true then s.rtkGate now
      else ({ s with rtkRecoverSince := { s.rtkRecoverSince with has := false } }, true, .ok) := ⟨_, rfl⟩
  have gated : r.1.frame = s.frame ∧ r.1.pathDone = s.pathDone := by
    rw [made]
    split
    · exact rtkGate_frame s now
    · exact ⟨rfl, rfl⟩
  rw [← made]
  obtain ⟨t, ok, reason⟩ := r
  dsimp only at gated ⊢
  obtain ⟨u, noted⟩ : ∃ u : Core R, u = { t with out := { t.out with rtkReason := reason } } := ⟨_, rfl⟩
  have same : u.frame = s.frame := by rw [noted]; exact gated.1
  have done : u.pathDone = s.pathDone := by rw [noted]; exact gated.2
  rw [← noted]
  split
  · exact ⟨.zero _ same done, fun _ => ⟨_, rfl⟩⟩
  split
  · exact ⟨.zero _ same done, fun _ => ⟨_, rfl⟩⟩
  split
  · exact ⟨.zero _ same done, fun _ => ⟨_, rfl⟩⟩
  · rename_i unfinished
    have jump := jumpGuard_loud u now (s.extrapolated now (nsToS (now - s.poseRecv)))
    generalize u.jumpGuard (s.extrapolated now (nsToS (now - s.poseRecv))) now = stage at jump ⊢
    refine ⟨?_, fun finished => absurd (gated.2.trans finished) unfinished⟩
    cases stage with
    | halt v => exact ⟨jump.1.trans same, jump.2.1, jump.2.2.trans done⟩
    | go v _ => exact ⟨jump.1.trans same, jump.2.trans done⟩

theorem projectSmooth_loud : Loud s (s.projectSmooth fix) := by
  simp only [projectSmooth]
  split
  · exact ⟨rfl, rfl⟩
  split
  · exact .zero _ rfl rfl
  · refine ⟨(frame_updatePathProgress _ _ _).trans rfl, ?_⟩
    rw [updatePathProgress]
    split <;> rfl

/-- The goal test without the point hold; with it the tick ends there and publishes. -/
theorem goalCheck_frame (open' : s.params.pointHoldEnabled = false) : (s.goalCheck fix now).core.frame = s.frame := by
  simp only [goalCheck, open', Bool.false_eq_true, if_false]
  split
  · exact frame_holdBeforeRunAdvance s fix now
  split
  · exact frame_holdAtCompletion s fix now
  · have kept : (if (s.profileSegment && decide (s.runs.length ≤ s.runIdx + 1) && decide (s.runMinTravel ≤ s.pathTravel)) = true
        then s.preciseStopTick fix now else (s, false)).1.frame = s.frame := by
      split
      · exact frame_preciseStopTick s fix now
      · rfl
    generalize (if (s.profileSegment && decide (s.runs.length ≤ s.runIdx + 1) && decide (s.runMinTravel ≤ s.pathTravel)) = true
        then s.preciseStopTick fix now else (s, false)) = r at kept ⊢
    obtain ⟨t, precise⟩ := r
    dsimp only at kept ⊢
    split
    · exact kept
    split
    · exact (frame_endOfRun t fix now _).trans kept
    · exact kept

theorem goalCheck_held (held : s.params.pointHoldEnabled = true) : s.goalCheck fix now = .halt (s.handOff .pointHold) := by
  simp only [goalCheck, held, if_true]

theorem frame_cornerBlock (x : R) : (s.cornerBlock fix x now).core.frame = s.frame := by
  simp only [cornerBlock]
  generalize CornerInput.mk now _ _ _ _ = input
  have kept := frame_stepCorner s (.corner s.runIdx s.segmentIdx) input
  generalize s.stepCorner (.corner s.runIdx s.segmentIdx) input = r at kept ⊢
  obtain ⟨co, t⟩ := r
  dsimp only at kept ⊢
  cases co.action with
  | advance | settleBrake | brake | pivot => exact kept

theorem frame_segmentEnd : (s.segmentEnd fix now).core.frame = s.frame := by
  simp only [segmentEnd]
  split
  · have kept := frame_preciseStopTick s fix now
    generalize s.preciseStopTick fix now = r at kept ⊢
    obtain ⟨t, precise⟩ := r
    dsimp only at kept ⊢
    split
    · exact kept
    split
    · exact (frame_endOfRun t fix now _).trans kept
    · exact kept
  · rfl

theorem frame_onSegment : (s.onSegment fix now).core.frame = s.frame := by
  simp only [onSegment]
  split
  · exact frame_publishZero s _
  split
  · exact frame_publishZero s _
  have kept := frame_updatePathProgress s s.segmentIdx (projectOntoSegment fix.pos s.path s.segmentIdx).t
  generalize s.updatePathProgress s.segmentIdx (projectOntoSegment fix.pos s.path s.segmentIdx).t = u at kept ⊢
  have ended : (if (decide (s.path.length - 2 ≤ s.segmentIdx)) = true then u.segmentEnd fix now else .go u ()).core.frame = s.frame := by
    split
    · exact (frame_segmentEnd u fix now).trans kept
    · exact kept
  generalize (if (decide (s.path.length - 2 ≤ s.segmentIdx)) = true then u.segmentEnd fix now else .go u ()) = stage at ended ⊢
  cases stage with
  | halt t => exact ended
  | go t _ =>
    dsimp only
    split
    · exact (frame_cornerBlock t fix now _).trans ended
    split
    · exact (frame_publishZero t _).trans ended
    · exact ended

theorem frame_segmentPass : (s.segmentPass fix now).core.frame = s.frame := by
  simp only [segmentPass]
  split
  · have kept := frame_advanceRun s false
    generalize s.advanceRun false = r at kept ⊢
    obtain ⟨t, advanced⟩ := r
    dsimp only at kept ⊢
    cases advanced with
    | true => exact kept
    | false => exact (frame_publishZero _ _).trans kept
  · exact (frame_onSegment _ fix now).trans rfl

theorem frame_segmentLoop (passes : ℕ) (s : Core R) : (segmentLoop fix now passes s).frame = s.frame := by
  induction passes generalizing s with
  | zero => rfl
  | succ passes ih =>
    rw [segmentLoop]
    have kept := frame_segmentPass s fix now
    cases passed : s.segmentPass fix now with
    | halt t =>
      rw [passed] at kept
      exact kept
    | go t _ =>
      rw [passed] at kept
      exact (ih t).trans kept

theorem frame_controlSmooth (proj : PathProjection R) : (s.controlSmooth fix proj).frame = s.frame := by
  rw [controlSmooth]
  split
  · exact frame_publishZero s _
  · rfl

/-- Everything before the tracking laws, with the point hold and without it. -/
theorem beforeTracking_frame :
    (s.params.pointHoldEnabled = false → (s.beforeTracking now).core.frame = s.frame) ∧
      (s.params.pointHoldEnabled = true → ∃ t, s.beforeTracking now = .halt t ∧ t.runs = s.runs ∧ t.params = s.params ∧
        t.out.velocityPublished = true) := by
  simp only [beforeTracking]
  have front := (frontEnd_loud s now).1
  generalize s.frontEnd now = stage at front ⊢
  cases stage with
  | halt t =>
    obtain ⟨kept, published, _⟩ := front
    exact ⟨fun _ => kept, fun _ => ⟨t, rfl, congrArg (·.1) kept, congrArg (·.2.1) kept, published⟩⟩
  | go t fix =>
    obtain ⟨kept, _⟩ := front
    dsimp only
    obtain ⟨aligned, holding⟩ := runAlignmentHold_frame t fix now
    generalize t.runAlignmentHold fix now = r at aligned holding ⊢
    obtain ⟨u, held⟩ := r
    dsimp only at aligned holding ⊢
    have here := aligned.trans kept
    cases held with
    | true => exact ⟨fun _ => here, fun _ => ⟨u, rfl, congrArg (·.1) here, congrArg (·.2.1) here, holding rfl⟩⟩
    | false =>
      simp only [Bool.false_eq_true, if_false]
      have smooth := projectSmooth_loud u fix
      generalize u.projectSmooth fix = stage at smooth ⊢
      cases stage with
      | halt v =>
        have here := smooth.1.trans here
        exact ⟨fun _ => here, fun _ => ⟨v, rfl, congrArg (·.1) here, congrArg (·.2.1) here, smooth.2.1⟩⟩
      | go v proj =>
        have here := smooth.1.trans here
        have params : v.params = s.params := congrArg (·.2.1) here
        dsimp only
        constructor
        · intro enabled
          have goal := goalCheck_frame v fix now (by rw [params]; exact enabled)
          generalize v.goalCheck fix now = stage at goal ⊢
          cases stage with
          | halt w | go w _ => exact goal.trans here
        · intro enabled
          rw [goalCheck_held v fix now (by rw [params]; exact enabled)]
          exact ⟨_, rfl, congrArg (·.1) here, params, rfl⟩

/-- Without the point hold a tick keeps the runs and the parameters and hands nothing off. -/
theorem tick_open (enabled : s.params.pointHoldEnabled = false) :
    (s.tick now).runs = s.runs ∧ (s.tick now).params = s.params ∧ (s.tick now).out.handoff = .none := by
  have before := (beforeTracking_frame (s.beginTick now) now).1 enabled
  have kept : ((s.beginTick now).controlLoopImpl now).frame = (s.beginTick now).frame := by
    simp only [controlLoopImpl]
    generalize (s.beginTick now).beforeTracking now = stage at before ⊢
    cases stage with
    | halt t => exact before
    | go t data =>
      obtain ⟨fix, proj⟩ := data
      dsimp only
      split
      · exact (frame_segmentLoop fix now _ t).trans before
      · exact (frame_controlSmooth t fix proj).trans before
  exact ⟨congrArg (·.1) kept, congrArg (·.2.1) kept, congrArg (·.2.2) kept⟩

/-- With the point hold it keeps them too and always publishes. -/
theorem tick_held (enabled : s.params.pointHoldEnabled = true) :
    (s.tick now).runs = s.runs ∧ (s.tick now).params = s.params ∧ (s.tick now).out.velocityPublished = true := by
  obtain ⟨t, halts, runs, params, published⟩ := (beforeTracking_frame (s.beginTick now) now).2 enabled
  simp only [tick, controlLoopImpl, halts]
  exact ⟨runs, params, published⟩

theorem tick_keeps : (s.tick now).runs = s.runs ∧ (s.tick now).params = s.params := by
  cases enabled : s.params.pointHoldEnabled with
  | true => exact ⟨(tick_held s now enabled).1, (tick_held s now enabled).2.1⟩
  | false => exact ⟨(tick_open s now enabled).1, (tick_open s now enabled).2.1⟩

/-- A finished path stays finished. -/
theorem tick_done (done : s.pathDone = true) : (s.tick now).pathDone = true := by
  obtain ⟨front, halts⟩ := frontEnd_loud (s.beginTick now) now
  obtain ⟨t, halted⟩ := halts done
  rw [halted] at front
  simp only [tick, controlLoopImpl, beforeTracking, halted]
  exact front.2.2.trans done

end Core

end Dyx3.RppCore
