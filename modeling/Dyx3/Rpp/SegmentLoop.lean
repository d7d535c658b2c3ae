import Dyx3.Rpp.TickFrame

/-!
The loop of `control_segment`: how many passes it makes, where it leaves the segment index, and that every point it
reads is one of the run.
-/

namespace Dyx3.RppCore.Core

open Lib Scalar

variable {R : Type} [Scalar R]

/-! ### Passes -/

/-- The loop pass by pass, with their number. -/
inductive SegmentRun (fix : Fix R) (now : ℤ) : Core R → Core R → ℕ → Prop
  | halt {s t : Core R} : s.segmentPass fix now = .halt t → SegmentRun fix now s t 1
  | go {s t u : Core R} {passes : ℕ} : s.segmentPass fix now = .go u () → SegmentRun fix now u t passes →
    SegmentRun fix now s t (passes + 1)

theorem segmentLoop_run {fix : Fix R} {now : ℤ} {passes : ℕ} {s : Core R} (one : 1 ≤ passes)
    (enough : s.path.length - 1 - s.segmentIdx ≤ passes) :
    ∃ made ≤ passes, SegmentRun fix now s (segmentLoop fix now passes s) made := by
  induction passes generalizing s with
  | zero => omega
  | succ passes ih =>
    rw [segmentLoop]
    cases passed : s.segmentPass fix now with
    | halt t => exact ⟨1, one, .halt passed⟩
    | go u _ =>
      -- a passed corner is not the last vertex, so a segment is left
      obtain ⟨further, inside, same⟩ := segmentPass_go passed
      have left : u.path.length - 1 - u.segmentIdx ≤ passes := by
        rw [same]
        omega
      obtain ⟨made, few, run⟩ := ih (by omega) left
      exact ⟨made + 1, by omega, .go passed run⟩

/-! ### The segment index -/

/-- The segment and the run the core is on. -/
def leg (s : Core R) : ℕ × ℕ := (s.segmentIdx, s.runIdx)

/-- The leg is as it was, or the next run was started. -/
def Onward (s t : Core R) : Prop := t.leg = s.leg ∨ t.runIdx = s.runIdx + 1

theorem Onward.of_leg {s t u : Core R} (onward : Onward t u) (same : t.leg = s.leg) : Onward s u := by
  rcases onward with kept | next
  · exact .inl (kept.trans same)
  · refine .inr (next.trans ?_)
    rw [show t.runIdx = s.runIdx from congrArg Prod.snd same]

/-- A stage that ends the tick moves onward; one that goes on leaves what it should. -/
def Leaves (s : Core R) (going : Core R → Prop) : Stage R Unit → Prop
  | .halt t => Onward s t
  | .go t _ => going t

section

variable (s : Core R) (fix : Fix R) (now : ℤ)

theorem leg_publishZero (state : StateCode) : (s.publishZero state).leg = s.leg := by
  rw [publishZero]
  split <;> rfl

theorem leg_note (place : StopPlace) (answer : Option Bool) : (s.note place answer).leg = s.leg := by
  cases answer <;> rfl

theorem leg_updatePathProgress (i : ℕ) (t : R) : (s.updatePathProgress i t).leg = s.leg := by
  rw [updatePathProgress]
  split <;> rfl

theorem leg_stepHold (place : StopPlace) (tel : StopTelemetry R) : (s.stepHold place now tel).2.leg = s.leg := by
  simp only [stepHold]
  exact leg_note _ _ _

theorem runIdx_advanceRun (preStopped : Bool) (more : s.runIdx + 1 < s.runs.length) :
    (s.advanceRun preStopped).1.runIdx = s.runIdx + 1 := by
  rw [advanceRun, if_neg (not_le.mpr more), applyRun]
  split
  · rename_i none
    exact absurd (List.getElem?_eq_none_iff.mp none) (not_le.mpr more)
  · rename_i run _
    rcases s.alignment (s.runIdx + 1) run with ⟨pending, turn⟩
    rfl

theorem onward_holdBeforeRunAdvance : Onward s (s.holdBeforeRunAdvance fix now) := by
  simp only [holdBeforeRunAdvance]
  split
  · exact .inl rfl
  rename_i more
  rw [not_le] at more
  split
  · exact .inr (runIdx_advanceRun s false more)
  · have begun : (if s.runBoundaryStopPending = true then s
        else { s.resetCornerPivotState with runBoundaryStopPending := true }).leg = s.leg := by
      split <;> rfl
    have installed : (if s.runBoundaryStopPending = true then s
        else { s.resetCornerPivotState with runBoundaryStopPending := true }).runs = s.runs := by
      split <;> rfl
    generalize (if s.runBoundaryStopPending = true then s
        else { s.resetCornerPivotState with runBoundaryStopPending := true }) = u at begun installed ⊢
    have kept := leg_stepHold u now (.boundary u.runIdx) (u.telemetry now fix.yaw)
    have frame := frame_stepHold u (.boundary u.runIdx) now (u.telemetry now fix.yaw)
    generalize u.stepHold (.boundary u.runIdx) now (u.telemetry now fix.yaw) = r at kept frame ⊢
    obtain ⟨stopped, t⟩ := r
    dsimp only at kept frame ⊢
    have same := kept.trans begun
    have at' : t.runIdx = s.runIdx := congrArg Prod.snd same
    have runs : t.runs = s.runs := (congrArg Prod.fst frame).trans installed
    split
    · refine .inr ?_
      rw [runIdx_advanceRun { t with runBoundaryStopPending := false } true (by rw [← runs] at more; rwa [at'])]
      exact congrArg (· + 1) at'
    · exact .inl same

theorem leg_holdAtCompletion : (s.holdAtCompletion fix now).leg = s.leg := by
  simp only [holdAtCompletion]
  have begun : (if s.completionStopPending = true then s
      else { s.resetCornerPivotState with completionStopPending := true }).leg = s.leg := by
    split <;> rfl
  generalize (if s.completionStopPending = true then s
      else { s.resetCornerPivotState with completionStopPending := true }) = u at begun ⊢
  have kept := leg_stepHold u now (.completion u.runIdx) (u.telemetry now fix.yaw)
  generalize u.stepHold (.completion u.runIdx) now (u.telemetry now fix.yaw) = r at kept ⊢
  obtain ⟨stopped, t⟩ := r
  dsimp only at kept ⊢
  split
  · exact (leg_publishZero _ _).trans (kept.trans begun)
  · exact kept.trans begun

theorem leg_endpointHold (tel : StopTelemetry R) (o : EndOffset R) : (s.endpointHold fix tel o).leg = s.leg := by
  simp only [endpointHold]
  generalize (if lit 0 < o.residual ∧ lit 0 < s.params.segmentEndpointPreciseDecel then
    sqrt (lit 2 * s.params.segmentEndpointPreciseDecel * o.residual) else lit 0) = vProfile
  split <;> rfl

theorem leg_endpointStop (o : EndOffset R) : (s.endpointStop fix o now).leg = s.leg := by
  simp only [endpointStop]
  generalize s.stopConfirm.satisfied now (s.telemetry now fix.yaw) s.stopParams = answer
  obtain ⟨stopped, stopConfirm⟩ := answer
  dsimp only
  obtain ⟨t, made⟩ : ∃ t : Core R, t = { s with stopConfirm }.note (.endpoint s.runIdx) (some stopped) := ⟨_, rfl⟩
  have held : t.leg = s.leg := by
    rw [made]
    exact leg_note _ _ _
  rw [← made]
  split
  · exact (leg_holdAtCompletion _ fix now).trans held
  split
  · exact held
  split
  · exact held
  split
  · exact (leg_endpointHold _ fix _ o).trans held
  · exact held

theorem leg_preciseStopTick : (s.preciseStopTick fix now).1.leg = s.leg := by
  simp only [preciseStopTick]
  iterate 5
    split
    · rfl
  refine (leg_endpointStop _ fix now _).trans ?_
  split <;> rfl

theorem leaves_segmentEnd : Leaves s (fun t => t.leg = s.leg) (s.segmentEnd fix now) := by
  simp only [segmentEnd]
  split
  · have kept := leg_preciseStopTick s fix now
    generalize s.preciseStopTick fix now = r at kept ⊢
    obtain ⟨t, precise⟩ := r
    dsimp only at kept ⊢
    split
    · exact .inl kept
    split
    · split
      · exact (onward_holdBeforeRunAdvance t fix now).of_leg kept
      · exact .inl ((leg_holdAtCompletion t fix now).trans kept)
    · exact kept
  · exact rfl

/-- A corner does not change the run. -/
theorem leaves_cornerBlock (x : R) : Leaves s (fun t => t.runIdx = s.runIdx) (s.cornerBlock fix x now) := by
  simp only [cornerBlock]
  generalize CornerInput.mk now _ _ _ _ = input
  have kept : (s.stepCorner (.corner s.runIdx s.segmentIdx) input).2.leg = s.leg := by
    simp only [stepCorner]
    exact leg_note _ _ _
  generalize s.stepCorner (.corner s.runIdx s.segmentIdx) input = r at kept ⊢
  obtain ⟨co, t⟩ := r
  dsimp only at kept ⊢
  cases co.action with
  | advance => exact congrArg Prod.snd kept
  | settleBrake | brake | pivot => exact .inl kept

theorem leaves_onSegment : Leaves s (fun t => t.runIdx = s.runIdx) (s.onSegment fix now) := by
  simp only [onSegment]
  split
  · exact .inl (leg_publishZero s _)
  split
  · exact .inl (leg_publishZero s _)
  have kept := leg_updatePathProgress s s.segmentIdx (projectOntoSegment fix.pos s.path s.segmentIdx).t
  generalize s.updatePathProgress s.segmentIdx (projectOntoSegment fix.pos s.path s.segmentIdx).t = u at kept ⊢
  have ended : Leaves s (fun t => t.leg = s.leg)
      (if decide (s.path.length - 2 ≤ s.segmentIdx) = true then u.segmentEnd fix now else .go u ()) := by
    have leaves := leaves_segmentEnd u fix now
    split
    · generalize u.segmentEnd fix now = stage at leaves ⊢
      cases stage with
      | halt t => exact Onward.of_leg leaves kept
      | go t _ => exact Eq.trans leaves kept
    · exact kept
  generalize (if decide (s.path.length - 2 ≤ s.segmentIdx) = true then u.segmentEnd fix now else .go u ()) = stage at ended ⊢
  cases stage with
  | halt t => exact ended
  | go t _ =>
    have same : t.leg = s.leg := ended
    have run : t.runIdx = s.runIdx := congrArg Prod.snd same
    dsimp only
    split
    · have leaves := leaves_cornerBlock t fix now (projectOntoSegment fix.pos s.path s.segmentIdx).signedCross
      generalize t.cornerBlock fix _ now = stage at leaves ⊢
      cases stage with
      | halt v => exact Onward.of_leg leaves same
      | go v _ => exact Eq.trans leaves run
    split
    · exact .inl ((leg_publishZero t _).trans same)
    · exact .inl same

end

/-- Unless the next run was started, the loop ends on a segment of the run and not before the one it began with. -/
theorem SegmentRun.segment {fix : Fix R} {now : ℤ} {s t : Core R} {passes : ℕ} (run : SegmentRun fix now s t passes)
    (two : 2 ≤ s.path.length) :
    t.runIdx = s.runIdx + 1 ∨ t.segmentIdx ≤ s.path.length - 2 ∧ min s.segmentIdx (s.path.length - 2) ≤ t.segmentIdx := by
  induction run with
  | @halt s t passed =>
    have leaves := leaves_onSegment { s with segmentIdx := currentSegment s.path s.segmentIdx } fix now
    rw [segmentPass, if_neg (not_lt.mpr two)] at passed
    rw [passed] at leaves
    rcases leaves with same | next
    · have index : t.segmentIdx = currentSegment s.path s.segmentIdx := congrArg Prod.fst same
      have ahead := skipCoincident_ge s.path (s.path.length - 2 - s.segmentIdx) s.segmentIdx
      rw [index, currentSegment]
      exact .inr ⟨min_le_right _ _, min_le_min_right _ ahead⟩
    · exact .inl next
  | @go s t u _ passed _ ih =>
    obtain ⟨further, inside, same⟩ := segmentPass_go passed
    have leaves := leaves_onSegment { s with segmentIdx := currentSegment s.path s.segmentIdx } fix now
    rw [segmentPass, if_neg (not_lt.mpr two)] at passed
    rw [passed] at leaves
    have still : u.runIdx = s.runIdx := leaves
    rw [same, still] at ih
    rcases ih two with next | ⟨within, ahead⟩
    · exact .inl next
    · refine .inr ⟨within, ?_⟩
      omega

end Dyx3.RppCore.Core
