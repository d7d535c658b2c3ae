import Dyx3.Rpp.SegmentLoop

/-!
The segment tick with every read of a path point checked: `none` is a read outside the run. The checked tick is the
tick itself, so there is none.
-/

namespace Dyx3.RppCore

open Lib Scalar

variable {R : Type} [Scalar R]

/-! ### The functions of the geometry and the guidance -/

/-- The two points of a segment. -/
def readSegment (path : Path R) (i : ℕ) : Option (Pos R × Pos R) := do
  let a ← path[i]?
  let b ← path[i + 1]?
  some (a, b)

def readProjection (pos : Pos R) (path : Path R) (segIdx : ℕ) : Option (SegmentProjection R) :=
  match path with
  | [] => some (projectOntoSegment pos [] segIdx)
  | [p] => some (projectOntoSegment pos [p] segIdx)
  | _ => do
    let (a, b) ← readSegment path (min segIdx (path.length - 2))
    some (projectOntoLeg pos a b)

def readAngle (path : Path R) (idx : ℕ) : Option R :=
  if path.length ≤ idx + 2 then some nan
  else do
    let (a, b) ← readSegment path idx
    let c ← path[idx + 2]?
    some (degrees (headingDelta (segmentHeading a b) (segmentHeading b c)))

def readPastEnd (path : Path R) (p b : Pos R) (remaining segRem : R) : Option (Pos R) := do
  let _ ← path[path.length - 2]?
  some (pastEnd path p b remaining segRem)

def readWalk (path : Path R) (maxJunctionDeg : R) (extendPastEnd extendPastCorner : Bool) :
    ℕ → Pos R → R → Option (Pos R)
  | 0, _, _ => path[path.length - 1]?
  | left + 1, p, remaining => do
    let cur := path.length - 1 - (left + 1)
    let b ← path[cur + 1]?
    let segRem := distance p b
    if remaining ≤ segRem then
      if segRem ≤ lit 1e-9 then some b
      else
        let f := remaining / segRem
        some ⟨p.n + (b.n - p.n) * f, p.e + (b.e - p.e) * f⟩
    else if extendPastEnd && path.length ≤ cur + 2 then readPastEnd path p b remaining segRem
    else if maxJunctionDeg ≤ lit 0 then some b
    else do
      let angle ← readAngle path cur
      if ¬ (fabs angle ≤ maxJunctionDeg) then
        some (cornerClip p b remaining segRem (extendPastCorner && isfinite angle))
      else readWalk path maxJunctionDeg extendPastEnd extendPastCorner left b (remaining - segRem)

def readLookahead (path : Path R) (segIdx : ℕ) (foot : Pos R) (lD maxJunctionDeg : R)
    (extendPastEnd extendPastCorner : Bool) : Option (Pos R) :=
  if path.length = 0 then some ⟨lit 0, lit 0⟩
  else if path.length < 2 then path[0]?
  else
    let cur := min segIdx (path.length - 2)
    readWalk path maxJunctionDeg extendPastEnd extendPastCorner (path.length - 1 - cur) foot (stdMax (lit 0) lD)

theorem read_at {path : Path R} {i : ℕ} (inside : i < path.length) : path[i]? = some (path.at i) := by
  rw [Path.at, List.getD_eq_getElem?_getD, List.getElem?_eq_getElem inside, Option.getD_some]

theorem readSegment_eq {path : Path R} {i : ℕ} (inside : i + 1 < path.length) :
    readSegment path i = some (path.at i, path.at (i + 1)) := by
  simp only [readSegment, read_at inside, read_at (Nat.lt_of_succ_lt inside), Option.bind_eq_bind, Option.bind_some]

theorem readProjection_eq (pos : Pos R) (path : Path R) (segIdx : ℕ) :
    readProjection pos path segIdx = some (projectOntoSegment pos path segIdx) := by
  match path with
  | [] => rfl
  | [p] => rfl
  | p :: q :: path =>
    have inside : min segIdx ((p :: q :: path).length - 2) + 1 < (p :: q :: path).length := by
      simp only [List.length_cons]
      omega
    simp only [readProjection, readSegment_eq inside, Option.bind_eq_bind, Option.bind_some]
    rfl

theorem readAngle_eq (path : Path R) (idx : ℕ) : readAngle path idx = some (segmentAngleDeg path idx) := by
  rw [readAngle, segmentAngleDeg]
  split
  · rfl
  · rename_i more
    have inside : idx + 2 < path.length := not_le.mp more
    simp only [readSegment_eq (Nat.lt_of_succ_lt inside), read_at inside, Option.bind_eq_bind, Option.bind_some]

theorem readWalk_eq {path : Path R} {left : ℕ} (inside : left < path.length) (two : 2 ≤ path.length) (maxJunctionDeg : R)
    (extendPastEnd extendPastCorner : Bool) (p : Pos R) (remaining : R) :
    readWalk path maxJunctionDeg extendPastEnd extendPastCorner left p remaining =
      some (segmentWalk path maxJunctionDeg extendPastEnd extendPastCorner left p remaining) := by
  induction left generalizing p remaining with
  | zero => exact read_at (by omega)
  | succ left ih =>
    have next : path.length - 1 - (left + 1) + 1 < path.length := by omega
    have prev : path.length - 2 < path.length := by omega
    rw [readWalk, segmentWalk]
    simp only [read_at next, readAngle_eq, readPastEnd, read_at prev, ih (Nat.lt_of_succ_lt inside), Option.bind_eq_bind,
      Option.bind_some]
    -- the branches of the two walks are the same
    split
    · split <;> rfl
    split
    · rfl
    split
    · rfl
    split <;> rfl

theorem readLookahead_eq (path : Path R) (segIdx : ℕ) (foot : Pos R) (lD maxJunctionDeg : R)
    (extendPastEnd extendPastCorner : Bool) :
    readLookahead path segIdx foot lD maxJunctionDeg extendPastEnd extendPastCorner =
      some (segmentLookaheadPoint path segIdx foot lD maxJunctionDeg extendPastEnd extendPastCorner) := by
  rw [readLookahead, segmentLookaheadPoint]
  split
  · rfl
  rename_i some
  split
  · exact read_at (by omega)
  · exact readWalk_eq (by omega) (by omega) _ _ _ _ _

namespace Core

/-! ### The tick -/

def readSkip (path : Path R) : ℕ → ℕ → Option ℕ
  | 0, i => some i
  | left + 1, i => do
    let (a, b) ← readSegment path i
    if lit 1e-6 ≤ distance a b then some i else readSkip path left (i + 1)

def readDrive (s : Core R) (fix : Fix R) (sp : SegmentProjection R) (b : Pos R) (finalSegment : Bool) (now : ℤ) :
    Option (Option (Drive R)) := do
  let lD := lookaheadDistance s.lookaheadParams s.lastSpeedCmd sp.signedCross
  let _ ← readLookahead s.path s.segmentIdx sp.foot lD s.params.segmentLookaheadCrossCollinearDeg
    s.params.segmentEndpointLookaheadExtend s.params.segmentCornerLookaheadExtend
  let _ ← readAngle s.path s.segmentIdx
  some (s.segmentDrive fix sp b finalSegment now)

def readCorner (s : Core R) (fix : Fix R) (signedXtrack : R) (now : ℤ) : Option (Stage R Unit) := do
  let _ ← readSegment s.path (s.segmentIdx + 1)
  let _ ← readAngle s.path s.segmentIdx
  some (s.cornerBlock fix signedXtrack now)

/-- The precise stop, the capture test and the turn into the next run take the last segment, a hold the current one. -/
def readEnd (s : Core R) (fix : Fix R) (now : ℤ) : Option (Stage R Unit) := do
  let _ ← readSegment s.path (s.path.length - 2)
  let _ ← readProjection fix.pos s.path s.segmentIdx
  some (s.segmentEnd fix now)

def readOnSegment (s : Core R) (fix : Fix R) (now : ℤ) : Option (Stage R Unit) := do
  let i := s.segmentIdx
  let (a, b) ← readSegment s.path i
  let final := decide (s.path.length - 2 ≤ i)
  let sp ← readProjection fix.pos s.path i
  if distance a b < lit 1e-6 then some (.halt (s.publishZero .idle))
  else if !sp.valid then some (.halt (s.publishZero .idle))
  else do
    let s := s.updatePathProgress i sp.t
    match ← if final then s.readEnd fix now else some (.go s ()) with
    | .halt s => some (.halt s)
    | .go s _ =>
      if !final && s.inAcceptance fix.pos i then s.readCorner fix sp.signedCross now
      else do
        match ← s.readDrive fix sp b final now with
        | none => some (.halt (s.publishZero .idle))
        | some d => some (.halt (s.drive d sp.signedCross))

def readPass (s : Core R) (fix : Fix R) (now : ℤ) : Option (Stage R Unit) :=
  if s.path.length < 2 then some (s.segmentPass fix now)
  else do
    let i ← readSkip s.path (s.path.length - 2 - s.segmentIdx) s.segmentIdx
    { s with segmentIdx := min i (s.path.length - 2) }.readOnSegment fix now

def readLoop (fix : Fix R) (now : ℤ) : ℕ → Core R → Option (Core R)
  | 0, s => some s
  | passes + 1, s => do
    match ← s.readPass fix now with
    | .halt s => some s
    | .go s _ => readLoop fix now passes s

theorem readSkip_eq {path : Path R} {left i : ℕ} (inside : i + left + 1 < path.length) :
    readSkip path left i = some (skipCoincident path left i) := by
  induction left generalizing i with
  | zero => rfl
  | succ left ih =>
    have next : i + 1 < path.length := by omega
    rw [readSkip, skipCoincident]
    simp only [readSegment_eq next, Option.bind_eq_bind, Option.bind_some]
    split
    · rfl
    · exact ih (by omega)

variable (s : Core R) (fix : Fix R) (now : ℤ)

theorem readDrive_eq (sp : SegmentProjection R) (b : Pos R) (final : Bool) :
    s.readDrive fix sp b final now = some (s.segmentDrive fix sp b final now) := by
  simp only [readDrive, readLookahead_eq, readAngle_eq, Option.bind_eq_bind, Option.bind_some]

theorem readCorner_eq (x : R) (inside : s.segmentIdx + 2 < s.path.length) :
    s.readCorner fix x now = some (s.cornerBlock fix x now) := by
  have leg : s.segmentIdx + 1 + 1 < s.path.length := inside
  simp only [readCorner, readSegment_eq leg, readAngle_eq, Option.bind_eq_bind, Option.bind_some]

theorem readEnd_eq (two : 2 ≤ s.path.length) : s.readEnd fix now = some (s.segmentEnd fix now) := by
  have last : s.path.length - 2 + 1 < s.path.length := by omega
  simp only [readEnd, readSegment_eq last, readProjection_eq, Option.bind_eq_bind, Option.bind_some]

theorem readOnSegment_eq (inside : s.segmentIdx + 1 < s.path.length) : s.readOnSegment fix now = some (s.onSegment fix now) := by
  obtain ⟨index, same⟩ := updatePathProgress_keeps s s.segmentIdx (projectOntoSegment fix.pos s.path s.segmentIdx).t
  simp only [readOnSegment, onSegment, readSegment_eq inside, readProjection_eq, Option.bind_eq_bind, Option.bind_some]
  split
  · rfl
  split
  · rfl
  generalize s.updatePathProgress s.segmentIdx (projectOntoSegment fix.pos s.path s.segmentIdx).t = u at index same ⊢
  have path : u.path = s.path := congrArg (fun run => (run.map ConditionedRun.pts).getD []) same
  by_cases final : s.path.length - 2 ≤ s.segmentIdx
  · simp only [decide_eq_true final, if_true, Bool.not_true, Bool.false_and, Bool.false_eq_true, if_false]
    rw [readEnd_eq u fix now (by rw [path]; omega), Option.bind_some]
    cases u.segmentEnd fix now with
    | halt t => rfl
    | go t _ =>
      simp only [readDrive_eq, Option.bind_some]
      split <;> simp_all
  · simp only [decide_eq_false final, Bool.false_eq_true, if_false, Bool.not_false, Bool.true_and]
    split
    · exact readCorner_eq u fix now _ (by rw [path, index]; omega)
    · simp only [readDrive_eq, Option.bind_some]
      split <;> simp_all

/-- A pass reads no point outside the run. -/
theorem readPass_eq : s.readPass fix now = some (s.segmentPass fix now) := by
  rw [readPass, segmentPass]
  split
  · rfl
  · rename_i two
    have skip : readSkip s.path (s.path.length - 2 - s.segmentIdx) s.segmentIdx =
        some (skipCoincident s.path (s.path.length - 2 - s.segmentIdx) s.segmentIdx) := by
      rcases Nat.lt_or_ge s.segmentIdx (s.path.length - 2) with before | past
      · exact readSkip_eq (by omega)
      · rw [Nat.sub_eq_zero_of_le past]
        rfl
    rw [skip, Option.bind_eq_bind, Option.bind_some]
    refine readOnSegment_eq _ fix now ?_
    change min _ (s.path.length - 2) + 1 < s.path.length
    omega

theorem readLoop_eq (passes : ℕ) (s : Core R) : readLoop fix now passes s = some (segmentLoop fix now passes s) := by
  induction passes generalizing s with
  | zero => rfl
  | succ passes ih =>
    rw [readLoop, segmentLoop, readPass_eq, Option.bind_eq_bind, Option.bind_some]
    cases s.segmentPass fix now with
    | halt t => rfl
    | go t _ => exact ih t

/-- The segment tick ends after at most `max 1 (n - 1)` passes, stays on a segment of the run not before the one it
started at unless it starts the next run, and reads no point outside the run. -/
theorem controlSegment_ends :
    (∃ made ≤ max 1 (s.path.length - 1), SegmentRun fix now s (s.controlSegment fix now) made) ∧
    (2 ≤ s.path.length → (s.controlSegment fix now).runIdx = s.runIdx + 1 ∨
      (s.controlSegment fix now).segmentIdx ≤ s.path.length - 2 ∧
        min s.segmentIdx (s.path.length - 2) ≤ (s.controlSegment fix now).segmentIdx) ∧
    readLoop fix now (max 1 (s.path.length - 1)) s = some (s.controlSegment fix now) := by
  have ends : ∃ made ≤ max 1 (s.path.length - 1), SegmentRun fix now s (s.controlSegment fix now) made :=
    segmentLoop_run (le_max_left _ _) (le_trans (Nat.sub_le _ _) (le_max_right _ _))
  obtain ⟨made, few, run⟩ := ends
  exact ⟨⟨made, few, run⟩, run.segment, readLoop_eq fix now _ s⟩

/-- On a run of three points. -/
theorem controlSegment_ends_ell : ∃ (s : Core Flt) (fix : Fix Flt), s.path.length = 3 ∧
    ((s.controlSegment fix 0).runIdx = s.runIdx + 1 ∨
      (s.controlSegment fix 0).segmentIdx ≤ 1 ∧ 0 ≤ (s.controlSegment fix 0).segmentIdx) :=
  ⟨{ run := some ell }, { pos := ⟨lit 0, lit 0⟩, yaw := lit 0 }, rfl,
    (controlSegment_ends { run := some ell } { pos := ⟨lit 0, lit 0⟩, yaw := lit 0 } 0).2.1 (by decide)⟩

end Core

end Dyx3.RppCore
