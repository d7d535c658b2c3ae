import Mathlib.Analysis.SpecialFunctions.Trigonometric.Basic
import Dyx3.Spray.PathModel

/-!
`boundary_projection`: the windowed projection with the direction gate, the next boundary and its lead, and the spray
decision made of them. Everything is finite here, so that `+inf` is only "no boundary".
-/

namespace Dyx3.Spray

noncomputable section

open Real

/-- Half-angle in degrees to the least cosine; 0 disables the gate. -/
def directionGateCos (gateDeg : ℝ) : ℝ := if gateDeg ≤ 0 ∨ 180.0 ≤ gateDeg then 0 else max 1e-6 (cos (gateDeg * (π / 180.0)))

structure ProjectionConfig where
  prevS : Option ℝ
  windowBack : ℝ
  windowFwd : ℝ
  reacquireDist : ℝ
  heading : Option ℝ
  directionGateCos : ℝ

namespace ProjectionConfig

def gate (cfg : ProjectionConfig) : Option Gate :=
  match cfg.heading with
  | some heading => if 0 < cfg.directionGateCos then some ⟨cos heading, sin heading, cfg.directionGateCos⟩ else none
  | none => none

open Classical in
/-- The segments that reach into the window around the previous station; none without a window. -/
def window (cfg : ProjectionConfig) (m : PathModel) : List ℕ :=
  match cfg.prevS with
  | some prev =>
    if 0 < cfg.windowBack ∨ 0 < cfg.windowFwd then
      (List.range (m.size - 1)).filter fun i =>
        prev - max 0 cfg.windowBack ≤ m.cumulativeS.getD (i + 1) 0 ∧ m.cumulativeS.getD i 0 ≤ prev + max 0 cfg.windowFwd
    else []
  | none => []

open Classical in
/-- A foot near enough to be taken without another look. -/
def trusted (cfg : ProjectionConfig) (best : Option Projection) : Option Projection :=
  best.filter fun p => cfg.reacquireDist ≤ 0 ∨ p.xtrackError ≤ cfg.reacquireDist

/-- The gate is only ever a preference: what it leaves over is looked at without it. -/
def gated (cfg : ProjectionConfig) (m : PathModel) (pn pe : ℝ) (indices : List ℕ) : Option Projection :=
  match cfg.gate with
  | some gate => cfg.trusted (scan m (some gate) pn pe indices)
  | none => none

end ProjectionConfig

def projectOntoPath (m : PathModel) (pn pe : ℝ) (cfg : ProjectionConfig) : Option Projection :=
  if m.size = 0 then none
  else if m.size = 1 then
    some
      { segmentIndex := 0
        t := 0
        projN := m.north.getD 0 0
        projE := m.east.getD 0 0
        s := 0
        xtrackError := √((pn - m.north.getD 0 0) ^ 2 + (pe - m.east.getD 0 0) ^ 2)
        currentFlag := m.flags.getD 0 false }
  else
    let all := List.range (m.size - 1)
    (cfg.gated m pn pe (cfg.window m)).or
      ((cfg.trusted (scan m none pn pe (cfg.window m))).or
        ((cfg.gated m pn pe all).or (scan m none pn pe all)))

open Classical in
def nextBoundary (m : PathModel) (currentS : ℝ) (currentFlag : Bool) : Option Boundary :=
  let wanted := if currentFlag then BoundaryKind.markToTransit else BoundaryKind.transitToMark
  m.boundaries.find? fun b => b.kind = wanted ∧ currentS + 1e-9 < b.s

/-- Segment `i` joins two runs. -/
def Seam (m : PathModel) (i : ℕ) : Prop := m.runIds.length = m.size ∧ m.runIds.getD i 0 ≠ m.runIds.getD (i + 1) 0

/-- The foot of a point on a segment of a run. -/
def FootOf (m : PathModel) (pn pe : ℝ) (p : Projection) : Prop :=
  p.segmentIndex + 1 < m.size ∧ ¬Seam m p.segmentIndex ∧ p = footOn m p.segmentIndex pn pe

theorem scan_footOf {m : PathModel} {gate : Option Gate} {pn pe : ℝ} {indices : List ℕ} (inside : ∀ i ∈ indices, i + 1 < m.size)
    {p : Projection} (found : scan m gate pn pe indices = some p) : FootOf m pn pe p := by
  suffices ∀ best : Option Projection, (∀ p ∈ best, FootOf m pn pe p) →
      ∀ p ∈ indices.foldl (scanStep m gate pn pe) best, FootOf m pn pe p from this none (by simp) p found
  clear found
  induction indices with
  | nil => exact fun _ ok => ok
  | cons i indices ih =>
    obtain ⟨here, others⟩ := List.forall_mem_cons.mp inside
    refine fun best ok => ih others _ fun p member => ?_
    unfold scanStep at member
    split at member
    · exact ok p member
    · rename_i kept
      split at member
      · obtain rfl := Option.some.inj member
        exact ⟨here, fun seam => kept (.inl seam), rfl⟩
      · exact ok p member

theorem projectOntoPath_footOf {m : PathModel} {pn pe : ℝ} {cfg : ProjectionConfig} {p : Projection} (long : 1 < m.size)
    (projects : projectOntoPath m pn pe cfg = some p) : FootOf m pn pe p := by
  have whole : ∀ i ∈ List.range (m.size - 1), i + 1 < m.size := by
    intro i member
    have := List.mem_range.mp member
    omega
  have window : ∀ i ∈ cfg.window m, i + 1 < m.size := by
    intro i member
    unfold ProjectionConfig.window at member
    split at member
    · split at member
      · exact whole i (List.mem_of_mem_filter member)
      · simp at member
    · simp at member
  have trusted : ∀ {best : Option Projection}, cfg.trusted best = some p → best = some p := by
    intro best taken
    exact (Option.filter_eq_some_iff.mp taken).1
  have gated : ∀ {indices : List ℕ}, (∀ i ∈ indices, i + 1 < m.size) → cfg.gated m pn pe indices = some p → FootOf m pn pe p := by
    intro indices inside taken
    unfold ProjectionConfig.gated at taken
    split at taken
    · exact scan_footOf inside (trusted taken)
    · cases taken
  rw [projectOntoPath, if_neg (by omega), if_neg (by omega)] at projects
  simp only [Option.or_eq_some_iff] at projects
  rcases projects with first | ⟨-, second | ⟨-, third | ⟨-, fourth⟩⟩⟩
  · exact gated window first
  · exact scan_footOf window (trusted second)
  · exact gated whole third
  · exact scan_footOf whole fourth

end

end Dyx3.Spray
