import Dyx3.Rpp.Gaps

/-!
Must-hit vertices survive conditioning: no pass drops one that is alone, unless a vertex that an earlier pass made is
within a micrometre of it.
-/

namespace Dyx3.Rpp

noncomputable section

open Geometry Real

variable {V : Type*} [Vertex V] {v w : V}

/-- In another place by a micrometre or more, or in the same place. -/
def Discerned (v w : V) : Prop := pos w = pos v ∨ 1e-6 ≤ hypot w v

def Alone (v : V) (pts : List V) : Prop := ∀ w ∈ pts, Discerned v w

/-- The run has a vertex in this place. -/
def Reaches (pts : List V) (v : V) : Prop := ∃ w ∈ pts, pos w = pos v

theorem hypot_congr_right {a : V} (same : pos w = pos v) : hypot a w = hypot a v := by
  rw [hypot, hypot, same]

/-- What is within a micrometre of a place where a vertex is alone is in that place. -/
theorem Discerned.same (apart : Discerned v w) {u : V} (here : pos u = pos v) (near : hypot w u < 1e-6) : pos w = pos v := by
  rcases apart with same | far
  · exact same
  · rw [hypot_congr_right here] at near
    exact absurd near (not_lt.mpr far)

theorem Alone.subset {pts pts' : List V} (alone : Alone v pts) (subset : pts' ⊆ pts) : Alone v pts' :=
  fun w member => alone w (subset member)

theorem Reaches.subset {pts pts' : List V} (reaches : Reaches pts v) (subset : pts ⊆ pts') : Reaches pts' v := by
  obtain ⟨w, member, here⟩ := reaches
  exact ⟨w, subset member, here⟩

/-! ### Segment runs -/

/-- No vertex that conditioning makes is within a micrometre of this place, unless it is in it. -/
structure Undisturbed (raw : List (RawPoint V)) (p : ConditionParams) (v : V) : Prop where
  merges : normalizeTrackingProfile p.trackingProfile = .auto →
    ∀ run ∈ splitRunsByFlag (raw.map RawPoint.vertex) (raw.map RawPoint.spray),
      ∀ act ∈ absorptions run.pts run.flags p.connectorAbsorb p.connectorMinCornerDeg (mustHitKeys raw), Discerned v act.mid
  arcs : ∀ run ∈ rawRuns p (mustHitKeys raw) (raw.map RawPoint.vertex) (raw.map RawPoint.spray),
    ∀ w ∈ (smoothCorners run.pts p.cornerSmoothRadius (max 2 p.cornerSmoothArcPts).toNat (some run.flags) (mustHitKeys raw)).pts,
      w ∈ run.pts ∨ Discerned v w

end

end Dyx3.Rpp
