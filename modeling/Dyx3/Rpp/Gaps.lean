import Dyx3.Rpp.AutoRuns

/-!
The sliver drop of `condition_path`: every run is judged by its own length, so that what is dropped between two runs that
are kept has no bound.
-/

namespace Dyx3.Rpp

noncomputable section

open Geometry Lib Real

variable {V : Type*} [Vertex V]

/-- The next run starts within the goal tolerance of where this one ends. -/
def Joins (r r' : ConditionedRun V) : Prop := ∀ q ∈ r.pts.getLast?, ∀ p ∈ r'.pts.head?, hypot q p ≤ 0.05

/-- Slivers are dropped: some of the runs are, and some are not. -/
def Drops (runs : List (ConditionedRun V)) : Prop :=
  1 < runs.length ∧ (runs.filter fun r => 0.05 ≤ r.length) ≠ [] ∧ (runs.filter fun r => 0.05 ≤ r.length).length < runs.length

/-- The run is returned. -/
def Stays (runs : List (ConditionedRun V)) (r : ConditionedRun V) : Prop := Drops runs → 0.05 ≤ r.length

end

end Dyx3.Rpp
