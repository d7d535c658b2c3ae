import Dyx3.Lib.Flt

/-!
`PointJournal` (dyx3_mission/point_journal): the results of the must-hit vertices, in path order. `std::hypot` is
a parameter.
-/

namespace Dyx3.Mission

open Lib

structure ArtifactPoint where
  north : Flt
  east : Flt
  flags : ℕ := 0
  deriving DecidableEq

def ArtifactPoint.spray (p : ArtifactPoint) : Bool := p.flags.testBit 0

def ArtifactPoint.mustHit (p : ArtifactPoint) : Bool := p.flags.testBit 1

inductive PointOutcome where
  | none | completed | skipped | failed
  deriving DecidableEq, Repr

structure PointEvent where
  pointIndex : ℕ
  outcome : PointOutcome
  north : Flt
  east : Flt
  error : Flt := .fin 0
  deriving DecidableEq

structure Vertex where
  n : Flt
  e : Flt
  deriving DecidableEq

structure PointJournal where
  vertices : List Vertex
  radius : Flt
  next : ℕ := 0
  capturing : Bool := false
  minD : Flt := .fin 0
  minN : Flt := .fin 0
  minE : Flt := .fin 0
  deriving DecidableEq

namespace PointJournal

/-- The constructor; it throws on a radius that is not finite and positive. -/
def make (path : List ArtifactPoint) (captureRadius : Flt) : Except String PointJournal :=
  if ¬ .fin 0 < captureRadius ∨ !captureRadius.isFinite then .error "capture_radius_m must be finite and > 0"
  else .ok { vertices := (path.filter (·.mustHit)).map fun p => ⟨p.north, p.east⟩, radius := captureRadius }

def pointCount (j : PointJournal) : ℕ := j.vertices.length

/-- The first unresolved must-hit point. -/
def activePoint (j : PointJournal) : Option ℕ := if j.next < j.vertices.length then some j.next else none

def completeCurrent (j : PointJournal) : PointJournal × PointEvent :=
  ({ j with next := j.next + 1, capturing := false }, ⟨j.next, .completed, j.minN, j.minE, j.minD⟩)

def failOne (i : ℕ) (v : Vertex) : PointEvent := ⟨i, .failed, v.n, v.e, .fin 0⟩

def closest (j : PointJournal) (d north east : Flt) : PointJournal :=
  { j with minD := d, minN := north, minE := east }

variable (hypot : Flt → Flt → Flt)

/-- The loop of `update`: every round but the last resolves a point. -/
def updateLoop (north east : Flt) : ℕ → PointJournal → PointJournal × List PointEvent
  | 0, j => (j, [])
  | fuel + 1, j =>
    match j.vertices[j.next]? with
    | none => (j, [])
    | some v =>
      let d := hypot (north - v.n) (east - v.e)
      if j.capturing then
        if d ≤ j.radius then (if d < j.minD then j.closest d north east else j, [])
        else
          -- the rover left the radius: the closest approach is final
          let (j, ev) := j.completeCurrent
          let (j, out) := updateLoop north east fuel j
          (j, ev :: out)
      else
        -- the next vertex was captured first: this one was missed
        let bypassed := (j.vertices[j.next + 1]?).any fun w =>
          decide (hypot (north - w.n) (east - w.e) ≤ j.radius) && decide (j.radius < d)
        if bypassed then
          let (j', out) := updateLoop north east fuel { j with next := j.next + 1 }
          (j', failOne j.next v :: out)
        else if d ≤ j.radius then ({ j.closest d north east with capturing := true }, [])
        else (j, [])

theorem updateLoop_succ (north east : Flt) {fuel : ℕ} {j : PointJournal} (enough : j.vertices.length - j.next ≤ fuel) :
    updateLoop hypot north east (fuel + 1) j = updateLoop hypot north east fuel j := by
  induction fuel generalizing j with
  | zero =>
    have done : j.vertices[j.next]? = none := List.getElem?_eq_none (by omega)
    simp only [updateLoop, done]
  | succ fuel ih =>
    have fewer : j.vertices.length - (j.next + 1) ≤ fuel := by omega
    have later : updateLoop hypot north east (fuel + 1) { j with next := j.next + 1 } =
        updateLoop hypot north east fuel { j with next := j.next + 1 } := ih fewer
    have completed : updateLoop hypot north east (fuel + 1) j.completeCurrent.1 =
        updateLoop hypot north east fuel j.completeCurrent.1 := ih fewer
    rw [updateLoop]
    conv_rhs => rw [updateLoop]
    simp only [later, completed]

/-- The points a rover position resolves. -/
def update (j : PointJournal) (north east : Flt) : PointJournal × List PointEvent :=
  if !north.isFinite ∨ !east.isFinite then (j, [])
  else updateLoop hypot north east (j.vertices.length - j.next) j

def skip (j : PointJournal) : PointJournal × Option PointEvent :=
  match j.vertices[j.next]? with
  | none => (j, none)
  | some v => ({ j with next := j.next + 1, capturing := false }, some ⟨j.next, .skipped, v.n, v.e, .fin 0⟩)

def restoreResolved (j : PointJournal) (resolved : ℕ) : Option PointJournal :=
  if j.next ≠ 0 ∨ j.capturing ∨ j.vertices.length < resolved then none else some { j with next := resolved }

/-- Resolves everything still open. -/
def finish (j : PointJournal) : PointJournal × List PointEvent :=
  let (j, first) :=
    if j.capturing ∧ j.next < j.vertices.length then
      let (j, ev) := j.completeCurrent
      (j, [ev])
    else (j, [])
  ({ j with next := max j.next j.vertices.length },
    first ++ (j.vertices.zipIdx.drop j.next).map fun (v, i) => failOne i v)

/-! ### The points resolve in path order -/

/-- `evs` are the results of the next points in path order, and `j'` is the journal after them. -/
structure Resolves (j j' : PointJournal) (evs : List PointEvent) : Prop where
  vertices : j'.vertices = j.vertices
  next : j'.next = j.next + evs.length
  indices : evs.map (·.pointIndex) = List.range' j.next evs.length
  bound : j.next ≤ j.vertices.length → j'.next ≤ j.vertices.length

theorem Resolves.none {j j' : PointJournal} (vertices : j'.vertices = j.vertices) (next : j'.next = j.next) :
    Resolves j j' [] :=
  ⟨vertices, next, rfl, fun bound => next ▸ bound⟩

/-- One more point before. -/
theorem Resolves.cons {j k j' : PointJournal} {ev : PointEvent} {evs : List PointEvent} (rest : Resolves k j' evs)
    (vertices : k.vertices = j.vertices) (next : k.next = j.next + 1) (index : ev.pointIndex = j.next)
    (more : j.next < j.vertices.length) : Resolves j j' (ev :: evs) where
  vertices := rest.vertices.trans vertices
  next := by
    rw [rest.next, next, List.length_cons]
    omega
  indices := by
    rw [List.map_cons, rest.indices, index, next, List.length_cons, List.range'_succ]
  bound _ := by
    rw [← vertices]
    exact rest.bound (by rw [vertices, next]; exact more)

theorem updateLoop_resolves (north east : Flt) (fuel : ℕ) (j : PointJournal) :
    Resolves j (updateLoop hypot north east fuel j).1 (updateLoop hypot north east fuel j).2 := by
  induction fuel generalizing j with
  | zero => exact .none rfl rfl
  | succ fuel ih =>
    rw [updateLoop]
    split
    · exact .none rfl rfl
    case h_2 v found =>
      have more : j.next < j.vertices.length := (List.getElem?_eq_some_iff.mp found).1
      dsimp only
      split
      · split
        · split
          · exact .none rfl rfl
          · exact .none rfl rfl
        · exact (ih _).cons rfl rfl rfl more
      · split
        · exact (ih _).cons rfl rfl rfl more
        · split
          · exact .none rfl rfl
          · exact .none rfl rfl

theorem update_resolves (j : PointJournal) (north east : Flt) :
    Resolves j (j.update hypot north east).1 (j.update hypot north east).2 := by
  unfold update
  split
  · exact .none rfl rfl
  · exact updateLoop_resolves hypot north east _ j

theorem skip_resolves (j : PointJournal) : Resolves j j.skip.1 j.skip.2.toList := by
  unfold skip
  split
  · exact .none rfl rfl
  case h_2 v found =>
    have more : j.next < j.vertices.length := (List.getElem?_eq_some_iff.mp found).1
    exact (Resolves.none (j := { j with next := j.next + 1, capturing := false }) rfl rfl).cons rfl rfl rfl more

/-- The points swept as failed are the ones from `next` on. -/
theorem swept_indices (vertices : List Vertex) (next : ℕ) :
    ((vertices.zipIdx.drop next).map fun (v, i) => failOne i v).map (·.pointIndex) =
      List.range' next (vertices.length - next) := by
  have indices : ∀ l : List (Vertex × ℕ), (l.map fun (v, i) => failOne i v).map (·.pointIndex) = l.map Prod.snd := by
    intro l
    rw [List.map_map]
    rfl
  rw [indices, List.map_drop, List.zipIdx_map_snd, List.drop_range', Nat.zero_add, Nat.mul_one]

/-- `finish` resolves every point still open, and there is nothing left to finish after it. -/
theorem finish_indices (j : PointJournal) :
    j.finish.2.map (·.pointIndex) = List.range' j.next (j.vertices.length - j.next) := by
  unfold finish
  by_cases capture : j.capturing ∧ j.next < j.vertices.length
  · rw [if_pos capture]
    dsimp only [completeCurrent]
    rw [List.map_append, swept_indices]
    obtain ⟨d, more⟩ : ∃ d, j.vertices.length - j.next = d + 1 := ⟨j.vertices.length - j.next - 1, by omega⟩
    have fewer : j.vertices.length - (j.next + 1) = d := by omega
    rw [more, fewer, List.range'_succ]
    rfl
  · rw [if_neg capture]
    dsimp only
    rw [List.nil_append, swept_indices]

theorem finish_next (j : PointJournal) : j.finish.1.vertices = j.vertices ∧ j.vertices.length ≤ j.finish.1.next := by
  unfold finish
  by_cases capture : j.capturing ∧ j.next < j.vertices.length
  · rw [if_pos capture]
    exact ⟨rfl, le_max_right _ _⟩
  · rw [if_neg capture]
    exact ⟨rfl, le_max_right _ _⟩

end PointJournal

end Dyx3.Mission
