import Dyx3.Lib.Pieces
import Dyx3.Rpp.Conditioner

/-!
`boundary_projection`: the path model of the spray controller, as `load_artifact` builds it from the
conditioned runs, and the nearest-segment scan that reads it. Coordinates and stations are exact reals.
-/

namespace Dyx3.Spray

noncomputable section

open Lib Geometry

inductive BoundaryKind where
  | transitToMark
  | markToTransit
  deriving DecidableEq

structure Boundary where
  s : ℝ
  kind : BoundaryKind

structure PathModel where
  north : List ℝ
  east : List ℝ
  flags : List Bool
  runIds : List ℕ
  cumulativeS : List ℝ
  boundaries : List Boundary

/-- One vertex with what the model keeps of it. -/
structure PathVertex where
  n : ℝ
  e : ℝ
  flag : Bool
  run : ℕ

def PathVertex.point (v : PathVertex) : Point := ⟨v.n, v.e⟩

/-- The stations after `prev`: a run seam adds no length. -/
def stationsFrom (total : ℝ) (prev : PathVertex) : List PathVertex → List ℝ
  | [] => []
  | v :: rest =>
    let total := if v.run = prev.run then total + hypot prev.point v.point else total
    total :: stationsFrom total v rest

def stations : List PathVertex → List ℝ
  | [] => []
  | v :: rest => 0 :: stationsFrom 0 v rest

def boundaryKind (flag : Bool) : BoundaryKind := if flag then .transitToMark else .markToTransit

/-- A boundary at every vertex whose flag is not that of the vertex before, at a seam as inside a run. -/
def flagBoundaries (vs : List PathVertex) : List Boundary :=
  (changes (fun v => v.1.flag) (vs.zip (stations vs))).map fun v => ⟨v.2, boundaryKind v.1.flag⟩

def pathVertices (north east : List ℝ) (flags : List Bool) (runIds : List ℕ) : List PathVertex :=
  ((north.zip east).zip (flags.zip runIds)).map fun v => ⟨v.1.1, v.1.2, v.2.1, v.2.2⟩

/-- `build_path_model`; no run ids mean one run. A path that ends on MARK gets a terminal boundary. -/
def buildPathModel (north east : List ℝ) (flags : List Bool) (runIds : List ℕ) : Option PathModel :=
  if north.length ≠ east.length ∨ north.length ≠ flags.length then none
  else if runIds ≠ [] ∧ runIds.length ≠ north.length then none
  else
    let vs := pathVertices north east flags (if runIds = [] then List.replicate north.length 0 else runIds)
    let terminal := match flags.getLast?, (stations vs).getLast? with
      | some true, some s => [⟨s, .markToTransit⟩]
      | _, _ => []
    some
      { north, east, flags, runIds
        cumulativeS := stations vs
        boundaries := flagBoundaries vs ++ terminal }

namespace PathModel

def size (m : PathModel) : ℕ := m.north.length

/-- The flag that the projection takes at parameter `t` of segment `i`. -/
def flagAt (m : PathModel) (i : ℕ) (t : ℝ) : Bool :=
  if 1 - 1e-12 ≤ t then m.flags.getD (i + 1) false else m.flags.getD i false

/-- The boundaries without the terminal one of a path that ends on MARK. -/
def innerBoundaries (m : PathModel) : List Boundary :=
  if m.flags.getLast? = some true then m.boundaries.dropLast else m.boundaries

/-- A vertex of the path at station `s` is the point `p`. -/
def LiesAt (m : PathModel) (s : ℝ) (p : Point) : Prop :=
  ∃ i : ℕ, m.cumulativeS[i]? = some s ∧ m.north[i]? = some p.n ∧ m.east[i]? = some p.e

end PathModel

structure Projection where
  segmentIndex : ℕ
  t : ℝ
  projN : ℝ
  projE : ℝ
  s : ℝ
  xtrackError : ℝ
  currentFlag : Bool

/-- The direction gate: the heading of the rover and the least cosine. -/
structure Gate where
  headN : ℝ
  headE : ℝ
  gateCos : ℝ

/-- The foot of `(pn, pe)` on segment `i`. -/
def footOn (m : PathModel) (i : ℕ) (pn pe : ℝ) : Projection :=
  let aN := m.north.getD i 0
  let aE := m.east.getD i 0
  let dN := m.north.getD (i + 1) 0 - aN
  let dE := m.east.getD (i + 1) 0 - aE
  let segLenSq := dN * dN + dE * dE
  let t := if segLenSq ≤ 1e-12 then 0 else max 0 (min 1 (((pn - aN) * dN + (pe - aE) * dE) / segLenSq))
  let segLen := if segLenSq ≤ 1e-12 then 0 else √segLenSq
  let projN := aN + t * dN
  let projE := aE + t * dE
  { segmentIndex := i
    t
    projN
    projE
    s := m.cumulativeS.getD i 0 + t * segLen
    xtrackError := √((pn - projN) ^ 2 + (pe - projE) ^ 2)
    currentFlag := m.flagAt i t }

/-- Segment `i` is skipped: it crosses a run seam, or points away from the heading. -/
def skips (m : PathModel) (gate : Option Gate) (i : ℕ) : Prop :=
  (m.runIds.length = m.size ∧ m.runIds.getD i 0 ≠ m.runIds.getD (i + 1) 0) ∨
  ∃ g ∈ gate,
    let dN := m.north.getD (i + 1) 0 - m.north.getD i 0
    let dE := m.east.getD (i + 1) 0 - m.east.getD i 0
    let segLenSq := dN * dN + dE * dE
    1e-12 < segLenSq ∧ dN * (1 / √segLenSq) * g.headN + dE * (1 / √segLenSq) * g.headE < g.gateCos

/-- Ties at shared vertices prefer the later segment. -/
def closer (best : Option Projection) (p : Projection) : Prop :=
  match best with
  | some b => p.xtrackError < b.xtrackError - 1e-12 ∨ |p.xtrackError - b.xtrackError| ≤ 1e-12
  | none => True

open Classical in
def scanStep (m : PathModel) (gate : Option Gate) (pn pe : ℝ) (best : Option Projection) (i : ℕ) : Option Projection :=
  if skips m gate i then best
  else if closer best (footOn m i pn pe) then some (footOn m i pn pe)
  else best

/-- `scan`: the nearest foot on the segments `indices`. -/
def scan (m : PathModel) (gate : Option Gate) (pn pe : ℝ) (indices : List ℕ) : Option Projection :=
  indices.foldl (scanStep m gate pn pe) none

/-- A projection with the flag of its own segment, which was not skipped. -/
def OwnFlag (m : PathModel) (gate : Option Gate) (p : Projection) : Prop :=
  ¬skips m gate p.segmentIndex ∧ p.currentFlag = m.flagAt p.segmentIndex p.t

theorem scanStep_ownFlag {m : PathModel} {gate : Option Gate} {pn pe : ℝ} {best : Option Projection} {i : ℕ}
    (ok : ∀ p ∈ best, OwnFlag m gate p) : ∀ p ∈ scanStep m gate pn pe best i, OwnFlag m gate p := by
  unfold scanStep
  split
  · exact ok
  case isFalse inside =>
    split
    · rintro p ⟨⟩
      exact ⟨inside, rfl⟩
    · exact ok

theorem scan_ownFlag {m : PathModel} {gate : Option Gate} {pn pe : ℝ} {indices : List ℕ} {p : Projection}
    (h : scan m gate pn pe indices = some p) : OwnFlag m gate p := by
  suffices ∀ best : Option Projection, (∀ p ∈ best, OwnFlag m gate p) →
      ∀ p ∈ indices.foldl (scanStep m gate pn pe) best, OwnFlag m gate p from this none (by simp) p h
  clear h
  induction indices with
  | nil => exact fun _ ok => ok
  | cons i indices ih => exact fun _ ok => ih _ (scanStep_ownFlag ok)

/-! ### The model of conditioned runs -/

variable {V : Type*} [Vertex V]

/-- The vertices in the order of `load_artifact`, with the number of their run. -/
def runVertices (runs : List (Rpp.ConditionedRun V)) : List PathVertex :=
  runs.zipIdx.flatMap fun r =>
    (r.1.pts.zip r.1.flags).map fun v => ⟨(pos v.1).n, (pos v.1).e, v.2, r.2⟩

def loadArtifact (runs : List (Rpp.ConditionedRun V)) : Option PathModel :=
  let vs := runVertices runs
  buildPathModel (vs.map PathVertex.n) (vs.map PathVertex.e) (vs.map PathVertex.flag) (vs.map PathVertex.run)

/-- What the model of the vertices `vs` holds. -/
structure ModelOf (vs : List PathVertex) (m : PathModel) : Prop where
  north : m.north = vs.map PathVertex.n
  east : m.east = vs.map PathVertex.e
  flags : m.flags = vs.map PathVertex.flag
  runIds : m.runIds = vs.map PathVertex.run
  stations : m.cumulativeS = stations vs
  boundaries : m.innerBoundaries = flagBoundaries vs

theorem stationsFrom_length (total : ℝ) (prev : PathVertex) (vs : List PathVertex) :
    (stationsFrom total prev vs).length = vs.length := by
  induction vs generalizing total prev with
  | nil => rfl
  | cons v vs ih => simp [stationsFrom, ih]

theorem stations_length (vs : List PathVertex) : (stations vs).length = vs.length := by
  cases vs <;> simp [stations, stationsFrom_length]

theorem pathVertices_map (vs : List PathVertex) :
    pathVertices (vs.map PathVertex.n) (vs.map PathVertex.e) (vs.map PathVertex.flag) (vs.map PathVertex.run) = vs := by
  simp only [pathVertices, List.zip_map', List.map_map]
  exact List.map_id vs

theorem loadArtifact_modelOf (runs : List (Rpp.ConditionedRun V)) :
    ∃ m, loadArtifact runs = some m ∧ ModelOf (runVertices runs) m := by
  rw [loadArtifact]
  generalize runVertices runs = vs
  have ids : (if vs.map PathVertex.run = [] then List.replicate (vs.map PathVertex.n).length 0 else vs.map PathVertex.run) =
      vs.map PathVertex.run := by
    cases vs <;> simp
  rw [buildPathModel, if_neg (by simp), if_neg (by simp)]
  simp only [ids, pathVertices_map]
  refine ⟨_, rfl, rfl, rfl, rfl, rfl, rfl, ?_⟩
  simp only [PathModel.innerBoundaries]
  split
  case isFalse unmarked =>
    split
    case h_1 marked _ => exact absurd marked unmarked
    · simp
  case isTrue marked =>
    have some : vs ≠ [] := by
      rintro rfl
      simp at marked
    have last : stations vs ≠ [] := List.ne_nil_of_length_pos (by
      rw [stations_length]
      exact List.length_pos_iff.mpr some)
    rw [marked, List.getLast?_eq_some_getLast last]
    simp

/-- The vertex of a boundary is a vertex of the path at its station. -/
theorem ModelOf.liesAt {vs : List PathVertex} {m : PathModel} (h : ModelOf vs m) {v : PathVertex × ℝ}
    (mem : v ∈ vs.zip (Spray.stations vs)) : m.LiesAt v.2 v.1.point := by
  obtain ⟨i, hi, same⟩ := List.getElem_of_mem mem
  rw [List.getElem_zip] at same
  rw [List.length_zip] at hi
  have vertex : vs[i]? = some v.1 := by
    rw [List.getElem?_eq_getElem (by omega), ← same]
  refine ⟨i, ?_, ?_, ?_⟩
  · rw [h.stations, List.getElem?_eq_getElem (by omega), ← same]
  · rw [h.north, List.getElem?_map, vertex]
    rfl
  · rw [h.east, List.getElem?_map, vertex]
    rfl

end

end Dyx3.Spray
