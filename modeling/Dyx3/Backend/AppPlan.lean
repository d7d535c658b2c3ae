import Dyx3.Lib.Flt
import Dyx3.Geometry.Plane

/-!
`compile_plan` (backend, mission/app_plan): admission of an app-planned mission. The body is checked run by
run, a run's first point is snapped onto the end of the run before, long steps are densified, and the runs
are encoded with one stored point at each shared boundary.

Numbers are exact reals. The result is what `compile_plan` hands to `path_artifact.encode`.
-/

namespace Dyx3.Backend

noncomputable section

open Geometry

/-- A value of Python's JSON reader, which also reads NaN and the infinities. -/
inductive Json where
  | null
  | bool (b : Bool)
  | int (i : ℤ)
  | float (x : ℝ)
  | nonFinite
  | str (s : String)
  | arr (items : List Json)
  | obj (fields : List (String × Json))

namespace Json

def get? (body : Json) (key : String) : Option Json :=
  match body with
  | .obj fields => fields.lookup key
  | _ => none

def has (body : Json) (key : String) : Bool := (body.get? key).isSome

/-- Python's truth value. -/
def truthy : Json → Prop
  | .null => False
  | .bool b => b
  | .int i => i ≠ 0
  | .float x => x ≠ 0
  | .nonFinite => True
  | .str s => s ≠ ""
  | .arr items => items ≠ []
  | .obj fields => fields ≠ []

instance (v : Json) : Decidable v.truthy := Classical.dec _

/-- `float(value)` of a number that is not a bool; an int beyond the largest double overflows. -/
def number? : Json → Option ℝ
  | .int i => if |i| < 2 ^ 1024 - 2 ^ 970 then some i else none
  | .float x => some x
  | _ => none

def str? : Json → Option String
  | .str s => some s
  | _ => none

def arr? : Json → Option (List Json)
  | .arr items => some items
  | _ => none

end Json

inductive Code where
  | invalidPayload | nonFiniteCoordinate | outOfBounds | invalidAnchor | anchorRequired | invalidFrame
  | originWithAnchor | emptyMission | invalidRunType | adjacentRunsSameType | runTooShort
  | pointsLimitExceeded | invalidFlags | mixedSprayInRun | runsNotContiguous
  deriving DecidableEq

/-- `MissionError`; malformed structure is a 400, every semantic rejection a 422. -/
structure MissionError where
  code : Code
  reason : String

def MissionError.status (err : MissionError) : ℕ := if err.code = .invalidPayload then 400 else 422

abbrev Check := Except MissionError

def fail {α : Type} (code : Code) (reason : String) : Check α := .error ⟨code, reason⟩

def refuseIf (c : Prop) [Decidable c] (code : Code) (reason : String) : Check Unit :=
  if c then fail code reason else pure ()

/-- The value, or the refusal when there is none. -/
def given {α : Type} (v : Option α) (code : Code) (reason : String) : Check α :=
  match v with
  | some a => pure a
  | none => fail code reason

def maxPoints : ℕ := 50000
def maxStoredPoints : ℕ := 200000
def maxStep : ℝ := 5
def envelope : ℝ := 10000
def boundarySnap : ℝ := 0.010

def flagSpray : ℕ := 1
def flagMustHit : ℕ := 2

def coordinate (value : Json) (label : String) : Check ℝ := do
  let number ← given value.number? .nonFiniteCoordinate (label ++ " must be a finite number")
  refuseIf (envelope < |number|) .outOfBounds (label ++ " exceeds the +/-10000 m envelope")
  return number

def anchorNumber (value : Json) (key : String) (limit : ℕ) : Check ℝ := do
  let within := "anchor." ++ key ++ " must be finite and within +/-" ++ toString limit
  if let .nonFinite := value then fail .invalidAnchor within
  let number ← given value.number? .invalidAnchor ("anchor." ++ key ++ " must be a finite number")
  refuseIf (limit < |number|) .invalidAnchor within
  return number

inductive Frame where
  | anchored
  | ekf
  deriving DecidableEq

def frameOf (value : Json) : Option Frame :=
  match value with
  | .str "local_ned" => some .anchored
  | .str "ekf_local_ned" => some .ekf
  | _ => none

structure Anchor where
  lat : ℝ
  lon : ℝ
  alt : Option ℝ

/-- The keys of an anchor beyond lat, lon and alt, as Python prints their sorted list (keys are printed
between plain quotes, without `repr`'s escapes). -/
def extraKeys (fields : List (String × Json)) : List String :=
  ((fields.map Prod.fst).filter fun k => k ∉ ["lat", "lon", "alt"]).mergeSort (· ≤ ·)

def listText (keys : List String) : String :=
  "[" ++ ", ".intercalate (keys.map fun k => "'" ++ k ++ "'") ++ "]"

def anchorOf (body : Json) (frame : Frame) : Check (Option Anchor) :=
  match (body.get? "anchor").getD .null with
  | .null => do
    refuseIf (frame = .anchored) .anchorRequired
      "frame local_ned needs anchor \x7blat, lon, alt?\x7d; send frame \"ekf_local_ned\" only for points already in the rover's EKF local frame"
    return none
  | anchor => do
    refuseIf (frame = .ekf) .invalidFrame
      "frame ekf_local_ned takes no anchor (the points are already EKF-local); use frame local_ned with an anchor"
    let malformed := "anchor must be an object \x7blat, lon, alt?\x7d in WGS84 degrees"
    let lat ← given (anchor.get? "lat") .invalidAnchor malformed
    let lon ← given (anchor.get? "lon") .invalidAnchor malformed
    let extra := match anchor with
      | .obj fields => extraKeys fields
      | _ => []
    refuseIf (extra ≠ []) .invalidAnchor ("anchor has unknown keys " ++ listText extra)
    let lat ← anchorNumber lat "lat" 90
    let lon ← anchorNumber lon "lon" 180
    let alt ← match (anchor.get? "alt").getD .null with
      | .null => pure none
      | alt => some <$> anchorNumber alt "alt" 10000
    return some ⟨lat, lon, alt⟩

/-! ### Runs -/

inductive RunType where
  | mark
  | travel
  deriving DecidableEq

def RunType.spray : RunType → ℕ
  | .mark => flagSpray
  | .travel => 0

structure PlanPoint where
  n : ℝ
  e : ℝ
  flags : ℕ

def PlanPoint.at (p : PlanPoint) : Point := ⟨p.n, p.e⟩

structure PlanRun where
  kind : RunType
  points : List PlanPoint

def readPoint (ri k : ℕ) (kind : RunType) (point : Json) : Check PlanPoint := do
  let label := "run " ++ toString ri ++ " point " ++ toString k
  match point with
  | .arr [north, east, flags] =>
    let n ← coordinate north (label ++ " north")
    let e ← coordinate east (label ++ " east")
    let flags ← given (match flags with
      | .int i => if 0 ≤ i ∧ i ≤ 3 then some i.toNat else none
      | _ => none) .invalidFlags (label ++ " flags must be an integer in 0..3")
    refuseIf (flags &&& flagSpray ≠ kind.spray) .mixedSprayInRun (label ++ " spray bit differs from run type")
    return ⟨n, e, flags⟩
  | _ => fail .invalidPayload (label ++ " must be [north,east,flags]")

/-- The points of a run from number `k` on. -/
def readPoints (ri : ℕ) (kind : RunType) : ℕ → List Json → Check (List PlanPoint)
  | _, [] => return []
  | k, p :: ps => do
    let q ← readPoint ri k kind p
    let qs ← readPoints ri kind (k + 1) ps
    return q :: qs

def readType (ri : ℕ) (run : Json) : Check (RunType × Json) := do
  let needs := "run " ++ toString ri ++ " needs type and points"
  let kind ← given (run.get? "type") .invalidPayload needs
  let points ← given (run.get? "points") .invalidPayload needs
  match kind with
  | .str "mark" => return (.mark, points)
  | .str "travel" => return (.travel, points)
  | _ => fail .invalidRunType ("run " ++ toString ri ++ " type must be mark or travel")

def pointList (ri : ℕ) (points : Json) : Check (List Json) := do
  let short := "run " ++ toString ri ++ " needs at least two points"
  let items ← given points.arr? .runTooShort short
  refuseIf (items.length < 2) .runTooShort short
  return items

/-- The points inserted between `p` and `q`. -/
def insertedPoints (spray parts : ℕ) (p q : PlanPoint) : List PlanPoint :=
  (List.range' 1 (parts - 1)).map fun j : ℕ =>
    ⟨p.n + (q.n - p.n) * j / parts, p.e + (q.e - p.e) * j / parts, spray⟩

def partsOf (p q : PlanPoint) : ℕ := ⌈hypot p.at q.at / maxStep⌉.toNat

/-- The loop of `_densify`: `out` is what has been written, `split` the steps split, `p` the last vertex. -/
def densifyFrom (spray : ℕ) (budget : ℤ) (out : List PlanPoint) (split : ℕ) (p : PlanPoint) :
    List PlanPoint → Check (List PlanPoint × ℕ)
  | [] => return (out, split)
  | q :: rest => do
    if maxStep < hypot p.at q.at then
      refuseIf (budget < out.length + partsOf p q) .pointsLimitExceeded
        "densifying long steps exceeds 200000 stored points"
      densifyFrom spray budget (out ++ insertedPoints spray (partsOf p q) p q ++ [q]) (split + 1) q rest
    else densifyFrom spray budget (out ++ [q]) split q rest

def densify (run : List PlanPoint) (spray : ℕ) (budget : ℤ) : Check (List PlanPoint × ℕ) :=
  match run with
  | [] => return ([], 0)
  | p :: rest => densifyFrom spray budget [p] 0 p rest

def drawnLength (run : List PlanPoint) : ℝ := pathLength (run.map PlanPoint.at)

structure Compiled where
  flat : List PlanPoint := []
  markLength : ℝ := 0
  transitLength : ℝ := 0
  total : ℕ := 0
  densifiedSteps : ℕ := 0
  maxSnap : ℝ := 0
  previous : Option (RunType × PlanPoint) := none

/-- The run moved onto the previous end, and the gap that was closed. -/
def snap (ri : ℕ) (previous : Option (RunType × PlanPoint)) (clean : List PlanPoint) :
    Check (List PlanPoint × ℝ) :=
  match previous, clean with
  | some (_, stop), p :: rest => do
    let gap := hypot stop.at p.at
    refuseIf (boundarySnap < gap) .runsNotContiguous ("run " ++ toString ri ++ " starts " ++
      Lib.fixed 1 (nearbyint (gap * 1000 * 10) / 10) ++ " mm from the previous run's endpoint (snap limit 10 mm)")
    return (⟨stop.n, stop.e, p.flags⟩ :: rest, gap)
  | _, _ => return (clean, 0)

/-- R4: the shared boundary point keeps the previous run's coordinates and spray bit; its must-hit bit is
that of either copy. -/
def appendRun (flat dense : List PlanPoint) : List PlanPoint :=
  match flat.getLast?, dense with
  | some last, first :: rest =>
    flat.dropLast ++ { last with flags := last.flags ||| (first.flags &&& flagMustHit) } :: rest
  | _, _ => dense

def addRun (s : Compiled) (ri : ℕ) (run : Json) : Check Compiled := do
  let (kind, points) ← readType ri run
  refuseIf (s.previous.map Prod.fst = some kind) .adjacentRunsSameType
    ("runs " ++ toString (ri - 1) ++ " and " ++ toString ri ++ " have the same type")
  let items ← pointList ri points
  let total := s.total + items.length
  refuseIf (maxPoints < total) .pointsLimitExceeded "mission exceeds 50000 points"
  let submitted ← readPoints ri kind 0 items
  let (clean, gap) ← snap ri s.previous submitted
  let (dense, split) ← densify clean kind.spray
    (maxStoredPoints - s.flat.length + if s.flat = [] then 0 else 1)
  let length := drawnLength clean
  return { flat := appendRun s.flat dense
           markLength := if kind = .mark then s.markLength + length else s.markLength
           transitLength := if kind = .mark then s.transitLength else s.transitLength + length
           total
           densifiedSteps := s.densifiedSteps + split
           maxSnap := max s.maxSnap gap
           previous := clean.getLast?.map (kind, ·) }

/-- The runs from number `ri` on. -/
def addRuns (s : Compiled) : ℕ → List Json → Check Compiled
  | _, [] => return s
  | ri, run :: rest => do
    let s ← addRun s ri run
    addRuns s (ri + 1) rest

/-! ### `compile_plan` -/

structure Source where
  client : String
  clientVersion : String
  name : String
  numRuns : ℕ

structure Meta where
  originNe : ℝ × ℝ
  totalMarkLength : ℝ
  totalTransitLength : ℝ
  numWaypoints : ℕ
  source : Source
  frame : Frame
  anchor : Option Anchor
  densifiedSteps : ℕ
  maxBoundarySnap : ℝ

/-- The arguments of `path_artifact.encode`; the engine is always `app_v1`. -/
structure Artifact where
  points : List PlanPoint
  info : Meta

def missionName (body : Json) : Check String :=
  match (body.get? "name").getD .null with
  | .str name =>
    if name = "" then return "app_planned_mission"
    else do
      refuseIf (128 < name.length) .invalidPayload "name must be a string of at most 128 characters"
      return name
  | name => do
    refuseIf name.truthy .invalidPayload "name must be a string of at most 128 characters"
    return "app_planned_mission"

def originOf (body : Json) : Check (ℝ × ℝ) :=
  match (body.get? "origin_ne_m").getD (.arr [.float 0, .float 0]) with
  | .arr [north, east] => do
    let n ← coordinate north "origin_ne_m[0]"
    let e ← coordinate east "origin_ne_m[1]"
    return (n, e)
  | _ => fail .invalidPayload "origin_ne_m must have two coordinates"

/-- The client and its version, nonempty strings. -/
def clientOf (client version : Json) : Check (String × String) :=
  match client, version with
  | .str c, .str v => do
    refuseIf (c = "" ∨ v = "") .invalidPayload "client and client_version must be nonempty strings"
    return (c, v)
  | _, _ => fail .invalidPayload "client and client_version must be nonempty strings"

def compilePlan (body : Json) : Check Artifact := do
  let required := "client, client_version, frame and runs are required"
  let client ← given (body.get? "client") .invalidPayload required
  let version ← given (body.get? "client_version") .invalidPayload required
  let frame ← given (body.get? "frame") .invalidPayload required
  let runs ← given (body.get? "runs") .invalidPayload required
  let frame ← given (frameOf frame) .invalidFrame
    "frame must be \"local_ned\" (with an anchor) or \"ekf_local_ned\" (no anchor)"
  let (client, version) ← clientOf client version
  let anchor ← anchorOf body frame
  let name ← missionName body
  let origin ← originOf body
  refuseIf (anchor.isSome ∧ origin ≠ (0, 0)) .originWithAnchor
    "with an anchor, origin_ne_m must be absent or [0, 0]: points are metres from the anchor"
  let runs ← given runs.arr? .invalidPayload "runs must be an array"
  refuseIf (runs = []) .emptyMission "mission must have at least one run"
  let s ← addRuns {} 0 runs
  refuseIf (maxStoredPoints < s.flat.length) .pointsLimitExceeded
    "densifying long steps exceeds 200000 stored points"
  return { points := s.flat
           info :=
             { originNe := origin
               totalMarkLength := s.markLength
               totalTransitLength := s.transitLength
               numWaypoints := s.flat.length
               source := { client, clientVersion := version, name, numRuns := runs.length }
               frame
               anchor
               densifiedSteps := s.densifiedSteps
               maxBoundarySnap := s.maxSnap } }

end

end Dyx3.Backend
