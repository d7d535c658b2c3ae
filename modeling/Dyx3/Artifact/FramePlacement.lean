import Dyx3.Artifact.FrameSpec
import Dyx3.Artifact.RoundTrip
import Dyx3.Lib.Rounded

/-!
`place_artifact` (dyx3_mission, frame_placement): a source artifact placed in the EKF local frame. Whatever the
arithmetic does, a placement that succeeds keeps the mission, and its file reads back.
-/

namespace Dyx3.Artifact

open Lib Json

structure NePoint where
  northM : Double
  eastM : Double

/-- The EKF reference at placement. -/
structure EkfReference where
  globalReferenceValid : Bool
  latDeg : Double
  lonDeg : Double

def EkfReference.geo (ref : EkfReference) : GeoPoint := ⟨ref.latDeg, ref.lonDeg⟩

section

variable [Arithmetic]

open Arithmetic

/-! ### The two maps -/

/-- PX4's radius of the earth. -/
def kPx4EarthRadiusM : Double := .ofInt 6371000
def kPi : Double := .ofDecimal false 314159265358979323846 (-20)
def kDegToRad : Double := kPi / .ofInt 180
/-- WGS84: semi-major axis, flattening, first eccentricity squared. -/
def kWgs84A : Double := .ofInt 6378137
def kWgs84F : Double := .ofInt 1 / .ofDecimal false 298257223563 (-9)
def kWgs84E2 : Double := kWgs84F * (.ofInt 2 - kWgs84F)

/-- `std::clamp`. -/
def clamp (v lo hi : Double) : Double := if v < lo then lo else if hi < v then hi else v

/-- PX4's `MapProjection::project`. -/
def projectToEkf (ref p : GeoPoint) : NePoint :=
  let refLat := ref.latDeg * kDegToRad
  let refLon := ref.lonDeg * kDegToRad
  let refSinLat := sin refLat
  let refCosLat := cos refLat
  let latRad := p.latDeg * kDegToRad
  let lonRad := p.lonDeg * kDegToRad
  let sinLat := sin latRad
  let cosLat := cos latRad
  let cosDLon := cos (lonRad - refLon)
  let arg := clamp (refSinLat * sinLat + refCosLat * cosLat * cosDLon) (.ofInt (-1)) (.ofInt 1)
  let c := acos arg
  let k := if .ofInt 0 < c.abs then c / sin c else .ofInt 1
  { northM := k * (refCosLat * sinLat - refSinLat * cosLat * cosDLon) * kPx4EarthRadiusM
    eastM := k * cosLat * sin (lonRad - refLon) * kPx4EarthRadiusM }

/-- The iteration for the geodetic latitude, with so many rounds left. -/
def geodeticLat (p z : Double) : ℕ → Double → Double
  | 0, lat => lat
  | rounds + 1, lat =>
    let sinLat := sin lat
    let nn := kWgs84A / sqrt (.ofInt 1 - kWgs84E2 * sinLat * sinLat)
    let h := p / cos lat - nn
    let next := atan2 z (p * (.ofInt 1 - kWgs84E2 * nn / (nn + h)))
    let step := (next - lat).abs
    if step < .ofDecimal false 1 (-15) then next else geodeticLat p z rounds next

/-- The WGS84 tangent plane at the anchor, inverted; at a pole there is no east. -/
def tangentPlaneToGeo (anchor : GeoPoint) (ne : NePoint) : GeoPoint :=
  let lat0 := anchor.latDeg * kDegToRad
  let lon0 := anchor.lonDeg * kDegToRad
  let sinLat0 := sin lat0
  let cosLat0 := cos lat0
  if cosLat0.abs ≤ .ofDecimal false 1 (-12) then ⟨.nan, .nan⟩
  else
    let sinLon0 := sin lon0
    let cosLon0 := cos lon0
    let n0 := kWgs84A / sqrt (.ofInt 1 - kWgs84E2 * sinLat0 * sinLat0)
    let x0 := n0 * cosLat0 * cosLon0
    let y0 := n0 * cosLat0 * sinLon0
    let z0 := n0 * (.ofInt 1 - kWgs84E2) * sinLat0
    let e := ne.eastM
    let n := ne.northM
    let x := x0 - sinLon0 * e - sinLat0 * cosLon0 * n
    let y := y0 + cosLon0 * e - sinLat0 * sinLon0 * n
    let z := z0 + cosLat0 * n
    let p := hypot x y
    let lat := geodeticLat p z 10 (atan2 z (p * (.ofInt 1 - kWgs84E2)))
    ⟨lat / kDegToRad, atan2 y x / kDegToRad⟩

/-- The placement of one point. -/
def placePoint (ekfRef anchor : GeoPoint) (ne : NePoint) : NePoint :=
  let g := tangentPlaneToGeo anchor ne
  if g.latDeg.isFinite = false ∨ g.lonDeg.isFinite = false then ⟨.nan, .nan⟩ else projectToEkf ekfRef g

/-! ### `place_artifact` -/

inductive PlacementError where
  | noPlacementFrame
  | referenceInvalid
  | outOfBounds
  | notSerializable
  deriving DecidableEq

structure Placement where
  detail : Bytes
  /-- Not for a passthrough, whose execution is the source. -/
  transformed : Bool
  anchorEkf : NePoint := ⟨.ofInt 0, .ofInt 0⟩
  execution : PathArtifact
  /-- Empty for a passthrough. -/
  bytes : Bytes := []

abbrev PlacementResult := Except (PlacementError × Bytes)

def tooFar (maxDistanceM : Double) (p : NePoint) : Prop :=
  p.northM.isFinite = false ∨ p.eastM.isFinite = false ∨ maxDistanceM < hypot p.northM p.eastM

instance (maxDistanceM : Double) (p : NePoint) : Decidable (tooFar maxDistanceM p) := inferInstanceAs (Decidable (_ ∨ _))

def ArtifactPoint.ne (p : ArtifactPoint) : NePoint := ⟨p.northM, p.eastM⟩

def farText (maxDistanceM : Double) : Bytes :=
  " is more than ".toList ++ pythonRepr maxDistanceM ++ " m from the EKF origin".toList

/-- The points from number `i` on are near enough. -/
def checkPoints (maxDistanceM : Double) : ℕ → List ArtifactPoint → PlacementResult Unit
  | _, [] => .ok ()
  | i, p :: ps =>
    if tooFar maxDistanceM p.ne then .error (.outOfBounds, "point ".toList ++ toText i ++ farText maxDistanceM)
    else checkPoints maxDistanceM (i + 1) ps

/-- The point at its place. -/
def ArtifactPoint.movedTo (p : ArtifactPoint) (placed : NePoint) : ArtifactPoint :=
  { p with northM := placed.northM, eastM := placed.eastM }

/-- The points from number `i` on, each at its place. -/
def placePoints (place : NePoint → NePoint) (maxDistanceM : Double) : ℕ → List ArtifactPoint → PlacementResult (List ArtifactPoint)
  | _, [] => .ok []
  | i, p :: ps => do
    let q := p.movedTo (place p.ne)
    if tooFar maxDistanceM q.ne then
      .error (.outOfBounds, "placed point ".toList ++ toText i ++ farText maxDistanceM)
    let qs ← placePoints place maxDistanceM (i + 1) ps
    return q :: qs

def kPlacementMethod : Bytes := "wgs84_enu_tangent_plane_to_px4_map_projection".toList

/-- The `meta` of the execution, assembled by hand. -/
def executionMeta (a : NePoint) (ref : EkfReference) (source : PathArtifact) : Bytes :=
  "\x7b\"execution\":\x7b\"anchor_ekf_ne_m\":[".toList ++ pythonRepr a.northM ++ ",".toList ++ pythonRepr a.eastM ++
    "],\"ekf_reference\":\x7b\"lat\":".toList ++ pythonRepr ref.latDeg ++ ",\"lon\":".toList ++ pythonRepr ref.lonDeg ++
    "\x7d,\"method\":\"".toList ++ kPlacementMethod ++ "\",\"source_sha256\":\"".toList ++ source.sha256 ++
    "\"\x7d,\"frame\":\"ekf_execution\",\"source_meta\":".toList ++ source.metaJson ++ "\x7d".toList

/-- What is done once the points are placed: the file is written and read again. -/
def finishPlacement (source : PathArtifact) (ref : EkfReference) (a : NePoint) (points : List ArtifactPoint) :
    PlacementResult Placement :=
  let metaJson := executionMeta a ref source
  let bytes := serializeArtifact source.engineId metaJson points
  if bytes = [] then .error (.notSerializable, "execution artifact has no canonical spelling".toList)
  else
    match parseArtifact bytes [] with
    | .error why => .error (.notSerializable, "execution artifact refused by the reader: ".toList ++ why)
    | .ok check =>
      .ok
        { detail := "anchor at N ".toList ++ pythonRepr a.northM ++ " m, E ".toList ++ pythonRepr a.eastM ++
            " m in the EKF frame".toList
          transformed := true, anchorEkf := a, bytes
          execution := { sha256 := check.sha256, version := 1, engineId := source.engineId, metaJson, points } }

def placeArtifact (source : PathArtifact) (ref : EkfReference) (maxDistanceM : Double) : PlacementResult Placement :=
  match readFrameSpec source.metaJson with
  | .error why => .error (.noPlacementFrame, why)
  | .ok frame =>
    if ¬ (.ofInt 0 < maxDistanceM) ∨ maxDistanceM.isFinite = false then
      .error (.notSerializable, "invalid placement bound".toList)
    else
      match frame with
      | .ekfLocal => do
        checkPoints maxDistanceM 0 source.points
        return { detail := "frame ekf_local_ned: driven unchanged".toList, transformed := false, execution := source }
      | .anchored anchor =>
        if ref.globalReferenceValid = false ∨ ¬ validGeo ref.geo then
          .error (.referenceInvalid, "no valid EKF global reference to place an anchored trajectory".toList)
        else
          let a := placePoint ref.geo anchor ⟨.ofInt 0, .ofInt 0⟩
          if tooFar maxDistanceM a then
            .error (.outOfBounds, "anchor is ".toList ++ pythonRepr (hypot a.northM a.eastM) ++
              " m from the EKF origin (limit ".toList ++ pythonRepr maxDistanceM ++ " m)".toList)
          else do
            let points ← placePoints (placePoint ref.geo anchor) maxDistanceM 0 source.points
            finishPlacement source ref a points

/-! ### The loops -/

theorem checkPoints_ok {maxDistanceM : Double} {ps : List ArtifactPoint} {i : ℕ} :
    checkPoints maxDistanceM i ps = .ok () ↔ ∀ p ∈ ps, ¬ tooFar maxDistanceM p.ne := by
  induction ps generalizing i with
  | nil => exact ⟨fun _ => nofun, fun _ => rfl⟩
  | cons p ps ih =>
    rw [checkPoints, List.forall_mem_cons]
    split
    · rename_i far
      exact ⟨nofun, fun near => absurd far near.1⟩
    · rename_i near
      rw [ih]
      exact ⟨fun others => ⟨near, others⟩, fun all => all.2⟩

theorem checkPoints_error {maxDistanceM : Double} {ps : List ArtifactPoint} {i : ℕ} {err : PlacementError × Bytes}
    (refused : checkPoints maxDistanceM i ps = .error err) : err.1 = .outOfBounds := by
  induction ps generalizing i with
  | nil => cases refused
  | cons p ps ih =>
    rw [checkPoints] at refused
    split at refused
    · cases refused
      rfl
    · exact ih refused

/-- The points at their places. -/
def moved (place : NePoint → NePoint) (ps : List ArtifactPoint) : List ArtifactPoint := ps.map fun p => p.movedTo (place p.ne)

theorem placePoints_cases (place : NePoint → NePoint) (maxDistanceM : Double) (ps : List ArtifactPoint) (i : ℕ) :
    ((∀ q ∈ moved place ps, ¬ tooFar maxDistanceM q.ne) ∧ placePoints place maxDistanceM i ps = .ok (moved place ps)) ∨
      ((∃ q ∈ moved place ps, tooFar maxDistanceM q.ne) ∧
        ∃ why, placePoints place maxDistanceM i ps = .error (.outOfBounds, why)) := by
  induction ps generalizing i with
  | nil => exact .inl ⟨nofun, rfl⟩
  | cons p ps ih =>
    by_cases far : tooFar maxDistanceM (p.movedTo (place p.ne)).ne
    · refine .inr ⟨⟨_, List.mem_cons_self, far⟩, "placed point ".toList ++ toText i ++ farText maxDistanceM, ?_⟩
      rw [placePoints]
      simp only [if_pos far]
      rfl
    · have step : placePoints place maxDistanceM i (p :: ps) =
          (placePoints place maxDistanceM (i + 1) ps).map (p.movedTo (place p.ne) :: ·) := by
        rw [placePoints]
        simp only [if_neg far]
        rfl
      rcases ih (i + 1) with ⟨near, placed⟩ | ⟨⟨q, member, far'⟩, why, refused⟩
      · refine .inl ⟨?_, by rw [step, placed]; rfl⟩
        intro q member
        rcases List.mem_cons.mp member with rfl | member
        · exact far
        · exact near q member
      · exact .inr ⟨⟨q, List.mem_cons_of_mem _ member, far'⟩, why, by rw [step, refused]; rfl⟩

theorem near_finite {maxDistanceM : Double} {p : NePoint} (near : ¬ tooFar maxDistanceM p) :
    p.northM.isFinite = true ∧ p.eastM.isFinite = true := by
  rw [tooFar, not_or, not_or] at near
  exact ⟨Bool.of_not_eq_false near.1, Bool.of_not_eq_false near.2.1⟩

/-- What is not too far is within the bound. -/
theorem near_le {maxDistanceM : Double} (bound : .ofInt 0 < maxDistanceM) {p : NePoint} (near : ¬ tooFar maxDistanceM p) :
    hypot p.northM p.eastM ≤ maxDistanceM := by
  obtain ⟨north, east⟩ := near_finite near
  rw [tooFar, not_or, not_or] at near
  exact Double.le_of_not_lt (hypot_notNan north east) bound.2.1 near.2.2

end

/-! ### The `meta` of the execution -/

/-- Text that is written as it is. -/
def IsPlain (s : Bytes) : Prop := ∀ c ∈ s, IsPrintable c.toNat ∧ c ≠ '"' ∧ c ≠ '\\'

instance (s : Bytes) : Decidable (IsPlain s) :=
  decidable_of_iff (s.all fun c => decide (IsPrintable c.toNat) && c != '"' && c != '\\') (by simp [IsPlain, and_assoc])

theorem IsPlain.joined {s : Bytes} (plain : IsPlain s) : Joined (s.map Char.toNat) := by
  refine joined_small fun c member => ?_
  obtain ⟨d, inside, rfl⟩ := List.mem_map.mp member
  have := (plain d inside).1.2
  omega

theorem sha_plain (text : Bytes) : IsPlain (Sha256.sha256Hex text) := by
  intro c member
  obtain ⟨d, small, rfl⟩ := Sha256.sha256Hex_digits text c member
  interval_cases d <;> decide

theorem quote_plain {s : Bytes} (plain : IsPlain s) : quote (s.map Char.toNat) = '"' :: s ++ ['"'] := by
  rw [quote, escape_plain plain]

theorem str_dumps {s : Bytes} (plain : IsPlain s) : (Json.str (s.map Char.toNat)).dumps = '"' :: s ++ ['"'] := by
  rw [dumps, quote_plain plain]

theorem fieldText_ascii {name : String} (plain : IsPlain name.toList) (v : Json) :
    fieldText (ascii name, v) = '"' :: (name.toList ++ '"' :: ':' :: v.dumps) := by
  have text : quote (ascii name) = '"' :: name.toList ++ ['"'] := quote_plain plain
  rw [fieldText, memberText, text]
  simp

theorem sorted_keys {fields : Fields} {keys : List Str} (same : fields.map Prod.fst = keys) (sorted : keys.Pairwise (· < ·)) :
    fields.Pairwise fun (x y : Str × Json) => x.1 < y.1 := by
  subst same
  exact List.pairwise_map.mp sorted

section

variable (a : NePoint) (ref : EkfReference) (sha : Bytes) (source : Json)

def referenceFields : Fields := [(ascii "lat", .float ref.latDeg), (ascii "lon", .float ref.lonDeg)]

def placementFields : Fields :=
  [(ascii "anchor_ekf_ne_m", .arr [.float a.northM, .float a.eastM]), (ascii "ekf_reference", .obj (referenceFields ref)),
    (ascii "method", .str (kPlacementMethod.map Char.toNat)), (ascii "source_sha256", .str (sha.map Char.toNat))]

/-- The value whose text `executionMeta` assembles. -/
def executionFields : Fields :=
  [(ascii "execution", .obj (placementFields a ref sha)), (ascii "frame", .str (ascii "ekf_execution")),
    (ascii "source_meta", source)]

end

section

variable {a : NePoint} {ref : EkfReference} {sha : Bytes} {v : Json}

theorem referenceFields_sorted : (referenceFields ref).Pairwise fun (x y : Str × Json) => x.1 < y.1 :=
  sorted_keys (show _ = [ascii "lat", ascii "lon"] from rfl) (by decide)

theorem placementFields_sorted : (placementFields a ref sha).Pairwise fun (x y : Str × Json) => x.1 < y.1 :=
  sorted_keys (show _ = [ascii "anchor_ekf_ne_m", ascii "ekf_reference", ascii "method", ascii "source_sha256"] from rfl)
    (by decide)

theorem executionFields_sorted : (executionFields a ref sha v).Pairwise fun (x y : Str × Json) => x.1 < y.1 :=
  sorted_keys (show _ = [ascii "execution", ascii "frame", ascii "source_meta"] from rfl) (by decide)

theorem float_dumps {x : Double} (finite : x.isFinite = true) : (Json.float x).dumps = pythonRepr x := by
  rw [dumps, pythonRepr_eq finite]

theorem reference_text (lat : ref.latDeg.isFinite = true) (lon : ref.lonDeg.isFinite = true) :
    (Json.obj (referenceFields ref)).dumps =
      "\x7b\"lat\":".toList ++ pythonRepr ref.latDeg ++ ",\"lon\":".toList ++ pythonRepr ref.lonDeg ++ "\x7d".toList := by
  rw [dumps_obj referenceFields_sorted]
  simp only [referenceFields, List.map_cons, List.map_nil, commas, fieldText_ascii (show IsPlain "lat".toList by decide),
    fieldText_ascii (show IsPlain "lon".toList by decide), float_dumps lat, float_dumps lon, List.append_assoc,
    List.cons_append]
  rfl

theorem placement_text (north : a.northM.isFinite = true) (east : a.eastM.isFinite = true) (plain : IsPlain sha) :
    (Json.obj (placementFields a ref sha)).dumps =
      "\x7b\"anchor_ekf_ne_m\":[".toList ++ pythonRepr a.northM ++ ",".toList ++ pythonRepr a.eastM ++
        "],\"ekf_reference\":".toList ++ (Json.obj (referenceFields ref)).dumps ++ ",\"method\":\"".toList ++ kPlacementMethod ++
        "\",\"source_sha256\":\"".toList ++ sha ++ "\"\x7d".toList := by
  rw [dumps_obj placementFields_sorted]
  simp only [placementFields, List.map_cons, List.map_nil, commas, fieldText_ascii (show IsPlain "anchor_ekf_ne_m".toList by decide),
    fieldText_ascii (show IsPlain "ekf_reference".toList by decide), fieldText_ascii (show IsPlain "method".toList by decide),
    fieldText_ascii (show IsPlain "source_sha256".toList by decide), dumps_arr, float_dumps north, float_dumps east,
    str_dumps plain, str_dumps (show IsPlain kPlacementMethod by decide), List.append_assoc, List.cons_append]
  rfl

theorem execution_text (north : a.northM.isFinite = true) (east : a.eastM.isFinite = true) (lat : ref.latDeg.isFinite = true)
    (lon : ref.lonDeg.isFinite = true) {source : PathArtifact} (plain : IsPlain source.sha256)
    (text : source.metaJson = v.dumps) :
    executionMeta a ref source = (Json.obj (executionFields a ref source.sha256 v)).dumps := by
  have frame : (Json.str (ascii "ekf_execution")).dumps = '"' :: "ekf_execution".toList ++ ['"'] :=
    str_dumps (show IsPlain "ekf_execution".toList by decide)
  -- the literals of the source, cut where a value ends
  have first : "\x7b\"execution\":\x7b\"anchor_ekf_ne_m\":[".toList =
      '{' :: '"' :: ("execution".toList ++ '"' :: ':' :: "\x7b\"anchor_ekf_ne_m\":[".toList) := rfl
  have second : "],\"ekf_reference\":\x7b\"lat\":".toList = "],\"ekf_reference\":".toList ++ "\x7b\"lat\":".toList := rfl
  have third : "\x7d,\"method\":\"".toList = "\x7d".toList ++ ",\"method\":\"".toList := rfl
  have fourth : "\"\x7d,\"frame\":\"ekf_execution\",\"source_meta\":".toList =
      "\"\x7d".toList ++ ',' :: '"' :: ("frame".toList ++ '"' :: ':' :: '"' :: ("ekf_execution".toList ++
        '"' :: ',' :: '"' :: ("source_meta".toList ++ ['"', ':']))) := rfl
  have last : "\x7d".toList = ['}'] := rfl
  refine Eq.trans ?_ (dumps_obj executionFields_sorted).symm
  unfold executionMeta
  rw [text]
  simp only [first, second, third, fourth]
  simp only [executionFields, List.map_cons, List.map_nil, commas, fieldText_ascii (show IsPlain "execution".toList by decide),
    fieldText_ascii (show IsPlain "frame".toList by decide), fieldText_ascii (show IsPlain "source_meta".toList by decide),
    placement_text north east plain, reference_text lat lon, frame, List.append_assoc, List.cons_append, List.nil_append, last]

/-- One level is added to those of the source's `meta`. -/
theorem execution_canonical {levels : ℕ} (north : a.northM.isFinite = true) (east : a.eastM.isFinite = true)
    (lat : ref.latDeg.isFinite = true) (lon : ref.lonDeg.isFinite = true) (plain : IsPlain sha)
    (canonical : Canonical (levels + 3) v) : Canonical (levels + 4) (.obj (executionFields a ref sha v)) := by
  have name {s : String} (plain : IsPlain s.toList) : Joined (ascii s) := plain.joined
  refine ⟨executionFields_sorted, ?_⟩
  simp only [executionFields, List.forall_mem_cons]
  refine ⟨⟨name (by decide), placementFields_sorted, ?_⟩, ⟨name (by decide), name (by decide)⟩, ⟨name (by decide), canonical⟩,
    nofun⟩
  simp only [placementFields, List.forall_mem_cons]
  refine ⟨⟨name (by decide), ?_⟩, ⟨name (by decide), referenceFields_sorted, ?_⟩,
    ⟨name (by decide), IsPlain.joined (by decide)⟩, ⟨name (by decide), plain.joined⟩, nofun⟩
  · simp only [Canonical, List.forall_mem_cons]
    exact ⟨north, east, nofun⟩
  · simp only [referenceFields, List.forall_mem_cons]
    exact ⟨⟨name (by decide), lat⟩, ⟨name (by decide), lon⟩, nofun⟩

/-- The frame of an execution is no source frame. -/
theorem execution_refused (canonical : Canonical (CanonicalJson.kMaxDepth + 1) (.obj (executionFields a ref sha v))) :
    ∃ why, readFrameSpec (Json.obj (executionFields a ref sha v)).dumps = .error why := by
  cases fits : numbersFit (.obj (executionFields a ref sha v)) with
  | false => exact ⟨_, readFrameSpec_unfit canonical (by decide) fits⟩
  | true =>
    have read := readFrameSpec_fits canonical (by decide) fits
    have frame : (executionFields a ref sha v).lookup (ascii "frame") = some (.str (ascii "ekf_execution")) := rfl
    have anchor : (executionFields a ref sha v).lookup (ascii "anchor") = none := rfl
    have other : ascii "ekf_execution" ≠ ascii "local_ned" ∧ ascii "ekf_execution" ≠ ascii "ekf_local_ned" := by decide
    rw [frame, anchor] at read
    simp only [frameSpecOf, anchorOf, if_neg other.1, if_neg other.2] at read
    exact ⟨_, read⟩

end

/-! ### The file of the execution -/

/-- What the reader knows of an artifact. -/
structure Parsed (source : PathArtifact) : Prop where
  fine : Serializable source.engineId source.metaJson source.points
  sha : IsPlain source.sha256
  small : source.points.length < 10 ^ 10

theorem parsed {bytes expected : Bytes} {source : PathArtifact} (read : parseArtifact bytes expected = .ok source) :
    Parsed source := by
  obtain ⟨_, count, rows, ok, counted, _, hash, _, points⟩ := parseArtifact_sound read
  have fine := (serialize_parsed ok).1
  rw [← points] at fine
  refine ⟨fine, ?_, ?_⟩
  · rw [hash]
    exact sha_plain bytes
  · obtain ⟨_, long, all, value⟩ := parseUint_ok counted
    have small := ofDigitChars_lt all
    rw [points, List.length_map, ← value]
    exact lt_of_lt_of_le small (Nat.pow_le_pow_right (by decide) long)

/-- The placement of an anchored artifact, once its file is written. -/
def executionOf (source : PathArtifact) (ref : EkfReference) (a : NePoint) (points : List ArtifactPoint) : Placement where
  detail := "anchor at N ".toList ++ pythonRepr a.northM ++ " m, E ".toList ++ pythonRepr a.eastM ++ " m in the EKF frame".toList
  transformed := true
  anchorEkf := a
  bytes := serializeArtifact source.engineId (executionMeta a ref source) points
  execution :=
    { sha256 := Sha256.sha256Hex (serializeArtifact source.engineId (executionMeta a ref source) points), version := 1
      engineId := source.engineId, metaJson := executionMeta a ref source, points }

section

variable {source : PathArtifact} {ref : EkfReference} {a : NePoint} {points : List ArtifactPoint}

theorem finishPlacement_ok (fine : Serializable source.engineId (executionMeta a ref source) points)
    (small : points.length < 10 ^ 10) : finishPlacement source ref a points = .ok (executionOf source ref a points) := by
  simp only [finishPlacement, if_neg (serialize_ne_nil.mpr fine), parse_serialize fine small]
  rfl

theorem finishPlacement_fine {p : Placement} (done : finishPlacement source ref a points = .ok p) :
    Serializable source.engineId (executionMeta a ref source) points := by
  simp only [finishPlacement] at done
  split at done
  · cases done
  · rename_i written
    exact serialize_ne_nil.mp written

theorem execution_parses (fine : Serializable source.engineId (executionMeta a ref source) points)
    (small : points.length < 10 ^ 10) :
    parseArtifact (executionOf source ref a points).bytes (executionOf source ref a points).execution.sha256 =
      .ok (executionOf source ref a points).execution :=
  parse_serialize_under fine small (.inr rfl)

variable (known : Parsed source) (near : a.northM.isFinite = true ∧ a.eastM.isFinite = true) (geo : validGeo ref.geo)

include known near geo

/-- The `meta` of the execution is canonical text one level deeper. -/
theorem execution_meta : ∃ fields, source.metaJson = (Json.obj fields).dumps ∧
    Canonical (CanonicalJson.kMaxDepth + 1) (.obj fields) ∧
    Canonical (CanonicalJson.kMaxDepth + 2) (.obj (executionFields a ref source.sha256 (.obj fields))) ∧
    executionMeta a ref source = (Json.obj (executionFields a ref source.sha256 (.obj fields))).dumps := by
  obtain ⟨fields, canonical, text⟩ := known.fine.canonical
  have deeper : Canonical (62 + 4) (.obj (executionFields a ref source.sha256 (.obj fields))) :=
    execution_canonical near.1 near.2 geo.1 geo.2.1 known.sha canonical
  exact ⟨fields, text, canonical, deeper, execution_text near.1 near.2 geo.1 geo.2.1 known.sha text⟩

theorem executionMeta_refused (written : CanonicalJson.IsCanonicalObject (executionMeta a ref source)) :
    ∃ why, readFrameSpec (executionMeta a ref source) = .error why := by
  obtain ⟨fields, _, _, deeper, text⟩ := execution_meta known near geo
  obtain ⟨fields', canonical, text'⟩ := written
  have same := dumps_inj canonical deeper (by decide) (by decide) (text'.symm.trans text)
  rw [text']
  rw [same] at canonical ⊢
  exact execution_refused canonical

/-- The levels of the source's `meta` leave one for the execution's. -/
def Shallow (metaJson : Bytes) : Prop := CanonicalJson.value CanonicalJson.kMaxDepth metaJson = some []

theorem executionMeta_canonical (shallow : Shallow source.metaJson) :
    CanonicalJson.IsCanonicalObject (executionMeta a ref source) := by
  obtain ⟨fields, meta', canonical, _, text⟩ := execution_meta known near geo
  obtain ⟨v, within, text'⟩ := CanonicalJson.value_sound _ _ shallow
  rw [List.append_nil] at text'
  have same := dumps_inj canonical within (by decide) (by decide) (meta'.symm.trans text')
  rw [← same] at within
  have deeper : Canonical (61 + 4) (.obj (executionFields a ref source.sha256 (.obj fields))) :=
    execution_canonical near.1 near.2 geo.1 geo.2.1 known.sha within
  exact ⟨_, deeper, text⟩

end

/-! ### Placement keeps the mission -/

theorem moved_id (ps : List ArtifactPoint) : moved id ps = ps := List.map_id ps

theorem moved_flags (place : NePoint → NePoint) (ps : List ArtifactPoint) :
    (moved place ps).map ArtifactPoint.flags = ps.map ArtifactPoint.flags := by
  rw [moved, List.map_map]
  rfl

section

variable [Arithmetic]

open Arithmetic

/-- Where a source of this frame is driven. -/
def placeOf (ref : EkfReference) : FrameSpec → NePoint → NePoint
  | .ekfLocal => id
  | .anchored anchor => placePoint ref.geo anchor

/-- What is kept of the source with these bytes. -/
structure Kept (bytes : Bytes) (source : PathArtifact) (ref : EkfReference) (maxDistanceM : Double) (p : Placement) : Prop where
  points : ∃ frame, readFrameSpec source.metaJson = .ok frame ∧ p.execution.points = moved (placeOf ref frame) source.points
  flags : p.execution.points.map ArtifactPoint.flags = source.points.map ArtifactPoint.flags
  near : ∀ q ∈ p.execution.points, q.northM.isFinite = true ∧ q.eastM.isFinite = true ∧ hypot q.northM q.eastM ≤ maxDistanceM
  file : parseArtifact (if p.transformed then p.bytes else bytes) p.execution.sha256 = .ok p.execution
  refused : p.transformed = true →
    ∀ ref' maxDistanceM', ∃ why, placeArtifact p.execution ref' maxDistanceM' = .error (.noPlacementFrame, why)

section

variable {source : PathArtifact} {ref : EkfReference} {maxDistanceM : Double} {bytes : Bytes}

theorem placeArtifact_refused {why : Bytes} (refused : readFrameSpec source.metaJson = .error why) :
    placeArtifact source ref maxDistanceM = .error (.noPlacementFrame, why) := by
  simp only [placeArtifact, refused]

theorem kept_passthrough (read : parseArtifact bytes source.sha256 = .ok source) (bound : .ofInt 0 < maxDistanceM)
    (frame : readFrameSpec source.metaJson = .ok .ekfLocal) (near : ∀ q ∈ source.points, ¬ tooFar maxDistanceM q.ne)
    (detail : Bytes) : Kept bytes source ref maxDistanceM { detail, transformed := false, execution := source } where
  points := ⟨.ekfLocal, frame, (moved_id source.points).symm⟩
  flags := rfl
  near q member := ⟨(near_finite (near q member)).1, (near_finite (near q member)).2, near_le bound (near q member)⟩
  file := read
  refused := nofun

theorem kept_execution (known : Parsed source) (bound : .ofInt 0 < maxDistanceM) {anchor : GeoPoint}
    (frame : readFrameSpec source.metaJson = .ok (.anchored anchor)) (geo : validGeo ref.geo) {a : NePoint}
    (anchorNear : ¬ tooFar maxDistanceM a) (near : ∀ q ∈ moved (placePoint ref.geo anchor) source.points, ¬ tooFar maxDistanceM q.ne)
    (fine : Serializable source.engineId (executionMeta a ref source) (moved (placePoint ref.geo anchor) source.points)) :
    Kept bytes source ref maxDistanceM (executionOf source ref a (moved (placePoint ref.geo anchor) source.points)) where
  points := ⟨.anchored anchor, frame, rfl⟩
  flags := moved_flags _ _
  near q member := ⟨(near_finite (near q member)).1, (near_finite (near q member)).2, near_le bound (near q member)⟩
  file := execution_parses fine (by rw [moved, List.length_map]; exact known.small)
  refused _ ref' maxDistanceM' := by
    obtain ⟨why, refused⟩ := executionMeta_refused known (near_finite anchorNear) geo fine.canonical
    exact ⟨why, placeArtifact_refused refused⟩

/-- Points that are near enough can be written with any `meta`. -/
theorem Parsed.moves (known : Parsed source) {place : NePoint → NePoint}
    (near : ∀ q ∈ moved place source.points, ¬ tooFar maxDistanceM q.ne) {metaJson : Bytes}
    (canonical : CanonicalJson.IsCanonicalObject metaJson) : Serializable source.engineId metaJson (moved place source.points) := by
  refine ⟨?_, fun q member => near_finite (near q member), ?_, known.fine.engine, known.fine.word, canonical⟩
  · rw [moved, ne_eq, List.map_eq_nil_iff]
    exact known.fine.some
  · intro q member
    obtain ⟨p, inside, rfl⟩ := List.mem_map.mp member
    exact known.fine.flags p inside

/-- How a placement ends, once the frame is read. -/
theorem placeArtifact_anchored {anchor : GeoPoint} (frame : readFrameSpec source.metaJson = .ok (.anchored anchor))
    (bound : .ofInt 0 < maxDistanceM) (finite : maxDistanceM.isFinite = true) (valid : ref.globalReferenceValid = true)
    (geo : validGeo ref.geo) (near : ∀ q ∈ moved (placePoint ref.geo anchor) source.points, ¬ tooFar maxDistanceM q.ne)
    (anchorNear : ¬ tooFar maxDistanceM (placePoint ref.geo anchor ⟨.ofInt 0, .ofInt 0⟩)) :
    placeArtifact source ref maxDistanceM = finishPlacement source ref (placePoint ref.geo anchor ⟨.ofInt 0, .ofInt 0⟩)
      (moved (placePoint ref.geo anchor) source.points) := by
  have allowed : ¬ (¬ (.ofInt 0 < maxDistanceM) ∨ maxDistanceM.isFinite = false) := by simp [bound, finite]
  have referenced : ¬ (ref.globalReferenceValid = false ∨ ¬ validGeo ref.geo) := by simp [valid, geo]
  rcases placePoints_cases (placePoint ref.geo anchor) maxDistanceM source.points 0 with
    ⟨_, placed⟩ | ⟨⟨q, member, far⟩, _⟩
  · simp only [placeArtifact, frame, if_neg allowed, if_neg referenced, if_neg anchorNear, placed]
    rfl
  · exact absurd far (near q member)

/-- The ways a placement may end. -/
theorem placeArtifact_cases (known : Parsed source) (read : parseArtifact bytes source.sha256 = .ok source) {p : Placement}
    (placed : placeArtifact source ref maxDistanceM = .ok p) : Kept bytes source ref maxDistanceM p := by
  cases frame : readFrameSpec source.metaJson with
  | error why =>
    rw [placeArtifact_refused frame] at placed
    cases placed
  | ok spec =>
    simp only [placeArtifact, frame] at placed
    split at placed
    · cases placed
    · rename_i allowed
      rw [not_or, not_not] at allowed
      cases spec with
      | ekfLocal =>
        dsimp only at placed
        cases checked : checkPoints maxDistanceM 0 source.points with
        | error err =>
          rw [checked] at placed
          cases placed
        | ok =>
          rw [checked] at placed
          cases placed
          exact kept_passthrough read allowed.1 frame (checkPoints_ok.mp checked) _
      | anchored anchor =>
        dsimp only at placed
        split at placed
        · cases placed
        · rename_i referenced
          rw [not_or, not_not] at referenced
          split at placed
          · cases placed
          · rename_i anchorNear
            rcases placePoints_cases (placePoint ref.geo anchor) maxDistanceM source.points 0 with
              ⟨near, moved⟩ | ⟨_, why, refused⟩
            · rw [moved] at placed
              have done : finishPlacement source ref _ _ = .ok p := placed
              have fine := finishPlacement_fine done
              have small : (Artifact.moved (placePoint ref.geo anchor) source.points).length < 10 ^ 10 := by
                rw [Artifact.moved, List.length_map]
                exact known.small
              rw [finishPlacement_ok fine small] at done
              cases done
              exact kept_execution known allowed.1 frame referenced.2 anchorNear near fine
            · rw [refused] at placed
              cases placed

theorem placeArtifact_places (known : Parsed source) {spec : FrameSpec} (frame : readFrameSpec source.metaJson = .ok spec)
    (valid : ref.globalReferenceValid = true) (geo : validGeo ref.geo) (bound : .ofInt 0 < maxDistanceM)
    (finite : maxDistanceM.isFinite = true) (near : ∀ q ∈ moved (placeOf ref spec) source.points, ¬ tooFar maxDistanceM q.ne)
    (shallow : spec ≠ .ekfLocal → Shallow source.metaJson) :
    (∃ p, placeArtifact source ref maxDistanceM = .ok p) ↔
      ∀ anchor, spec = .anchored anchor → ¬ tooFar maxDistanceM (placePoint ref.geo anchor ⟨.ofInt 0, .ofInt 0⟩) := by
  have allowed : ¬ (¬ (.ofInt 0 < maxDistanceM) ∨ maxDistanceM.isFinite = false) := by simp [bound, finite]
  cases spec with
  | ekfLocal =>
    refine ⟨fun _ => nofun, fun _ => ?_⟩
    rw [placeOf, moved_id] at near
    have checked : checkPoints maxDistanceM 0 source.points = .ok () := checkPoints_ok.mpr near
    refine ⟨{ detail := "frame ekf_local_ned: driven unchanged".toList, transformed := false, execution := source }, ?_⟩
    simp only [placeArtifact, frame, if_neg allowed, checked]
    rfl
  | anchored anchor =>
    constructor
    · rintro ⟨p, placed⟩ other ⟨⟩ far
      have referenced : ¬ (ref.globalReferenceValid = false ∨ ¬ validGeo ref.geo) := by simp [valid, geo]
      simp only [placeArtifact, frame, if_neg allowed, if_neg referenced, if_pos far] at placed
      cases placed
    · intro anchorNear
      have anchorNear := anchorNear anchor rfl
      have canonical := executionMeta_canonical known (near_finite anchorNear) geo (shallow nofun)
      have small : (moved (placePoint ref.geo anchor) source.points).length < 10 ^ 10 := by
        rw [moved, List.length_map]
        exact known.small
      rw [placeArtifact_anchored frame bound finite valid geo near anchorNear]
      exact ⟨_, finishPlacement_ok (known.moves near canonical) small⟩

/-- A placement that succeeds keeps the mission. Where the frame is readable, the reference valid and every point within
the bound, it succeeds exactly when the anchor is within the bound too. -/
theorem placement_keeps (bytes expected : Bytes) (source : PathArtifact) (read : parseArtifact bytes expected = .ok source)
    (ref : EkfReference) (maxDistanceM : Double) :
    (∀ p, placeArtifact source ref maxDistanceM = .ok p → Kept bytes source ref maxDistanceM p) ∧
      ∀ spec, readFrameSpec source.metaJson = .ok spec → ref.globalReferenceValid = true → validGeo ref.geo →
        .ofInt 0 < maxDistanceM → maxDistanceM.isFinite = true →
        (∀ q ∈ moved (placeOf ref spec) source.points, ¬ tooFar maxDistanceM q.ne) →
        (spec ≠ .ekfLocal → Shallow source.metaJson) →
        ((∃ p, placeArtifact source ref maxDistanceM = .ok p) ↔
          ∀ anchor, spec = .anchored anchor → ¬ tooFar maxDistanceM (placePoint ref.geo anchor ⟨.ofInt 0, .ofInt 0⟩)) := by
  have known := parsed read
  exact ⟨fun p placed => placeArtifact_cases known (parse_own read) placed, fun spec frame valid geo bound finite near shallow =>
    placeArtifact_places known frame valid geo bound finite near shallow⟩

end

end

/-! ### One anchored artifact -/

def anchoredFields (anchor : GeoPoint) : Fields :=
  [(ascii "anchor", .obj [(ascii "lat", .float anchor.latDeg), (ascii "lon", .float anchor.lonDeg)]),
    (ascii "frame", .str (ascii "local_ned"))]

theorem anchored_canonical {anchor : GeoPoint} (valid : validGeo anchor) (levels : ℕ) :
    Canonical (levels + 3) (.obj (anchoredFields anchor)) := by
  have name {s : String} (plain : IsPlain s.toList) : Joined (ascii s) := plain.joined
  refine ⟨sorted_keys (show _ = [ascii "anchor", ascii "frame"] from rfl) (by decide), ?_⟩
  simp only [anchoredFields, List.forall_mem_cons]
  refine ⟨⟨name (by decide), sorted_keys (show _ = [ascii "lat", ascii "lon"] from rfl) (by decide), ?_⟩,
    ⟨name (by decide), name (by decide)⟩, nofun⟩
  simp only [List.forall_mem_cons]
  exact ⟨⟨name (by decide), valid.1⟩, ⟨name (by decide), valid.2.1⟩, nofun⟩

theorem anchored_frame {anchor : GeoPoint} (valid : validGeo anchor) :
    readFrameSpec (Json.obj (anchoredFields anchor)).dumps = .ok (.anchored anchor) := by
  have fits : numbersFit (.obj (anchoredFields anchor)) = true := by
    have float (x : Double) : numbersFit (.float x) = true := numbersFit_plain nofun nofun nofun
    have string (s : Str) : numbersFit (.str s) = true := numbersFit_plain nofun nofun nofun
    simp [numbersFit_obj, anchoredFields, float, string]
  have frame : (anchoredFields anchor).lookup (ascii "frame") = some (.str (ascii "local_ned")) := rfl
  have position : anchorOf ((anchoredFields anchor).lookup (ascii "anchor")) = some (some anchor) := rfl
  rw [readFrameSpec_fits (anchored_canonical valid 62) (by decide) fits, frame]
  simp only [frameSpecOf, position, if_true, if_pos valid]

/-- The bytes of an artifact with this anchor. -/
def anchoredFile (anchor : GeoPoint) (points : List ArtifactPoint) : Bytes :=
  serializeArtifact "app_v1".toList (Json.obj (anchoredFields anchor)).dumps points

def anchoredArtifact (anchor : GeoPoint) (points : List ArtifactPoint) : PathArtifact :=
  { sha256 := Sha256.sha256Hex (anchoredFile anchor points), version := 1, engineId := "app_v1".toList
    metaJson := (Json.obj (anchoredFields anchor)).dumps, points }

theorem anchored_parses {anchor : GeoPoint} (valid : validGeo anchor) {p : ArtifactPoint} (finite : p.northM.isFinite = true ∧ p.eastM.isFinite = true)
    (flags : p.flags.toNat ≤ 3) : parseArtifact (anchoredFile anchor [p]) [] = .ok (anchoredArtifact anchor [p]) := by
  refine parse_serialize ⟨by simp, ?_, ?_, by decide, by decide, _, anchored_canonical valid 62, rfl⟩ (by simp)
  · intro q member
    rw [List.mem_singleton.mp member]
    exact finite
  · intro q member
    rw [List.mem_singleton.mp member]
    exact flags

def equator : EkfReference := ⟨true, .ofInt 0, .ofInt 0⟩

theorem placement_keeps_origin : ∃ p, placeArtifact (anchoredArtifact equator.geo [origin]) equator (.ofInt 1000) = .ok p ∧
    Kept (anchoredFile equator.geo [origin]) (anchoredArtifact equator.geo [origin]) equator (.ofInt 1000) p := by
  have valid : validGeo equator.geo := by decide +kernel
  have read := anchored_parses valid (p := origin) ⟨rfl, rfl⟩ (by decide)
  have keeps := placement_keeps _ _ _ read equator (.ofInt 1000)
  have shallow : Shallow (Json.obj (anchoredFields equator.geo)).dumps := by
    have value := CanonicalJson.value_dumps (anchored_canonical valid 61) (show Follows [] from nofun)
    rw [List.append_nil] at value
    exact value
  obtain ⟨p, placed⟩ := (keeps.2 _ (anchored_frame valid) rfl valid (by decide +kernel) (by decide +kernel) (by decide +kernel)
    fun _ => shallow).mpr fun anchor same => by
      cases same
      decide +kernel
  exact ⟨p, placed, keeps.1 p placed⟩

/-- An anchor 1.1 m east of the EKF origin. -/
def eastAnchor : GeoPoint := ⟨.ofInt 0, .ofDecimal false 1 (-5)⟩

/-- A point 1 m west of its anchor. -/
def westPoint : ArtifactPoint := ⟨.ofInt 0, .ofInt (-1), 0⟩

/-- The point is placed 0.1 m from the origin, within 1 m; the anchor is not, and the placement is refused. -/
theorem placement_anchorFar :
    parseArtifact (anchoredFile eastAnchor [westPoint]) [] = .ok (anchoredArtifact eastAnchor [westPoint]) ∧
      readFrameSpec (anchoredArtifact eastAnchor [westPoint]).metaJson = .ok (.anchored eastAnchor) ∧
      equator.globalReferenceValid = true ∧ validGeo equator.geo ∧
      (∀ q ∈ moved (placeOf equator (.anchored eastAnchor)) [westPoint], ¬ tooFar (.ofInt 1) q.ne) ∧
      ∀ p, placeArtifact (anchoredArtifact eastAnchor [westPoint]) equator (.ofInt 1) ≠ .ok p := by
  have valid : validGeo eastAnchor := by decide +kernel
  have geo : validGeo equator.geo := by decide +kernel
  have far : tooFar (.ofInt 1) (placePoint equator.geo eastAnchor ⟨.ofInt 0, .ofInt 0⟩) := by decide +kernel
  have frame := anchored_frame valid
  refine ⟨anchored_parses valid (p := westPoint) ⟨by decide +kernel, by decide +kernel⟩ (by decide), frame, rfl, geo,
    by decide +kernel, fun p placed => ?_⟩
  have allowed : ¬ (¬ (Double.ofInt 0 < .ofInt 1) ∨ (Double.ofInt 1).isFinite = false) := by decide +kernel
  have referenced : ¬ (equator.globalReferenceValid = false ∨ ¬ validGeo equator.geo) :=
    not_or.mpr ⟨by decide, not_not.mpr geo⟩
  simp only [placeArtifact, anchoredArtifact, frame, if_neg allowed, if_neg referenced, if_pos far] at placed
  cases placed

end Dyx3.Artifact
