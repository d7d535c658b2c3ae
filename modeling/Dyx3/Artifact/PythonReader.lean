import Dyx3.Artifact.RoundTrip

/-!
`decode` (backend, mission/path_artifact), the reader of the Python side, and its comparison with the C++ reader:
whatever `parseArtifact` accepts `decode` accepts too, with the same content.

A refusal is its message; which exception class carries it is not modelled.
-/

namespace Dyx3.Artifact

open Lib Sha256

structure PyArtifact where
  sha256 : Bytes
  version : ℤ
  engineId : Bytes
  metaFields : List (Str × Json)
  points : List (Double × Double × ℤ)

/-- `repr` of an ASCII string. -/
def pyStrRepr (s : Bytes) : Bytes :=
  let quote := if '\'' ∈ s ∧ '"' ∉ s then '"' else '\''
  let char (c : Char) : Bytes :=
    if c = quote ∨ c = '\\' then ['\\', c]
    else if c = '\t' then "\\t".toList
    else if c = '\n' then "\\n".toList
    else if c = '\r' then "\\r".toList
    else if c.toNat < 0x20 ∨ c.toNat = 0x7f then
      "\\x".toList ++ [Nat.digitChar (c.toNat / 16), Nat.digitChar (c.toNat % 16)]
    else [c]
  quote :: s.flatMap char ++ [quote]

/-- `allow_nan=False` refuses NaN and the infinities, and CPython refuses to print a huge integer. -/
def printable : Json → Bool
  | .float x => x.isFinite
  | .int i => decide ((Nat.toDigits 10 i.natAbs).length ≤ intMaxStrDigits)
  | _ => true

/-- `_canonical_json`. -/
def canonicalJson (v : Json) : Option Bytes := if v.leaves.all printable then some v.dumps else none

/-- `str.isdigit` of an ASCII string. -/
def isdigit (s : Bytes) : Bool := s ≠ [] && s.all Char.isDigit

def given {α : Type} (v : Option α) (msg : Bytes) : ArtifactResult α :=
  match v with
  | some a => .ok a
  | none => .error msg

def decodePoint (i : ℕ) (raw : Bytes) : ArtifactResult (Double × Double × ℤ) := do
  let point := "point ".toList ++ toText i
  let parts := split raw ' '
  refuse (parts.length ≠ 3) (point ++ ": expected 3 fields".toList)
  let north ← given (pyFloat (parts.getD 0 [])) (point ++ ": unparseable number".toList)
  let east ← given (pyFloat (parts.getD 1 [])) (point ++ ": unparseable number".toList)
  let flags ← given (pyInt (parts.getD 2 [])) (point ++ ": unparseable number".toList)
  refuse (¬ (north.isFinite ∧ east.isFinite)) (point ++ ": non-finite coordinate".toList)
  refuse (¬ (0 ≤ flags ∧ flags ≤ 3)) (point ++ ": flags ".toList ++ intText flags ++ " out of range".toList)
  refuse ((pyRepr north, pyRepr east) ≠ (parts.getD 0 [], parts.getD 1 []))
    (point ++ ": coordinates not in canonical repr form".toList)
  return (north, east, flags)

def decodePoints : ℕ → List Bytes → ArtifactResult (List (Double × Double × ℤ))
  | _, [] => .ok []
  | i, raw :: lines => do
    let p ← decodePoint i raw
    let pts ← decodePoints (i + 1) lines
    return p :: pts

def decode (data : Bytes) (expected : Option Bytes) : ArtifactResult PyArtifact := do
  let digest := sha256Hex data
  refuse (∃ e ∈ expected, digest ≠ e.map Char.toLower)
    ("sha256 mismatch: expected ".toList ++ expected.getD [] ++ ", bytes hash to ".toList ++ digest)
  refuse (data.any fun c => 0x7f < c.toNat) "artifact is not ASCII".toList
  refuse (data.getLast? ≠ some '\n' ∨ '\r' ∈ data) "artifact must use LF line endings and end with a newline".toList
  let lines := split data.dropLast '\n'
  let line (i : ℕ) := lines.getD i []
  refuse (lines.length < 7) "artifact too short".toList
  let head := split (line 0) ' '
  refuse (head.length ≠ 2 ∨ head.getD 0 [] ≠ "DYX3PATH".toList) "bad magic".toList
  refuse (head.getD 1 [] ≠ ['1'])
    ("unsupported format version ".toList ++ pyStrRepr (head.getD 1 []) ++ " (this reader: 1)".toList)
  refuse (line 1 ≠ "frame local_ned".toList) ("unsupported frame line ".toList ++ pyStrRepr (line 1))
  refuse (¬ "engine ".toList <+: line 2 ∨ (split (line 2) ' ').length ≠ 2) "bad engine line".toList
  let engineId := (split (line 2) ' ').getD 1 []
  refuse (¬ "meta ".toList <+: line 3) "bad meta line".toList
  let value ← given (Json.loads (some intMaxStrDigits) ((line 3).drop 5)) "meta is not valid JSON".toList
  let fields ← match value with
    | .obj fields => .ok fields
    | _ => .error "meta must be a JSON object".toList
  let text ← given (canonicalJson (.obj fields)) "Out of range float values are not JSON compliant".toList
  refuse ((line 3).drop 5 ≠ text) "meta is not in canonical form".toList
  let pl := split (line 4) ' '
  refuse (pl.length ≠ 2 ∨ pl.getD 0 [] ≠ "points".toList ∨ isdigit (pl.getD 1 []) = false) "bad points line".toList
  let n ← given (pyInt (pl.getD 1 [])) "Exceeds the limit (4300 digits) for integer string conversion".toList
  refuse (n < 1 ∨ (lines.length : ℤ) ≠ 5 + n + 1)
    ("declared ".toList ++ intText n ++ " points but file has ".toList ++ intText (lines.length - 6) ++
      " point lines".toList)
  refuse (lines.getLast? ≠ some ("end ".toList ++ intText n)) "missing or wrong end marker (truncated?)".toList
  let pts ← decodePoints 0 ((lines.drop 5).take n.toNat)
  return { sha256 := digest, version := 1, engineId, metaFields := fields, points := pts }

/-! ### Points -/

/-- A point as Python holds it. -/
def pyPoint (p : ArtifactPoint) : Double × Double × ℤ := (p.northM, p.eastM, p.flags.toNat)

theorem pyInt_uint {tok : Bytes} {n : ℕ} (read : parseUint tok = some n) : pyInt tok = some (n : ℤ) := by
  obtain ⟨some, short, all, value⟩ := parseUint_ok read
  rw [pyInt_digits all some (le_trans short (by decide)), value]

theorem decodePoint_row {r : Row} (ok : RowOk r) (i : ℕ) : decodePoint i (rowText r) = .ok (pyPoint r.1) := by
  have north := pyFloat_repr ok.north
  have east := pyFloat_repr ok.east
  have flags := pyInt_uint ok.flags
  have small := ok.small
  have range : 0 ≤ (r.1.flags.toNat : ℤ) ∧ (r.1.flags.toNat : ℤ) ≤ 3 := by omega
  simp only [decodePoint, split_row ok, pythonRepr_eq ok.north, pythonRepr_eq ok.east, List.getD_cons_zero,
    List.getD_cons_succ, north, east, flags, given]
  refine refuse_then.mpr ⟨by simp, ?_⟩
  refine refuse_then.mpr ⟨by simp [ok.north, ok.east], ?_⟩
  refine refuse_then.mpr ⟨by simp [range], ?_⟩
  exact refuse_then.mpr ⟨by simp, rfl⟩

theorem decodePoints_rows {rows : List Row} (ok : ∀ r ∈ rows, RowOk r) (i : ℕ) :
    decodePoints i (rows.map rowText) = .ok ((rows.map Prod.fst).map pyPoint) := by
  induction rows generalizing i with
  | nil => rfl
  | cons r rows ih =>
    rw [List.map_cons, decodePoints, decodePoint_row (ok r List.mem_cons_self),
      ih fun r member => ok r (List.mem_cons_of_mem _ member)]
    rfl

/-! ### The meta -/

theorem canonicalJson_canonical {levels : ℕ} {v : Json} (canonical : Json.Canonical levels v)
    (short : Json.ShortInts (some intMaxStrDigits) v) : canonicalJson v = some v.dumps := by
  have fine : v.leaves.all printable = true := by
    rw [List.all_eq_true]
    intro leaf member
    cases leaf with
    | float x => exact canonical.finite x member
    | int i => exact decide_eq_true (short i member _ rfl)
    | _ => rfl
  rw [canonicalJson, if_pos fine]

theorem sha256Hex_lower (text : Bytes) : (sha256Hex text).map Char.toLower = sha256Hex text := by
  have digit : ∀ d < 16, (Nat.digitChar d).toLower = Nat.digitChar d := by decide
  conv_rhs => rw [← List.map_id (sha256Hex text)]
  refine List.map_congr_left fun c member => ?_
  obtain ⟨d, small, rfl⟩ := sha256Hex_digits text c member
  exact digit d small

/-- The integers of the meta have at most as many digits as CPython converts. -/
def ShortMeta (metaJson : Bytes) : Prop := ∀ v, Json.loads none metaJson = some v → Json.ShortInts (some intMaxStrDigits) v

theorem intText_natCast (n : ℕ) : intText (n : ℤ) = toText n := by
  have positive : decide ((n : ℤ) < 0) = false := decide_eq_false (by omega)
  rw [intText, positive]
  rfl

theorem decode_file {e m count : Bytes} {rows : List Row} (ok : FileOk e m count rows)
    (counted : parseUint count = some rows.length) (short : ShortMeta m) {expected : Option Bytes}
    (hash : ∀ h ∈ expected, sha256Hex (fileText e m count rows) = h.map Char.toLower) :
    ∃ fields, canonicalJson (.obj fields) = some m ∧ decode (fileText e m count rows) expected = .ok
      { sha256 := sha256Hex (fileText e m count rows), version := 1, engineId := e, metaFields := fields
        points := (rows.map Prod.fst).map pyPoint } := by
  obtain ⟨fields, canonical, rfl⟩ := ok.canonical
  have within : CanonicalJson.kMaxDepth + 1 ≤ Json.recursionLimit := by decide
  have standard : Json.loads none (Json.obj fields).dumps = some (.obj fields) := Json.loads_dumps canonical within nofun
  have digits := short _ standard
  have read := Json.loads_dumps canonical within digits
  have written := canonicalJson_canonical canonical digits
  refine ⟨fields, written, ?_⟩
  generalize (Json.obj fields).dumps = m at *
  have head : split "DYX3PATH 1".toList ' ' = ["DYX3PATH".toList, ['1']] := split_two.mpr ⟨rfl, by decide, by decide⟩
  have positive : 0 < rows.length := List.length_pos_of_ne_nil ok.some
  obtain ⟨some, _, all, _⟩ := parseUint_ok counted
  have isCount : isdigit count = true := by
    rw [isdigit, List.all_eq_true.mpr all, Bool.and_true]
    exact decide_eq_true some
  have n := pyInt_uint counted
  have length : (fileLines e m count rows).length = 5 + rows.length + 1 := fileLines_length
  have rest : ("meta ".toList ++ m).drop 5 = m := rfl
  have ascii : (fileText e m count rows).any (fun c => decide (0x7f < c.toNat)) = false := by
    rw [List.any_eq_false]
    intro c member
    have printable := mt (List.any_eq_true.mpr ⟨c, member, ·⟩) (Bool.eq_false_iff.mp (file_chars ok))
    simp only [Bool.or_eq_true, decide_eq_true_eq, not_or, not_lt] at printable
    simp only [decide_eq_true_eq]
    omega
  have noReturn : '\r' ∉ fileText e m count rows := by
    intro member
    exact mt (List.any_eq_true.mpr ⟨'\r', member, ·⟩) (Bool.eq_false_iff.mp (file_chars ok)) rfl
  unfold decode
  dsimp only
  rw [split_file ok]
  simp only [fileLines_head, split_engine ok, split_points ok, head, List.getD_cons_zero, List.getD_cons_succ, rest, read, n,
    given]
  refine refuse_then.mpr ⟨?_, ?_⟩
  · rintro ⟨h, here, differ⟩
    exact differ (hash h here)
  refine refuse_then.mpr ⟨Bool.eq_false_iff.mp ascii, ?_⟩
  refine refuse_then.mpr ⟨by simp [file_getLast, noReturn], ?_⟩
  refine refuse_then.mpr ⟨by omega, ?_⟩
  refine refuse_then.mpr ⟨by simp, ?_⟩
  refine refuse_then.mpr ⟨by simp, ?_⟩
  refine refuse_then.mpr ⟨by simp, ?_⟩
  refine refuse_then.mpr ⟨by simp, ?_⟩
  refine refuse_then.mpr ⟨by simp, ?_⟩
  refine then_ok.mpr ⟨.obj fields, rfl, ?_⟩
  refine then_ok.mpr ⟨fields, rfl, ?_⟩
  refine then_ok.mpr ⟨m, by rw [written], ?_⟩
  refine refuse_then.mpr ⟨by simp, ?_⟩
  refine refuse_then.mpr ⟨by simp [isCount], ?_⟩
  refine then_ok.mpr ⟨rows.length, rfl, ?_⟩
  refine refuse_then.mpr ⟨by omega, ?_⟩
  refine refuse_then.mpr ⟨by simp [fileLines_last, intText_natCast], ?_⟩
  refine then_ok.mpr ⟨(rows.map Prod.fst).map pyPoint, ?_, rfl⟩
  rw [Int.toNat_natCast, fileLines_body]
  exact decodePoints_rows ok.rows 0

/-- What the C++ reader accepts, the Python reader accepts with the same content. -/
theorem python_accepts (bytes expected : Bytes) (a : PathArtifact) (read : parseArtifact bytes expected = .ok a)
    (short : ShortMeta a.metaJson) :
    ∃ fields, canonicalJson (.obj fields) = some a.metaJson ∧
      decode bytes (if expected = [] then none else some expected) = .ok
        { sha256 := a.sha256, version := a.version, engineId := a.engineId, metaFields := fields
          points := a.points.map pyPoint } := by
  obtain ⟨hash, count, rows, ok, counted, text, digest, version, points⟩ := parseArtifact_sound read
  have checked : ∀ h ∈ (if expected = [] then none else some expected : Option Bytes),
      sha256Hex (fileText a.engineId a.metaJson count rows) = h.map Char.toLower := by
    intro h here
    split at here
    · cases here
    · rename_i some
      obtain rfl := Option.some.inj here
      have same := hash.resolve_left some
      rw [← text, ← same, sha256Hex_lower]
  obtain ⟨fields, canonical, decoded⟩ := decode_file ok counted short checked
  refine ⟨fields, canonical, ?_⟩
  rw [digest, version, points, text]
  exact decoded

theorem emptyMeta_short : ShortMeta "{}".toList := by
  intro v read
  have text : (Json.obj []).dumps = "{}".toList := by
    rw [Json.dumps_obj .nil]
    rfl
  have canonical : Json.Canonical 1 (.obj []) := ⟨.nil, nofun⟩
  have standard : Json.loads none (Json.obj []).dumps = some (.obj []) := Json.loads_dumps canonical (by decide) nofun
  rw [text, read] at standard
  obtain rfl := Option.some.inj standard
  intro i member
  rw [Json.leaves_obj] at member
  cases member

theorem python_accepts_origin :
    ∃ fields, canonicalJson (.obj fields) = some "{}".toList ∧
      decode (serializeArtifact "app_v1".toList "{}".toList [origin]) none = .ok
        { sha256 := sha256Hex (serializeArtifact "app_v1".toList "{}".toList [origin]), version := 1
          engineId := "app_v1".toList, metaFields := fields, points := [origin].map pyPoint } := by
  have fine : Serializable "app_v1".toList "{}".toList [origin] := origins_serializable (n := 1) (by decide)
  have accepted := python_accepts _ [] _ (parse_serialize fine (by decide)) emptyMeta_short
  rw [if_pos rfl] at accepted
  exact accepted

end Dyx3.Artifact
