import Dyx3.Artifact.CanonicalJson
import Dyx3.Artifact.Sha256

/-!
`serialize_artifact` and `parse_artifact` (dyx3_mission, path_artifact), and the text of a DYX3PATH 1 file as both
see it: `parse_artifact` accepts the texts of files, `serialize_artifact` writes the ones with canonical counts.
-/

namespace Dyx3.Artifact

open Lib Sha256

structure ArtifactPoint where
  northM : Double
  eastM : Double
  flags : UInt8

structure PathArtifact where
  sha256 : Bytes
  version : ℤ
  engineId : Bytes
  metaJson : Bytes
  points : List ArtifactPoint

abbrev ArtifactResult := Except Bytes

def refuse (c : Prop) [Decidable c] (msg : Bytes) : ArtifactResult Unit := if c then .error msg else .ok ()

def split (s : Bytes) (sep : Char) : List Bytes := s.splitOn sep

/-- `std::to_string` of an unsigned number. -/
def toText (n : ℕ) : Bytes := Nat.toDigits 10 n

/-! ### Writing -/

def pointText (p : ArtifactPoint) : Bytes :=
  pythonRepr p.northM ++ ' ' :: pythonRepr p.eastM ++ ' ' :: toText p.flags.toNat ++ ['\n']

def serializeArtifact (engineId metaJson : Bytes) (points : List ArtifactPoint) : Bytes :=
  if points.isEmpty || engineId.isEmpty then []
  else if engineId.any fun c => c.toNat ≤ 0x20 || 0x7e < c.toNat then []
  else if metaJson.any fun c => c.toNat < 0x20 || 0x7e < c.toNat then []
  else if !CanonicalJson.object metaJson then []
  else if points.any fun p => !p.northM.isFinite || !p.eastM.isFinite || 3 < p.flags.toNat then []
  else
    "DYX3PATH 1\nframe local_ned\nengine ".toList ++ engineId ++ "\nmeta ".toList ++ metaJson ++ "\npoints ".toList ++
      toText points.length ++ "\n".toList ++ points.flatMap pointText ++ "end ".toList ++ toText points.length ++ "\n".toList

/-! ### Reading -/

def parsePoint (i : ℕ) (line : Bytes) : ArtifactResult ArtifactPoint := do
  let f := split line ' '
  refuse (f.length ≠ 3) ("point ".toList ++ toText i ++ ": expected 3 fields".toList)
  match parseCanonicalDouble (f.getD 0 []), parseCanonicalDouble (f.getD 1 []), parseUint (f.getD 2 []) with
  | some northM, some eastM, some flags =>
    refuse (3 < flags) ("point ".toList ++ toText i ++ ": flags out of range".toList)
    return { northM, eastM, flags := UInt8.ofNat flags }
  | _, _, _ => .error ("point ".toList ++ toText i ++ ": unparseable or non-canonical number".toList)

def parsePoints : ℕ → List Bytes → ArtifactResult (List ArtifactPoint)
  | _, [] => .ok []
  | i, line :: lines => do
    let p ← parsePoint i line
    let points ← parsePoints (i + 1) lines
    return p :: points

/-- An empty `expected` is not checked. -/
def parseArtifact (bytes expected : Bytes) : ArtifactResult PathArtifact := do
  let digest := sha256Hex bytes
  refuse (expected ≠ [] ∧ digest ≠ expected)
    ("sha256 mismatch: expected ".toList ++ expected ++ ", bytes hash to ".toList ++ digest)
  refuse (bytes.any fun c => 0x7e < c.toNat || c = '\r' || (c.toNat < 0x20 && c ≠ '\n'))
    "artifact contains a non-ASCII, control or CR byte".toList
  refuse (bytes.getLast? ≠ some '\n') "artifact must end with a newline".toList
  let lines := split bytes.dropLast '\n'
  let line (i : ℕ) := lines.getD i []
  refuse (lines.length < 7) "artifact too short".toList
  refuse (line 0 ≠ "DYX3PATH 1".toList)
    (if "DYX3PATH ".toList <+: line 0 then "unsupported format version".toList else "bad magic".toList)
  refuse (line 1 ≠ "frame local_ned".toList) "unsupported frame line".toList
  let eng := split (line 2) ' '
  refuse (eng.length ≠ 2 ∨ eng.getD 0 [] ≠ "engine".toList ∨ eng.getD 1 [] = []) "bad engine line".toList
  refuse (¬ "meta ".toList <+: line 3) "bad meta line".toList
  refuse (CanonicalJson.object ((line 3).drop 5) = false) "meta is not a canonical JSON object".toList
  let pl := split (line 4) ' '
  let n := (parseUint (pl.getD 1 [])).getD 0
  refuse (pl.length ≠ 2 ∨ pl.getD 0 [] ≠ "points".toList ∨ n < 1) "bad points line".toList
  refuse (lines.length ≠ 5 + n + 1) "declared point count does not match the file".toList
  refuse (lines.getLast? ≠ some ("end ".toList ++ toText n)) "missing or wrong end marker".toList
  let points ← parsePoints 0 ((lines.drop 5).take n)
  return { sha256 := digest, version := 1, engineId := eng.getD 1 [], metaJson := (line 3).drop 5, points }

/-! ### The text of a file -/

/-- A point and how its flags are spelled. -/
abbrev Row := ArtifactPoint × Bytes

def rowText (r : Row) : Bytes := pythonRepr r.1.northM ++ ' ' :: (pythonRepr r.1.eastM ++ ' ' :: r.2)

structure RowOk (r : Row) : Prop where
  north : r.1.northM.isFinite = true
  east : r.1.eastM.isFinite = true
  flags : parseUint r.2 = some r.1.flags.toNat
  small : r.1.flags.toNat ≤ 3

/-- What a file is made of. -/
structure FileOk (engineId metaJson count : Bytes) (rows : List Row) : Prop where
  engine : engineId ≠ []
  word : IsWord engineId
  canonical : CanonicalJson.IsCanonicalObject metaJson
  count : IsWord count
  some : rows ≠ []
  rows : ∀ r ∈ rows, RowOk r

def fileLines (engineId metaJson count : Bytes) (rows : List Row) : List Bytes :=
  ["DYX3PATH 1".toList, "frame local_ned".toList, "engine ".toList ++ engineId, "meta ".toList ++ metaJson,
    "points ".toList ++ count] ++ rows.map rowText ++ ["end ".toList ++ toText rows.length]

def fileText (engineId metaJson count : Bytes) (rows : List Row) : Bytes :=
  (fileLines engineId metaJson count rows).flatMap (· ++ ['\n'])

/-- The point with its flags spelled canonically. -/
def canonicalRow (p : ArtifactPoint) : Row := (p, toText p.flags.toNat)

/-! ### Lines and fields -/

theorem then_ok {α β : Type} {x : ArtifactResult α} {f : α → ArtifactResult β} {b : β} :
    (x >>= f) = .ok b ↔ ∃ a, x = .ok a ∧ f a = .ok b := by
  cases x with
  | error msg => exact ⟨nofun, nofun⟩
  | ok a =>
    refine ⟨fun next => ⟨a, rfl, next⟩, ?_⟩
    rintro ⟨_, ⟨⟩, next⟩
    exact next

theorem refuse_then {β : Type} {c : Prop} [Decidable c] {msg : Bytes} {f : Unit → ArtifactResult β} {b : β} :
    (refuse c msg >>= f) = .ok b ↔ ¬ c ∧ f () = .ok b := by
  rw [refuse]
  split
  · rename_i holds
    exact ⟨nofun, fun both => absurd holds both.1⟩
  · rename_i other
    exact ⟨fun next => ⟨other, next⟩, fun both => both.2⟩

theorem not_mem_split {s part : Bytes} {sep : Char} (member : part ∈ split s sep) : sep ∉ part := by
  induction s generalizing part with
  | nil =>
    rw [split, List.splitOn_nil, List.mem_singleton] at member
    simp [member]
  | cons c s ih =>
    rw [split, List.splitOn_cons_eq_if_modifyHead] at member
    split at member
    · rcases List.mem_cons.mp member with rfl | member
      · simp
      · exact ih member
    · rename_i other
      cases parts : s.splitOn sep with
      | nil => exact absurd parts (List.splitOn_ne_nil sep s)
      | cons first rest =>
        rw [parts, List.modifyHead_cons] at member
        have inside : ∀ p ∈ first :: rest, sep ∉ p := fun p here => ih (by rwa [split, parts])
        rcases List.mem_cons.mp member with rfl | member
        · rw [List.mem_cons, not_or]
          refine ⟨?_, inside first List.mem_cons_self⟩
          rintro rfl
          simp at other
        · exact inside part (List.mem_cons_of_mem _ member)

theorem split_join (s : Bytes) (sep : Char) : [sep].intercalate (split s sep) = s := List.intercalate_splitOn sep

theorem split_intercalate {sep : Char} {parts : List Bytes} (apart : ∀ part ∈ parts, sep ∉ part) (some : parts ≠ []) :
    split ([sep].intercalate parts) sep = parts := List.splitOn_intercalate sep apart some

theorem flatMap_newline {lines : List Bytes} (some : lines ≠ []) :
    lines.flatMap (· ++ ['\n']) = ['\n'].intercalate lines ++ ['\n'] := by
  induction lines with
  | nil => exact absurd rfl some
  | cons line lines ih =>
    cases lines with
    | nil => simp
    | cons next lines =>
      rw [List.flatMap_cons, ih (by simp), List.intercalate_cons_cons]
      simp

/-- The lines of a text are found again. -/
theorem split_lines {lines : List Bytes} (apart : ∀ line ∈ lines, '\n' ∉ line) (some : lines ≠ []) :
    split (lines.flatMap (· ++ ['\n'])).dropLast '\n' = lines := by
  rw [flatMap_newline some, List.dropLast_concat, split_intercalate apart some]

/-- A text with a final newline is its lines. -/
theorem lines_split {bytes : Bytes} (last : bytes.getLast? = some '\n') :
    (split bytes.dropLast '\n').flatMap (· ++ ['\n']) = bytes := by
  have some : split bytes.dropLast '\n' ≠ [] := List.splitOn_ne_nil _ _
  rw [flatMap_newline some, split_join]
  exact List.dropLast_append_getLast? '\n' last

theorem split_two {s : Bytes} {sep : Char} {a b : Bytes} :
    split s sep = [a, b] ↔ s = a ++ sep :: b ∧ sep ∉ a ∧ sep ∉ b := by
  constructor
  · intro parts
    have joined := split_join s sep
    rw [parts] at joined
    refine ⟨by rw [← joined]; simp, ?_, ?_⟩
    · exact not_mem_split (s := s) (by rw [parts]; simp)
    · exact not_mem_split (s := s) (by rw [parts]; simp)
  · rintro ⟨rfl, left, right⟩
    rw [split, List.splitOn_append_cons_self_of_not_mem left, List.splitOn_eq_singleton right]

theorem split_three {s : Bytes} {sep : Char} {a b c : Bytes} :
    split s sep = [a, b, c] ↔ s = a ++ sep :: (b ++ sep :: c) ∧ sep ∉ a ∧ sep ∉ b ∧ sep ∉ c := by
  constructor
  · intro parts
    have joined := split_join s sep
    rw [parts] at joined
    refine ⟨by rw [← joined]; simp, ?_, ?_, ?_⟩
    · exact not_mem_split (s := s) (by rw [parts]; simp)
    · exact not_mem_split (s := s) (by rw [parts]; simp)
    · exact not_mem_split (s := s) (by rw [parts]; simp)
  · rintro ⟨rfl, left, middle, right⟩
    rw [split, List.splitOn_append_cons_self_of_not_mem left, List.splitOn_append_cons_self_of_not_mem middle,
      List.splitOn_eq_singleton right]

/-! ### Points -/

theorem parseUint_word {tok : Bytes} {n : ℕ} (read : parseUint tok = some n) : IsWord tok :=
  digits_word (parseUint_ok read).2.2.1

theorem toText_word (n : ℕ) : IsWord (toText n) := digits_word (allDigits_toDigits n)

theorem split_row {r : Row} (ok : RowOk r) : split (rowText r) ' ' = [pythonRepr r.1.northM, pythonRepr r.1.eastM, r.2] :=
  split_three.mpr ⟨rfl, (pythonRepr_word ok.north).noSpace, (pythonRepr_word ok.east).noSpace, (parseUint_word ok.flags).noSpace⟩

theorem parsePoint_row {r : Row} (ok : RowOk r) (i : ℕ) : parsePoint i (rowText r) = .ok r.1 := by
  have flags : UInt8.ofNat r.1.flags.toNat = r.1.flags := UInt8.ofNat_toNat
  simp only [parsePoint, split_row ok, List.length_cons, List.length_nil, List.getD_cons_zero, List.getD_cons_succ,
    parseCanonicalDouble_repr ok.north, parseCanonicalDouble_repr ok.east, ok.flags, refuse, not_lt.mpr ok.small, flags]
  rfl

theorem length_three {α : Type} {l : List α} (length : l.length = 3) : ∃ a b c, l = [a, b, c] := by
  rcases l with _ | ⟨a, _ | ⟨b, _ | ⟨c, _ | ⟨d, l⟩⟩⟩⟩
  · cases length
  · cases length
  · cases length
  · exact ⟨a, b, c, rfl⟩
  · simp at length

theorem length_two {α : Type} {l : List α} (length : l.length = 2) : ∃ a b, l = [a, b] := by
  rcases l with _ | ⟨a, _ | ⟨b, _ | ⟨c, l⟩⟩⟩
  · cases length
  · cases length
  · exact ⟨a, b, rfl⟩
  · simp at length

theorem length_five {α : Type} {l : List α} (length : 5 < l.length) :
    ∃ a b c d e body last, l = a :: b :: c :: d :: e :: (body ++ [last]) := by
  rcases l with _ | ⟨a, _ | ⟨b, _ | ⟨c, _ | ⟨d, _ | ⟨e, l⟩⟩⟩⟩⟩
  iterate 5 · simp at length
  have some : l ≠ [] := by
    rintro rfl
    simp at length
  exact ⟨a, b, c, d, e, l.dropLast, l.getLast some, by rw [List.dropLast_concat_getLast]⟩

theorem parsePoint_sound {i : ℕ} {line : Bytes} {p : ArtifactPoint} (read : parsePoint i line = .ok p) :
    ∃ tok, RowOk (p, tok) ∧ line = rowText (p, tok) := by
  simp only [parsePoint, refuse_then, not_not] at read
  obtain ⟨length, read⟩ := read
  obtain ⟨a, b, tok, parts⟩ := length_three length
  rw [parts] at read
  simp only [List.getD_cons_zero, List.getD_cons_succ] at read
  split at read
  · rename_i northM eastM flags north east value
    simp only [refuse_then, not_lt] at read
    obtain ⟨small, read⟩ := read
    cases read
    obtain ⟨northFinite, rfl⟩ := parseCanonicalDouble_iff.mp north
    obtain ⟨eastFinite, rfl⟩ := parseCanonicalDouble_iff.mp east
    have same : (UInt8.ofNat flags).toNat = flags := by
      rw [UInt8.toNat_ofNat']
      omega
    refine ⟨tok, ⟨northFinite, eastFinite, ?_, ?_⟩, (split_three.mp parts).1⟩
    · rw [same]
      exact value
    · rw [same]
      exact small
  · cases read

theorem parsePoints_rows {rows : List Row} (ok : ∀ r ∈ rows, RowOk r) (i : ℕ) :
    parsePoints i (rows.map rowText) = .ok (rows.map Prod.fst) := by
  induction rows generalizing i with
  | nil => rfl
  | cons r rows ih =>
    rw [List.map_cons, parsePoints, parsePoint_row (ok r List.mem_cons_self),
      ih fun r member => ok r (List.mem_cons_of_mem _ member)]
    rfl

theorem parsePoints_sound {i : ℕ} {lines : List Bytes} {points : List ArtifactPoint} (read : parsePoints i lines = .ok points) :
    ∃ rows : List Row, (∀ r ∈ rows, RowOk r) ∧ lines = rows.map rowText ∧ points = rows.map Prod.fst := by
  induction lines generalizing i points with
  | nil =>
    cases read
    exact ⟨[], nofun, rfl, rfl⟩
  | cons line lines ih =>
    simp only [parsePoints, then_ok] at read
    obtain ⟨p, first, ps, others, same⟩ := read
    cases same
    obtain ⟨tok, ok, rfl⟩ := parsePoint_sound first
    obtain ⟨rows, all, rfl, rfl⟩ := ih others
    refine ⟨(p, tok) :: rows, ?_, rfl, rfl⟩
    intro r member
    rcases List.mem_cons.mp member with rfl | member
    · exact ok
    · exact all r member

/-! ### Files -/

section

variable {e m count : Bytes} {rows : List Row}

theorem fileLines_printable (ok : FileOk e m count rows) : ∀ line ∈ fileLines e m count rows, Printable line := by
  have metaText : Printable m := by
    obtain ⟨fields, canonical, rfl⟩ := ok.canonical
    exact CanonicalJson.dumps_printable canonical
  have fixed : ∀ head ∈ ["DYX3PATH 1", "frame local_ned", "engine ", "meta ", "points ", "end "], Printable head.toList := by
    decide
  intro line member
  simp only [fileLines, List.mem_append, List.mem_cons, List.not_mem_nil, or_false, List.mem_map] at member
  rcases member with ((rfl | rfl | rfl | rfl | rfl) | ⟨r, inside, rfl⟩) | rfl
  · exact fixed _ (by decide)
  · exact fixed _ (by decide)
  · exact (fixed "engine " (by decide)).append ok.word.printable
  · exact (fixed "meta " (by decide)).append metaText
  · exact (fixed "points " (by decide)).append ok.count.printable
  · have row := ok.rows r inside
    exact (pythonRepr_word row.north).printable.append (CanonicalJson.char_printable (by decide)
      ((pythonRepr_word row.east).printable.append (CanonicalJson.char_printable (by decide) (parseUint_word row.flags).printable)))
  · exact (fixed "end " (by decide)).append (toText_word _).printable

theorem split_file (ok : FileOk e m count rows) : split (fileText e m count rows).dropLast '\n' = fileLines e m count rows :=
  split_lines (fun line member => (fileLines_printable ok line member).noNewline) (by simp [fileLines])

theorem fileLines_length : (fileLines e m count rows).length = 5 + rows.length + 1 := by
  simp [fileLines]
  omega

theorem fileLines_head : (fileLines e m count rows).getD 0 [] = "DYX3PATH 1".toList ∧
    (fileLines e m count rows).getD 1 [] = "frame local_ned".toList ∧
    (fileLines e m count rows).getD 2 [] = "engine ".toList ++ e ∧
    (fileLines e m count rows).getD 3 [] = "meta ".toList ++ m ∧
    (fileLines e m count rows).getD 4 [] = "points ".toList ++ count := ⟨rfl, rfl, rfl, rfl, rfl⟩

theorem fileLines_body : ((fileLines e m count rows).drop 5).take rows.length = rows.map rowText := by simp [fileLines]

theorem fileLines_last : (fileLines e m count rows).getLast? = some ("end ".toList ++ toText rows.length) :=
  List.getLast?_concat

theorem split_engine (ok : FileOk e m count rows) : split ("engine ".toList ++ e) ' ' = ["engine".toList, e] :=
  split_two.mpr ⟨rfl, by decide, ok.word.noSpace⟩

theorem split_points (ok : FileOk e m count rows) : split ("points ".toList ++ count) ' ' = ["points".toList, count] :=
  split_two.mpr ⟨rfl, by decide, ok.count.noSpace⟩

theorem file_getLast : (fileText e m count rows).getLast? = some '\n' := by
  rw [fileText, flatMap_newline (by simp [fileLines])]
  exact List.getLast?_concat

theorem file_chars (ok : FileOk e m count rows) :
    (fileText e m count rows).any (fun c => 0x7e < c.toNat || c = '\r' || (c.toNat < 0x20 && c ≠ '\n')) = false := by
  rw [List.any_eq_false]
  intro c member
  obtain ⟨line, inside, member⟩ := List.mem_flatMap.mp member
  rcases List.mem_append.mp member with member | newline
  · obtain ⟨low, high⟩ := fileLines_printable ok line inside c member
    have return' : c ≠ '\r' := by
      rintro rfl
      exact absurd low (by decide)
    simp [return', not_lt.mpr high, not_lt.mpr low]
  · rw [List.mem_singleton.mp newline]
    decide

/-- Reading the text of a file. -/
theorem parseArtifact_file (ok : FileOk e m count rows) (counted : parseUint count = some rows.length) {expected : Bytes}
    (hash : expected = [] ∨ sha256Hex (fileText e m count rows) = expected) :
    parseArtifact (fileText e m count rows) expected = .ok
      { sha256 := sha256Hex (fileText e m count rows), version := 1, engineId := e, metaJson := m
        points := rows.map Prod.fst } := by
  have canonical := CanonicalJson.object_iff.mpr ok.canonical
  have positive : 0 < rows.length := List.length_pos_of_ne_nil ok.some
  have length : (fileLines e m count rows).length = 5 + rows.length + 1 := fileLines_length
  have rest : ("meta ".toList ++ m).drop 5 = m := rfl
  unfold parseArtifact
  dsimp only
  rw [split_file ok]
  simp only [fileLines_head, split_engine ok, split_points ok, List.getD_cons_zero, List.getD_cons_succ, counted,
    Option.getD_some, rest]
  refine refuse_then.mpr ⟨?_, refuse_then.mpr ⟨Bool.eq_false_iff.mp (file_chars ok), refuse_then.mpr ⟨by simp [file_getLast],
    refuse_then.mpr ⟨by omega, refuse_then.mpr ⟨by simp, refuse_then.mpr ⟨by simp, refuse_then.mpr ⟨by simp [ok.engine],
    refuse_then.mpr ⟨by simp, refuse_then.mpr ⟨by simp [canonical], refuse_then.mpr ⟨by simp [ok.some],
    refuse_then.mpr ⟨by omega, refuse_then.mpr ⟨by simp [fileLines_last], then_ok.mpr ⟨rows.map Prod.fst, ?_, rfl⟩⟩⟩⟩⟩⟩⟩⟩⟩⟩⟩⟩⟩
  · rintro ⟨checked, differ⟩
    exact differ (hash.resolve_left checked)
  · rw [fileLines_body]
    exact parsePoints_rows ok.rows 0

/-- What is accepted is the text of a file. -/
theorem parseArtifact_sound {bytes expected : Bytes} {a : PathArtifact} (read : parseArtifact bytes expected = .ok a) :
    (expected = [] ∨ sha256Hex bytes = expected) ∧
      ∃ count rows, FileOk a.engineId a.metaJson count rows ∧ parseUint count = some rows.length ∧
        bytes = fileText a.engineId a.metaJson count rows ∧ a.sha256 = sha256Hex bytes ∧ a.version = 1 ∧
        a.points = rows.map Prod.fst := by
  unfold parseArtifact at read
  dsimp only at read
  obtain ⟨hash, read⟩ := refuse_then.mp read
  obtain ⟨chars, read⟩ := refuse_then.mp read
  obtain ⟨newline, read⟩ := refuse_then.mp read
  obtain ⟨long, read⟩ := refuse_then.mp read
  obtain ⟨magic, read⟩ := refuse_then.mp read
  obtain ⟨frame, read⟩ := refuse_then.mp read
  obtain ⟨engine, read⟩ := refuse_then.mp read
  obtain ⟨front, read⟩ := refuse_then.mp read
  obtain ⟨canonical, read⟩ := refuse_then.mp read
  obtain ⟨counted, read⟩ := refuse_then.mp read
  obtain ⟨length, read⟩ := refuse_then.mp read
  obtain ⟨last, read⟩ := refuse_then.mp read
  obtain ⟨points, body, same⟩ := then_ok.mp read
  cases same
  have text := lines_split (not_not.mp newline)
  have inside : ∀ line ∈ split bytes.dropLast '\n', ∀ c ∈ line, c ∈ bytes := by
    intro line member c here
    rw [← text]
    exact List.mem_flatMap.mpr ⟨line, member, List.mem_append_left _ here⟩
  have separate : ∀ line ∈ split bytes.dropLast '\n', '\n' ∉ line := fun line member => not_mem_split member
  refine ⟨?_, ?_⟩
  · rw [not_and_or, not_not, not_not] at hash
    exact hash
  · generalize split bytes.dropLast '\n' = lines at *
    obtain ⟨l0, l1, l2, l3, l4, mid, final, rfl⟩ := length_five (l := lines) (by omega)
    simp only [List.getD_cons_zero, List.getD_cons_succ] at *
    rw [not_not] at magic frame
    obtain ⟨tok, pl, counted, positive⟩ : ∃ tok, split l4 ' ' = ["points".toList, tok] ∧
        parseUint tok = some ((parseUint ((split l4 ' ').getD 1 [])).getD 0) ∧
        0 < (parseUint ((split l4 ' ').getD 1 [])).getD 0 := by
      rw [not_or, not_or, not_not, not_not, not_lt] at counted
      obtain ⟨two, head, positive⟩ := counted
      obtain ⟨a, tok, parts⟩ := length_two two
      rw [parts, List.getD_cons_zero] at head
      rw [parts, List.getD_cons_succ, List.getD_cons_zero] at positive
      refine ⟨tok, by rw [parts, head], ?_, by rw [parts]; exact positive⟩
      rw [parts, List.getD_cons_succ, List.getD_cons_zero]
      cases read : parseUint tok with
      | none =>
        rw [read] at positive
        simp at positive
      | some n => rfl
    obtain ⟨e, eng, some⟩ : ∃ e, split l2 ' ' = ["engine".toList, e] ∧ e ≠ [] := by
      rw [not_or, not_or, not_not, not_not] at engine
      obtain ⟨two, head, some⟩ := engine
      obtain ⟨a, e, parts⟩ := length_two two
      rw [parts, List.getD_cons_zero] at head
      rw [parts, List.getD_cons_succ, List.getD_cons_zero] at some
      exact ⟨e, by rw [parts, head], some⟩
    generalize (parseUint ((split l4 ' ').getD 1 [])).getD 0 = n at *
    have size : mid.length = n := by
      simp only [List.length_cons, List.length_append, List.length_nil] at length
      omega
    have final' : final = "end ".toList ++ toText n := by
      rw [not_not, show l0 :: l1 :: l2 :: l3 :: l4 :: (mid ++ [final]) = (l0 :: l1 :: l2 :: l3 :: l4 :: mid) ++ [final] from rfl,
        List.getLast?_concat] at last
      exact Option.some.inj last
    have taken : ((l0 :: l1 :: l2 :: l3 :: l4 :: (mid ++ [final])).drop 5).take n = mid := by
      simp [← size]
    rw [taken] at body
    obtain ⟨rows, ok, rfl, rfl⟩ := parsePoints_sound body
    rw [List.length_map] at size
    subst size
    have line3 : l3 = "meta ".toList ++ l3.drop 5 := by
      obtain ⟨t, rfl⟩ := not_not.mp front
      rfl
    have line2 := (split_two.mp eng).1
    have line4 := (split_two.mp pl).1
    have engine2 : (split l2 ' ').getD 1 [] = e := by rw [eng]; rfl
    have whole : fileLines e (l3.drop 5) tok rows = l0 :: l1 :: l2 :: l3 :: l4 :: (rows.map rowText ++ [final]) := by
      rw [magic, frame, line2, line4, final']
      conv_rhs => rw [line3]
      simp [fileLines]
    refine ⟨tok, rows, ⟨?_, ?_, ?_, parseUint_word counted, ?_, ok⟩, counted, ?_, trivial, trivial, rfl⟩
    · rw [engine2]
      exact some
    · rw [engine2]
      intro c member
      have here : c ∈ l2 := by
        rw [line2]
        simp [member]
      have fine := mt (List.any_eq_true.mpr ⟨c, inside l2 (by simp) c here, ·⟩) chars
      have space : c ≠ ' ' := by
        rintro rfl
        exact (split_two.mp eng).2.2 member
      have newline : c ≠ '\n' := by
        rintro rfl
        exact separate l2 (by simp) here
      have apart : c.toNat ≠ 0x20 := fun same => space (by rw [← Char.ofNat_toNat c, same])
      simp only [Bool.or_eq_true, Bool.and_eq_true, decide_eq_true_eq, not_or, not_and, not_not, not_lt] at fine
      have visible : 0x20 ≤ c.toNat := not_lt.mp (mt fine.2 newline)
      exact ⟨by omega, fine.1.1⟩
    · exact CanonicalJson.object_iff.mp (by simpa using canonical)
    · exact List.ne_nil_of_length_pos positive
    · rw [engine2, fileText, whole, text]

end

/-! ### Written files -/

/-- What has a canonical spelling. -/
structure Serializable (engineId metaJson : Bytes) (points : List ArtifactPoint) : Prop where
  some : points ≠ []
  finite : ∀ p ∈ points, p.northM.isFinite = true ∧ p.eastM.isFinite = true
  flags : ∀ p ∈ points, p.flags.toNat ≤ 3
  engine : engineId ≠ []
  word : IsWord engineId
  canonical : CanonicalJson.IsCanonicalObject metaJson

section

variable {e m : Bytes} {ps : List ArtifactPoint}

theorem Serializable.rowOk (fine : Serializable e m ps) : ∀ r ∈ ps.map canonicalRow, RowOk r := by
  intro r member
  obtain ⟨p, inside, rfl⟩ := List.mem_map.mp member
  obtain ⟨north, east⟩ := fine.finite p inside
  have small := fine.flags p inside
  refine ⟨north, east, ?_, small⟩
  rw [canonicalRow, toText, parseUint_toDigits, if_pos (lt_of_le_of_lt small (by decide))]

theorem Serializable.fileOk (fine : Serializable e m ps) : FileOk e m (toText ps.length) (ps.map canonicalRow) :=
  ⟨fine.engine, fine.word, fine.canonical, toText_word _, by simp [fine.some], fine.rowOk⟩

theorem pointText_row (p : ArtifactPoint) : pointText p = rowText (canonicalRow p) ++ ['\n'] := by
  simp [pointText, rowText, canonicalRow]

theorem serialize_file (fine : Serializable e m ps) :
    serializeArtifact e m ps = fileText e m (toText ps.length) (ps.map canonicalRow) := by
  have metaText : Printable m := by
    obtain ⟨fields, canonical, rfl⟩ := fine.canonical
    exact CanonicalJson.dumps_printable canonical
  have some : (ps.isEmpty || e.isEmpty) = false := by simp [fine.some, fine.engine]
  have word : (e.any fun c => c.toNat ≤ 0x20 || 0x7e < c.toNat) = false := by
    rw [List.any_eq_false]
    intro c member
    simp [not_le.mpr (fine.word c member).1, not_lt.mpr (fine.word c member).2]
  have printable : (m.any fun c => c.toNat < 0x20 || 0x7e < c.toNat) = false := by
    rw [List.any_eq_false]
    intro c member
    simp [not_lt.mpr (metaText c member).1, not_lt.mpr (metaText c member).2]
  have points : (ps.any fun p => !p.northM.isFinite || !p.eastM.isFinite || 3 < p.flags.toNat) = false := by
    rw [List.any_eq_false]
    intro p member
    simp [(fine.finite p member).1, (fine.finite p member).2, not_lt.mpr (fine.flags p member)]
  have rows : ps.flatMap pointText = (ps.map canonicalRow).flatMap fun r => rowText r ++ ['\n'] := by
    rw [List.flatMap_map]
    exact List.flatMap_congr fun p _ => pointText_row p
  simp only [serializeArtifact, some, word, printable, CanonicalJson.object_iff.mpr fine.canonical, points, Bool.not_true,
    Bool.false_eq_true, if_false, rows]
  simp [fileText, fileLines, List.flatMap_map, List.flatMap_append]

theorem else_ne_nil {c : Prop} [Decidable c] {s : Bytes} : (if c then [] else s) ≠ [] ↔ ¬ c ∧ s ≠ [] := by
  split <;> simp [*]

theorem serialize_ne_nil : serializeArtifact e m ps ≠ [] ↔ Serializable e m ps := by
  constructor
  · intro written
    simp only [serializeArtifact, else_ne_nil, Bool.not_eq_true, List.isEmpty_eq_false_iff, List.any_eq_false,
      Bool.or_eq_true, decide_eq_true_eq, not_or, not_le, not_lt, Bool.not_eq_true'] at written
    obtain ⟨⟨some, engine⟩, word, _, canonical, points, _⟩ := written
    refine ⟨some, fun p member => ?_, fun p member => (points p member).2, engine, fun c member => word c member,
      CanonicalJson.object_iff.mp (Bool.of_not_eq_false canonical)⟩
    obtain ⟨⟨north, east⟩, _⟩ := points p member
    exact ⟨Bool.of_not_eq_false north, Bool.of_not_eq_false east⟩
  · intro fine
    rw [serialize_file fine]
    intro empty
    have last : (fileText e m (toText ps.length) (ps.map canonicalRow)).getLast? = some '\n' := file_getLast
    rw [empty] at last
    cases last

end

end Dyx3.Artifact
