import Dyx3.Artifact.Format

/-!
The two directions between a path and the bytes of its file: what is written reads back, and what is read was
written that way, up to zeros in front of the counts.
-/

namespace Dyx3.Artifact

open Lib Sha256

/-! ### What is written reads back -/

section

variable {e m : Bytes} {ps : List ArtifactPoint}

theorem canonicalRow_fst (ps : List ArtifactPoint) : (ps.map canonicalRow).map Prod.fst = ps := by
  rw [List.map_map]
  exact List.map_id ps

theorem parse_serialize_under (fine : Serializable e m ps) (small : ps.length < 10 ^ 10) {expected : Bytes}
    (hash : expected = [] ∨ sha256Hex (serializeArtifact e m ps) = expected) :
    parseArtifact (serializeArtifact e m ps) expected = .ok
      { sha256 := sha256Hex (serializeArtifact e m ps), version := 1, engineId := e, metaJson := m, points := ps } := by
  have counted : parseUint (toText ps.length) = some (ps.map canonicalRow).length := by
    rw [toText, parseUint_toDigits, if_pos small, List.length_map]
  rw [serialize_file fine] at hash ⊢
  rw [parseArtifact_file fine.fileOk counted hash, canonicalRow_fst]

theorem parse_serialize (fine : Serializable e m ps) (small : ps.length < 10 ^ 10) :
    parseArtifact (serializeArtifact e m ps) [] = .ok
      { sha256 := sha256Hex (serializeArtifact e m ps), version := 1, engineId := e, metaJson := m, points := ps } :=
  parse_serialize_under fine small (.inl rfl)

/-- Two files with the same text have the same lines. -/
theorem fileLines_inj {e' m' count count' : Bytes} {rows rows' : List Row} (ok : FileOk e m count rows)
    (ok' : FileOk e' m' count' rows') (same : fileText e m count rows = fileText e' m' count' rows') :
    fileLines e m count rows = fileLines e' m' count' rows' := by
  rw [← split_file ok, ← split_file ok', same]

theorem count_eq {e' m' count count' : Bytes} {rows rows' : List Row}
    (same : fileLines e m count rows = fileLines e' m' count' rows') : count = count' := by
  have line := congrArg (fun lines => lines.getD 4 []) same
  exact List.append_cancel_left (show "points ".toList ++ count = "points ".toList ++ count' from line)

/-- The reader's count has at most ten digits. -/
theorem parse_long (fine : Serializable e m ps) (large : 10 ^ 10 ≤ ps.length) (expected : Bytes) (a : PathArtifact) :
    parseArtifact (serializeArtifact e m ps) expected ≠ .ok a := by
  intro read
  obtain ⟨_, count, rows, ok, counted, text, _⟩ := parseArtifact_sound read
  rw [serialize_file fine] at text
  have same := count_eq (fileLines_inj fine.fileOk ok text)
  rw [← same, toText, parseUint_toDigits, if_neg (not_lt.mpr large)] at counted
  cases counted

end

/-- What `serializeArtifact` writes, it writes exactly for the inputs with a canonical spelling, and `parseArtifact`
reads it back as long as the count fits in ten digits. -/
theorem artifact_roundTrip (e m : Bytes) (ps : List ArtifactPoint) :
    (serializeArtifact e m ps ≠ [] ↔ Serializable e m ps) ∧
      (serializeArtifact e m ps ≠ [] →
        (parseArtifact (serializeArtifact e m ps) [] = .ok
          { sha256 := sha256Hex (serializeArtifact e m ps), version := 1, engineId := e, metaJson := m, points := ps } ↔
          ps.length < 10 ^ 10)) := by
  refine ⟨serialize_ne_nil, fun written => ?_⟩
  have fine := serialize_ne_nil.mp written
  refine ⟨fun read => ?_, parse_serialize fine⟩
  by_contra large
  exact parse_long fine (not_lt.mp large) [] _ read

def origin : ArtifactPoint := ⟨.zero false, .zero false, 0⟩

theorem emptyMeta_canonical : CanonicalJson.IsCanonicalObject "{}".toList := by
  refine ⟨[], ⟨.nil, nofun⟩, ?_⟩
  rw [Json.dumps_obj .nil]
  rfl

theorem origins_serializable {n : ℕ} (positive : 0 < n) :
    Serializable "app_v1".toList "{}".toList (List.replicate n origin) := by
  have only : ∀ p ∈ List.replicate n origin, p = origin := fun p member => List.eq_of_mem_replicate member
  refine ⟨?_, ?_, ?_, by decide, ?_, emptyMeta_canonical⟩
  · intro none
    have length := congrArg List.length none
    rw [List.length_replicate, List.length_nil] at length
    omega
  · intro p member
    rw [only p member]
    exact ⟨rfl, rfl⟩
  · intro p member
    rw [only p member]
    decide
  · decide

theorem artifact_roundTrip_origin :
    parseArtifact (serializeArtifact "app_v1".toList "{}".toList [origin]) [] = .ok
      { sha256 := sha256Hex (serializeArtifact "app_v1".toList "{}".toList [origin]), version := 1
        engineId := "app_v1".toList, metaJson := "{}".toList, points := [origin] } :=
  ((artifact_roundTrip "app_v1".toList "{}".toList [origin]).2
    (serialize_ne_nil.mpr (origins_serializable (n := 1) (by decide)))).mpr (by decide)

/-- Ten thousand million points are written with eleven digits and refused. -/
theorem roundTrip_elevenDigits :
    serializeArtifact "app_v1".toList "{}".toList (List.replicate (10 ^ 10) origin) ≠ [] ∧
      ∀ a, parseArtifact (serializeArtifact "app_v1".toList "{}".toList (List.replicate (10 ^ 10) origin)) [] ≠ .ok a := by
  have fine := origins_serializable (n := 10 ^ 10) (by norm_num)
  exact ⟨serialize_ne_nil.mpr fine, parse_long fine (by rw [List.length_replicate]) []⟩

/-- What is accepted is accepted under its own hash. -/
theorem parse_own {bytes expected : Bytes} {a : PathArtifact} (read : parseArtifact bytes expected = .ok a) :
    parseArtifact bytes a.sha256 = .ok a := by
  obtain ⟨_, count, rows, ok, counted, text, digest, version, points⟩ := parseArtifact_sound read
  obtain ⟨sha256, _, engineId, metaJson, _⟩ := a
  dsimp only at ok text digest version points
  subst version points digest text
  exact parseArtifact_file ok counted (.inr rfl)

/-! ### What is read was written that way -/

def fileLine (bytes : Bytes) (i : ℕ) : Bytes := (split bytes.dropLast '\n').getD i []

/-- The count as the file spells it. -/
def countToken (bytes : Bytes) : Bytes := (split (fileLine bytes 4) ' ').getD 1 []

/-- The flags as the file spells them. -/
def flagTokens (bytes : Bytes) : List Bytes :=
  ((split bytes.dropLast '\n').drop 5).dropLast.map fun line => (split line ' ').getD 2 []

/-- A number with no zero in front of it. -/
def Plain (tok : Bytes) : Prop := tok = ['0'] ∨ NoLeadingZero tok

theorem plain_iff {tok : Bytes} {n : ℕ} (read : parseUint tok = some n) : tok = toText n ↔ Plain tok := by
  obtain ⟨some, _, all, rfl⟩ := parseUint_ok read
  constructor
  · intro same
    rw [same]
    rcases Nat.eq_zero_or_pos (Nat.ofDigitChars 10 tok 0) with zero | positive
    · left
      rw [zero]
      rfl
    · exact .inr (toDigits_noLeadingZero positive)
  · rintro (rfl | lead)
    · rfl
    · exact (toDigits_ofDigitChars all some lead).symm

section

variable {e m count : Bytes} {rows : List Row}

theorem countToken_file (ok : FileOk e m count rows) : countToken (fileText e m count rows) = count := by
  rw [countToken, fileLine, split_file ok, fileLines_head.2.2.2.2, split_points ok]
  rfl

theorem flagTokens_file (ok : FileOk e m count rows) : flagTokens (fileText e m count rows) = rows.map Prod.snd := by
  have body : (fileLines e m count rows).drop 5 = rows.map rowText ++ ["end ".toList ++ toText rows.length] := by
    simp [fileLines]
  rw [flagTokens, split_file ok, body, List.dropLast_concat, List.map_map]
  refine List.map_congr_left fun r member => ?_
  rw [Function.comp_apply, split_row (ok.rows r member)]
  rfl

/-- The file with its counts spelled canonically. -/
theorem serialize_parsed (ok : FileOk e m count rows) :
    Serializable e m (rows.map Prod.fst) ∧ serializeArtifact e m (rows.map Prod.fst) =
      fileText e m (toText rows.length) ((rows.map Prod.fst).map canonicalRow) := by
  have fine : Serializable e m (rows.map Prod.fst) := by
    refine ⟨by simp [ok.some], fun p member => ?_, fun p member => ?_, ok.engine, ok.word, ok.canonical⟩
    · obtain ⟨r, inside, rfl⟩ := List.mem_map.mp member
      exact ⟨(ok.rows r inside).north, (ok.rows r inside).east⟩
    · obtain ⟨r, inside, rfl⟩ := List.mem_map.mp member
      exact (ok.rows r inside).small
  refine ⟨fine, ?_⟩
  rw [serialize_file fine, List.length_map]

theorem flags_plain (ok : ∀ r ∈ rows, RowOk r) :
    (∀ tok ∈ rows.map Prod.snd, Plain tok) ↔ ∀ r ∈ rows, toText r.1.flags.toNat = r.2 := by
  rw [List.forall_mem_map]
  refine forall₂_congr fun r member => ?_
  rw [← plain_iff (ok r member).flags]
  exact eq_comm

end

/-- An accepted file is the canonical text of what was read from it exactly when the count of the points and the flags
of every point are spelled without zeros in front. -/
theorem oneSpelling_iff (bytes expected : Bytes) (a : PathArtifact) (read : parseArtifact bytes expected = .ok a) :
    serializeArtifact a.engineId a.metaJson a.points = bytes ↔
      Plain (countToken bytes) ∧ ∀ tok ∈ flagTokens bytes, Plain tok := by
  obtain ⟨_, count, rows, ok, counted, rfl, _, _, points⟩ := parseArtifact_sound read
  obtain ⟨fine, written⟩ := serialize_parsed ok
  rw [points, written, countToken_file ok, flagTokens_file ok, ← plain_iff counted, flags_plain ok.rows]
  have spelled := fine.fileOk
  rw [List.length_map] at spelled
  constructor
  · intro same
    have counts := congrArg countToken same
    have flags := congrArg flagTokens same
    rw [countToken_file spelled, countToken_file ok] at counts
    rw [flagTokens_file spelled, flagTokens_file ok, List.map_map, List.map_map] at flags
    exact ⟨counts.symm, fun r member => List.map_inj_left.mp flags r member⟩
  · rintro ⟨counts, flags⟩
    have same : (rows.map Prod.fst).map canonicalRow = rows := by
      rw [List.map_map]
      conv_rhs => rw [← List.map_id rows]
      refine List.map_congr_left fun r member => ?_
      exact Prod.ext rfl (flags r member)
    rw [same, counts]

theorem zero_repr : pythonRepr (.zero false) = "0.0".toList := by
  have finite : (Double.zero false).isFinite = true := rfl
  rw [pythonRepr, if_pos finite, Double.zero_toChars]
  rfl

theorem originFile_text : serializeArtifact "app_v1".toList "{}".toList [origin] =
    "DYX3PATH 1\nframe local_ned\nengine app_v1\nmeta {}\npoints 1\n0.0 0.0 0\nend 1\n".toList := by
  have fine : Serializable "app_v1".toList "{}".toList [origin] := origins_serializable (n := 1) (by decide)
  rw [serialize_file fine]
  simp only [fileText, fileLines, rowText, canonicalRow, origin, List.map_cons, List.map_nil, zero_repr]
  rfl

theorem oneSpelling_origin :
    serializeArtifact "app_v1".toList "{}".toList [origin] = serializeArtifact "app_v1".toList "{}".toList [origin] ↔
      Plain (countToken (serializeArtifact "app_v1".toList "{}".toList [origin])) ∧
        ∀ tok ∈ flagTokens (serializeArtifact "app_v1".toList "{}".toList [origin]), Plain tok :=
  oneSpelling_iff _ [] _ (parse_serialize (origins_serializable (n := 1) (by decide)) (by decide))

/-- The count and the flags of this file have a zero in front. -/
def zerosFile : Bytes :=
  "DYX3PATH 1\nframe local_ned\nengine app_v1\nmeta {}\npoints 01\n0.0 0.0 00\nend 1\n".toList

theorem zerosFile_read : parseArtifact zerosFile [] = .ok
    { sha256 := sha256Hex zerosFile, version := 1, engineId := "app_v1".toList, metaJson := "{}".toList, points := [origin] } := by
  have ok : FileOk "app_v1".toList "{}".toList "01".toList [(origin, "00".toList)] := by
    refine ⟨by decide, ?_, emptyMeta_canonical, ?_, by simp, ?_⟩
    · decide
    · decide
    · intro r member
      rw [List.mem_singleton.mp member]
      exact ⟨rfl, rfl, rfl, by decide⟩
  have text : fileText "app_v1".toList "{}".toList "01".toList [(origin, "00".toList)] = zerosFile := by
    simp only [fileText, fileLines, rowText, origin, List.map_cons, List.map_nil, zero_repr]
    rfl
  rw [← text]
  exact parseArtifact_file ok rfl (.inl rfl)

/-- Two accepted files of the same path with different hashes. -/
theorem twoSpellings :
    (∃ a b, parseArtifact zerosFile [] = .ok a ∧
      parseArtifact (serializeArtifact a.engineId a.metaJson a.points) [] = .ok b ∧
      serializeArtifact a.engineId a.metaJson a.points ≠ zerosFile ∧
      b.engineId = a.engineId ∧ b.metaJson = a.metaJson ∧ b.points = a.points ∧ b.sha256 ≠ a.sha256) := by
  refine ⟨_, _, zerosFile_read, parse_serialize (origins_serializable (n := 1) (by decide)) (by decide), ?_, rfl, rfl, rfl, ?_⟩
  · rw [originFile_text]
    decide
  · rw [originFile_text]
    decide +kernel

end Dyx3.Artifact
