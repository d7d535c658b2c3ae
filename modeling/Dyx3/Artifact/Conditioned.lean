import Dyx3.Artifact.Format

/-!
`serialize_conditioned_artifact` and `parse_conditioned_artifact` (dyx3_mission, path_artifact): the text of a DYX3COND 1 file.
-/

namespace Dyx3.Artifact

open Lib Sha256

structure ConditionedRunArtifact where
  profile : UInt8
  points : List (Double × Double)
  flags : List UInt8
  mustHit : List UInt8
  deriving DecidableEq

structure ConditionedArtifact where
  sha256 : Bytes
  sourceSha256 : Bytes
  conditionerConfig : Bytes
  runs : List ConditionedRunArtifact

def isLowerHex64 (s : Bytes) : Bool := s.length = 64 && s.all fun c => ('0' ≤ c && c ≤ '9') || ('a' ≤ c && c ≤ 'f')

/-- A point with its flag and its must-hit mark. -/
abbrev ConditionedPoint := (Double × Double) × UInt8 × UInt8

namespace ConditionedRunArtifact

def rows (run : ConditionedRunArtifact) : List ConditionedPoint := run.points.zip (run.flags.zip run.mustHit)

def ofRows (profile : UInt8) (rows : List ConditionedPoint) : ConditionedRunArtifact :=
  ⟨profile, rows.map fun r => r.1, rows.map fun r => r.2.1, rows.map fun r => r.2.2⟩

end ConditionedRunArtifact

open ConditionedRunArtifact

section

-- `operator<<` of a double with `max_digits10` digits
variable (print : Double → Bytes)

/-! ### Writing -/

def pointLine (r : ConditionedPoint) : Bytes :=
  print r.1.1 ++ ' ' :: (print r.1.2 ++ ' ' :: (toText r.2.1.toNat ++ ' ' :: toText r.2.2.toNat))

def serializePoint (r : ConditionedPoint) : Option Bytes :=
  if !r.1.1.isFinite ∨ !r.1.2.isFinite ∨ 1 < r.2.1 ∨ 1 < r.2.2 then none else some (pointLine print r ++ ['\n'])

def runHead (run : ConditionedRunArtifact) : Bytes :=
  "run ".toList ++ toText run.profile.toNat ++ ' ' :: toText run.points.length

def serializeRun (run : ConditionedRunArtifact) : Option Bytes :=
  if run.points = [] ∨ run.points.length ≠ run.flags.length ∨ run.points.length ≠ run.mustHit.length ∨ 1 < run.profile then none
  else do
    let lines ← run.rows.mapM (serializePoint print)
    return runHead run ++ ['\n'] ++ lines.flatten ++ "endrun\n".toList

def serializeConditionedArtifact (sourceSha256 conditionerConfig : Bytes) (runs : List ConditionedRunArtifact) : Bytes :=
  if !isLowerHex64 sourceSha256 ∨ '\r' ∈ conditionerConfig ∨ '\n' ∈ conditionerConfig then []
  else
    match runs.mapM (serializeRun print) with
    | none => []
    | some texts =>
      "DYX3COND 1\nsource ".toList ++ sourceSha256 ++ "\nconfig ".toList ++ conditionerConfig ++ "\nruns ".toList ++
        toText runs.length ++ "\n".toList ++ texts.flatten ++ "end ".toList ++ toText runs.length ++ "\n".toList

/-! ### Reading -/

def readPoint (line : Bytes) : ArtifactResult ConditionedPoint :=
  let fields := split line ' '
  let field (i : ℕ) := fields.getD i []
  match parseDouble (field 0), parseDouble (field 1), parseUint (field 2), parseUint (field 3) with
  | some north, some east, some flag, some must => do
    refuse (fields.length ≠ 4 ∨ 1 < flag ∨ 1 < must) "malformed conditioned point".toList
    return ((north, east), UInt8.ofNat flag, UInt8.ofNat must)
  | _, _, _, _ => .error "malformed conditioned point".toList

/-- `n` points and the lines after them. -/
def readPoints : ℕ → List Bytes → ArtifactResult (List ConditionedPoint × List Bytes)
  | 0, lines => .ok ([], lines)
  | _ + 1, [] => .error "truncated run points".toList
  | n + 1, line :: lines => do
    let r ← readPoint line
    let (rs, rest) ← readPoints n lines
    return (r :: rs, rest)

def kMaxRunPoints : ℕ := 10000000

def readRun : List Bytes → ArtifactResult (ConditionedRunArtifact × List Bytes)
  | [] => .error "truncated run".toList
  | line :: lines =>
    let head := split line ' '
    match parseUint (head.getD 1 []), parseUint (head.getD 2 []) with
    | some profile, some n => do
      refuse (head.length ≠ 3 ∨ head.getD 0 [] ≠ "run".toList ∨ 1 < profile ∨ n = 0 ∨ kMaxRunPoints < n) "malformed run header".toList
      let (rs, rest) ← readPoints n lines
      refuse (rest.head? ≠ some "endrun".toList) "missing endrun".toList
      return (ofRows (UInt8.ofNat profile) rs, rest.tail)
    | _, _ => .error "malformed run header".toList

def readRuns : ℕ → List Bytes → ArtifactResult (List ConditionedRunArtifact × List Bytes)
  | 0, lines => .ok ([], lines)
  | n + 1, lines => do
    let (run, lines) ← readRun lines
    let (runs, rest) ← readRuns n lines
    return (run :: runs, rest)

def kMaxRuns : ℕ := 100000

/-- An empty `expected` is not checked. -/
def parseConditionedArtifact (bytes expected : Bytes) : ArtifactResult ConditionedArtifact := do
  let digest := sha256Hex bytes
  refuse (expected ≠ [] ∧ digest ≠ expected) "conditioned sha256 mismatch".toList
  refuse (bytes.getLast? ≠ some '\n' ∨ '\r' ∈ bytes) "malformed conditioned artifact newline".toList
  refuse (bytes.any fun c => 0x7e < c.toNat || (c.toNat < 0x20 && c ≠ '\n'))
    "conditioned artifact contains non-ASCII or control bytes".toList
  let lines := split bytes.dropLast '\n'
  let line (i : ℕ) := lines.getD i []
  refuse (line 0 ≠ "DYX3COND 1".toList) "bad conditioned magic/version".toList
  refuse (¬ "source ".toList <+: line 1) "missing source sha".toList
  let source := (line 1).drop 7
  refuse (isLowerHex64 source = false) "invalid source sha".toList
  refuse (¬ "config ".toList <+: line 2 ∨ (line 2).length ≤ 7) "missing conditioner config".toList
  let config := (line 2).drop 7
  refuse (¬ "runs ".toList <+: line 3) "missing runs count".toList
  let count := (parseUint ((line 3).drop 5)).getD 0
  refuse (count = 0 ∨ kMaxRuns < count) "invalid runs count".toList
  let (runs, rest) ← readRuns count (lines.drop 4)
  refuse (rest ≠ ["end ".toList ++ toText count]) "bad conditioned end marker or trailing data".toList
  refuse (serializeConditionedArtifact print source config runs ≠ bytes) "conditioned artifact is not canonical".toList
  return { sha256 := digest, sourceSha256 := source, conditionerConfig := config, runs }

end

/-! ### The text of a file -/

/-- A run that is written. -/
structure Storable (run : ConditionedRunArtifact) : Prop where
  some : run.points ≠ []
  flags : run.flags.length = run.points.length
  mustHit : run.mustHit.length = run.points.length
  profile : run.profile ≤ 1
  finite : ∀ p ∈ run.points, p.1.isFinite = true ∧ p.2.isFinite = true
  marks : (∀ f ∈ run.flags, f ≤ 1) ∧ ∀ m ∈ run.mustHit, m ≤ 1

/-- A point that is written. -/
structure PointOk (r : ConditionedPoint) : Prop where
  north : r.1.1.isFinite = true
  east : r.1.2.isFinite = true
  flag : r.2.1 ≤ 1
  must : r.2.2 ≤ 1

theorem Storable.rows_length {run : ConditionedRunArtifact} (fine : Storable run) : run.rows.length = run.points.length := by
  rw [rows, List.length_zip, List.length_zip, fine.flags, fine.mustHit, min_self, min_self]

theorem Storable.rows_ok {run : ConditionedRunArtifact} (fine : Storable run) : ∀ r ∈ run.rows, PointOk r := by
  intro r member
  obtain ⟨point, marks⟩ := List.of_mem_zip (a := r.1) (b := r.2) member
  obtain ⟨flag, must⟩ := List.of_mem_zip (a := r.2.1) (b := r.2.2) marks
  exact ⟨(fine.finite _ point).1, (fine.finite _ point).2, fine.marks.1 _ flag, fine.marks.2 _ must⟩

theorem Storable.ofRows_rows {run : ConditionedRunArtifact} (fine : Storable run) : ofRows run.profile run.rows = run := by
  obtain ⟨profile, points, flags, mustHit⟩ := run
  have same : (flags.zip mustHit).length = points.length := by
    rw [List.length_zip, fine.flags, fine.mustHit, min_self]
  have points' : (points.zip (flags.zip mustHit)).map (fun r => r.1) = points := List.map_fst_zip (le_of_eq same.symm)
  have marks : (points.zip (flags.zip mustHit)).map (fun r => r.2) = flags.zip mustHit := List.map_snd_zip (le_of_eq same)
  have flags' : (points.zip (flags.zip mustHit)).map (fun r => r.2.1) = flags := by
    rw [show (fun r : ConditionedPoint => r.2.1) = Prod.fst ∘ fun r => r.2 from rfl, ← List.map_map, marks]
    exact List.map_fst_zip (le_of_eq (fine.flags.trans fine.mustHit.symm))
  have mustHit' : (points.zip (flags.zip mustHit)).map (fun r => r.2.2) = mustHit := by
    rw [show (fun r : ConditionedPoint => r.2.2) = Prod.snd ∘ fun r => r.2 from rfl, ← List.map_map, marks]
    exact List.map_snd_zip (le_of_eq (fine.mustHit.trans fine.flags.symm))
  rw [ofRows, rows, points', flags', mustHit']

section

variable (print : Double → Bytes)

def runLines (run : ConditionedRunArtifact) : List Bytes := runHead run :: (run.rows.map (pointLine print) ++ ["endrun".toList])

def conditionedLines (source config : Bytes) (runs : List ConditionedRunArtifact) : List Bytes :=
  ["DYX3COND 1".toList, "source ".toList ++ source, "config ".toList ++ config, "runs ".toList ++ toText runs.length] ++
    runs.flatMap (runLines print) ++ ["end ".toList ++ toText runs.length]

def conditionedText (source config : Bytes) (runs : List ConditionedRunArtifact) : Bytes :=
  (conditionedLines print source config runs).flatMap (· ++ ['\n'])

theorem mapM_some {α β : Type} {f : α → Option β} {g : α → β} {l : List α} (each : ∀ x ∈ l, f x = some (g x)) :
    l.mapM f = some (l.map g) := by
  induction l with
  | nil => rfl
  | cons x l ih =>
    rw [List.mapM_cons, each x List.mem_cons_self, ih fun y member => each y (List.mem_cons_of_mem _ member)]
    rfl

theorem serializePoint_ok {r : ConditionedPoint} (ok : PointOk r) : serializePoint print r = some (pointLine print r ++ ['\n']) := by
  have fine : ¬ (!r.1.1.isFinite ∨ !r.1.2.isFinite ∨ 1 < r.2.1 ∨ 1 < r.2.2) := by
    rw [ok.north, ok.east, not_or, not_or, not_or, UInt8.not_lt, UInt8.not_lt]
    exact ⟨by decide, by decide, ok.flag, ok.must⟩
  rw [serializePoint, if_neg fine]

theorem serializeRun_storable {run : ConditionedRunArtifact} (fine : Storable run) :
    serializeRun print run = some ((runLines print run).flatMap (· ++ ['\n'])) := by
  have written : ¬ (run.points = [] ∨ run.points.length ≠ run.flags.length ∨ run.points.length ≠ run.mustHit.length ∨ 1 < run.profile) := by
    rw [not_or, not_or, not_or, not_not, not_not, UInt8.not_lt]
    exact ⟨fine.some, fine.flags.symm, fine.mustHit.symm, fine.profile⟩
  have lines := mapM_some fun r member => serializePoint_ok print (fine.rows_ok r member)
  rw [serializeRun, if_neg written, lines, runLines, List.flatMap_cons, List.flatMap_append, List.flatMap_map]
  simp [List.flatMap]

theorem serialize_storable {source config : Bytes} {runs : List ConditionedRunArtifact} (hex : isLowerHex64 source = true)
    (printable : Printable config) (fine : ∀ run ∈ runs, Storable run) :
    serializeConditionedArtifact print source config runs = conditionedText print source config runs := by
  have plain : ¬ (!isLowerHex64 source ∨ '\r' ∈ config ∨ '\n' ∈ config) := by
    rw [hex, not_or, not_or]
    exact ⟨by decide, fun member => absurd (printable '\r' member).1 (by decide), printable.noNewline⟩
  have texts := mapM_some fun run member => serializeRun_storable print (fine run member)
  rw [serializeConditionedArtifact, if_neg plain, texts, conditionedText, conditionedLines, List.flatMap_append, List.flatMap_append,
    List.flatMap_assoc]
  simp [List.flatMap]

end

/-! ### What is written reads back -/

theorem split_four {a b c d : Bytes} {sep : Char} (first : sep ∉ a) (second : sep ∉ b) (third : sep ∉ c) (fourth : sep ∉ d) :
    split (a ++ sep :: (b ++ sep :: (c ++ sep :: d))) sep = [a, b, c, d] := by
  rw [split, List.splitOn_append_cons_self_of_not_mem first, List.splitOn_append_cons_self_of_not_mem second,
    List.splitOn_append_cons_self_of_not_mem third, List.splitOn_eq_singleton fourth]

theorem parseUint_mark {m : UInt8} (small : m ≤ 1) : parseUint (toText m.toNat) = some m.toNat := by
  have less : m.toNat ≤ 1 := UInt8.le_iff_toNat_le.mp small
  rw [toText, parseUint_toDigits, if_pos (by omega)]

section

variable {print : Double → Bytes} (word : ∀ x : Double, x.isFinite = true → IsWord (print x))
  (back : ∀ x : Double, x.isFinite = true → parseDouble (print x) = some x)

include word back

theorem readPoint_line {r : ConditionedPoint} (ok : PointOk r) : readPoint (pointLine print r) = .ok r := by
  have fields := split_four (word _ ok.north).noSpace (word _ ok.east).noSpace (toText_word r.2.1.toNat).noSpace
    (toText_word r.2.2.toNat).noSpace
  have flag : r.2.1.toNat ≤ 1 := UInt8.le_iff_toNat_le.mp ok.flag
  have must : r.2.2.toNat ≤ 1 := UInt8.le_iff_toNat_le.mp ok.must
  simp only [readPoint, pointLine, fields, List.getD_cons_zero, List.getD_cons_succ, back _ ok.north, back _ ok.east,
    parseUint_mark ok.flag, parseUint_mark ok.must]
  rw [refuse, if_neg]
  · simp only [UInt8.ofNat_toNat]
    rfl
  · rw [not_or, not_or, not_lt, not_lt]
    exact ⟨fun other => other rfl, flag, must⟩

theorem readPoints_lines {rs : List ConditionedPoint} (ok : ∀ r ∈ rs, PointOk r) (rest : List Bytes) :
    readPoints rs.length (rs.map (pointLine print) ++ rest) = .ok (rs, rest) := by
  induction rs with
  | nil => rfl
  | cons r rs ih =>
    rw [List.map_cons, List.cons_append, List.length_cons, readPoints, readPoint_line word back (ok r List.mem_cons_self),
      ih fun r' member => ok r' (List.mem_cons_of_mem _ member)]
    rfl

omit word back in
theorem split_runHead (run : ConditionedRunArtifact) :
    split (runHead run) ' ' = ["run".toList, toText run.profile.toNat, toText run.points.length] := by
  have parts : split ("run".toList ++ ' ' :: (toText run.profile.toNat ++ ' ' :: toText run.points.length)) ' ' =
      ["run".toList, toText run.profile.toNat, toText run.points.length] :=
    split_three.mpr ⟨rfl, by decide, (toText_word _).noSpace, (toText_word _).noSpace⟩
  rw [← parts, runHead]
  congr 1

theorem readRun_lines {run : ConditionedRunArtifact} (fine : Storable run) (short : run.points.length ≤ kMaxRunPoints)
    (rest : List Bytes) : readRun (runLines print run ++ rest) = .ok (run, rest) := by
  have count : parseUint (toText run.points.length) = some run.points.length := by
    have bound : run.points.length < 10 ^ 10 := lt_of_le_of_lt short (by decide)
    rw [toText, parseUint_toDigits, if_pos bound]
  have some : run.points.length ≠ 0 := fun none => fine.some (List.eq_nil_of_length_eq_zero none)
  have profile : run.profile.toNat ≤ 1 := UInt8.le_iff_toNat_le.mp fine.profile
  have body := readPoints_lines word back fine.rows_ok ("endrun".toList :: rest)
  rw [fine.rows_length] at body
  simp only [readRun, runLines, List.cons_append, List.append_assoc, List.nil_append, split_runHead, List.getD_cons_zero,
    List.getD_cons_succ, parseUint_mark fine.profile, count]
  rw [refuse, if_neg]
  · rw [body]
    refine then_ok.mpr ⟨(), rfl, then_ok.mpr ⟨_, rfl, refuse_then.mpr ⟨fun other => other rfl, ?_⟩⟩⟩
    rw [UInt8.ofNat_toNat, fine.ofRows_rows]
    rfl
  · rw [not_or, not_or, not_or, not_or, not_lt, not_lt]
    exact ⟨fun other => other rfl, fun other => other rfl, profile, some, short⟩

omit word back in
theorem readRun_long {run : ConditionedRunArtifact} (profile : run.profile ≤ 1) (long : kMaxRunPoints < run.points.length)
    (rest : List Bytes) : readRun (runLines print run ++ rest) = .error "malformed run header".toList := by
  simp only [readRun, runLines, List.cons_append, List.append_assoc, List.nil_append, split_runHead, List.getD_cons_zero,
    List.getD_cons_succ, parseUint_mark profile]
  rw [toText, parseUint_toDigits]
  split_ifs
  · dsimp only
    rw [refuse, if_pos (.inr (.inr (.inr (.inr long))))]
    rfl
  · rfl

theorem readRuns_lines {runs : List ConditionedRunArtifact} (fine : ∀ run ∈ runs, Storable run)
    (short : ∀ run ∈ runs, run.points.length ≤ kMaxRunPoints) (rest : List Bytes) :
    readRuns runs.length (runs.flatMap (runLines print) ++ rest) = .ok (runs, rest) := by
  induction runs with
  | nil => rfl
  | cons run runs ih =>
    rw [List.forall_mem_cons] at fine short
    rw [List.flatMap_cons, List.append_assoc, List.length_cons, readRuns, readRun_lines word back fine.1 short.1]
    change (readRuns runs.length (runs.flatMap (runLines print) ++ rest) >>= _) = _
    rw [ih fine.2 short.2]
    rfl

/-- The first run with too many points is refused. -/
theorem readRuns_long {runs : List ConditionedRunArtifact} (fine : ∀ run ∈ runs, Storable run)
    (long : ∃ run ∈ runs, kMaxRunPoints < run.points.length) (rest : List Bytes) :
    readRuns runs.length (runs.flatMap (runLines print) ++ rest) = .error "malformed run header".toList := by
  induction runs with
  | nil =>
    obtain ⟨run, member, _⟩ := long
    cases member
  | cons run runs ih =>
    rw [List.forall_mem_cons] at fine
    rw [List.flatMap_cons, List.append_assoc, List.length_cons, readRuns]
    rcases Nat.lt_or_ge kMaxRunPoints run.points.length with here | short
    · rw [readRun_long fine.1.profile here]
      rfl
    · rw [readRun_lines word back fine.1 short]
      have later : ∃ r ∈ runs, kMaxRunPoints < r.points.length := by
        obtain ⟨r, member, beyond⟩ := long
        rcases List.mem_cons.mp member with rfl | member
        · exact absurd short (not_le.mpr beyond)
        · exact ⟨r, member, beyond⟩
      change (readRuns runs.length (runs.flatMap (runLines print) ++ rest) >>= _) = _
      rw [ih fine.2 later]
      rfl

/-- What a conditioned file is made of. -/
structure ConditionedOk (source config : Bytes) (runs : List ConditionedRunArtifact) : Prop where
  hex : isLowerHex64 source = true
  printable : Printable config
  config : config ≠ []
  some : runs ≠ []
  few : runs.length ≤ kMaxRuns
  runs : ∀ run ∈ runs, Storable run

variable {source config : Bytes} {runs : List ConditionedRunArtifact}

omit word back in
theorem hex_word (hex : isLowerHex64 source = true) : IsWord source := by
  rw [isLowerHex64, Bool.and_eq_true, List.all_eq_true] at hex
  intro c member
  have digit := hex.2 c member
  rw [Bool.or_eq_true, Bool.and_eq_true, Bool.and_eq_true, decide_eq_true_iff, decide_eq_true_iff, decide_eq_true_iff,
    decide_eq_true_iff] at digit
  rcases digit with ⟨lower, upper⟩ | ⟨lower, upper⟩
  · have above : '0'.toNat ≤ c.toNat := lower
    have below : c.toNat ≤ '9'.toNat := upper
    exact ⟨lt_of_lt_of_le (by decide) above, le_trans below (by decide)⟩
  · have above : 'a'.toNat ≤ c.toNat := lower
    have below : c.toNat ≤ 'f'.toNat := upper
    exact ⟨lt_of_lt_of_le (by decide) above, le_trans below (by decide)⟩

omit back in
theorem pointLine_printable {r : ConditionedPoint} (ok : PointOk r) : Printable (pointLine print r) := by
  have space : ∀ {s : Bytes}, Printable s → Printable (' ' :: s) := fun rest => CanonicalJson.char_printable (by decide) rest
  exact (word _ ok.north).printable.append (space ((word _ ok.east).printable.append
    (space ((toText_word _).printable.append (space (toText_word _).printable)))))

omit back in
theorem runLines_printable {run : ConditionedRunArtifact} (fine : Storable run) : ∀ line ∈ runLines print run, Printable line := by
  intro line member
  rw [runLines, List.mem_cons, List.mem_append, List.mem_map, List.mem_singleton] at member
  rcases member with rfl | ⟨r, inside, rfl⟩ | rfl
  · have head : Printable "run ".toList := by decide
    exact (head.append (toText_word _).printable).append (CanonicalJson.char_printable (by decide) (toText_word _).printable)
  · exact pointLine_printable word (fine.rows_ok r inside)
  · decide

omit back in
theorem conditionedLines_printable (ok : ConditionedOk source config runs) :
    ∀ line ∈ conditionedLines print source config runs, Printable line := by
  have fixed : ∀ head ∈ ["DYX3COND 1", "source ", "config ", "runs ", "end "], Printable head.toList := by decide
  intro line member
  simp only [conditionedLines, List.mem_append, List.mem_cons, List.not_mem_nil, or_false, List.mem_flatMap] at member
  rcases member with ((rfl | rfl | rfl | rfl) | ⟨run, inside, member⟩) | rfl
  · exact fixed _ (by decide)
  · exact (fixed "source " (by decide)).append (hex_word ok.hex).printable
  · exact (fixed "config " (by decide)).append ok.printable
  · exact (fixed "runs " (by decide)).append (toText_word _).printable
  · exact runLines_printable word (ok.runs run inside) line member
  · exact (fixed "end " (by decide)).append (toText_word _).printable

omit back in
theorem split_conditioned (ok : ConditionedOk source config runs) :
    split (conditionedText print source config runs).dropLast '\n' = conditionedLines print source config runs :=
  split_lines (fun line member => (conditionedLines_printable word ok line member).noNewline) (by simp [conditionedLines])

omit back in
theorem conditioned_chars (ok : ConditionedOk source config runs) :
    (∀ c ∈ conditionedText print source config runs, c = '\n' ∨ (0x20 ≤ c.toNat ∧ c.toNat ≤ 0x7e)) := by
  intro c member
  obtain ⟨line, inside, member⟩ := List.mem_flatMap.mp member
  rcases List.mem_append.mp member with member | member
  · exact .inr (conditionedLines_printable word ok line inside c member)
  · exact .inl (List.mem_singleton.mp member)

omit word back in
theorem conditioned_getLast : (conditionedText print source config runs).getLast? = some '\n' := by
  rw [conditionedText, flatMap_newline (by simp [conditionedLines])]
  exact List.getLast?_concat

omit word back in
theorem conditionedText_ne_nil : conditionedText print source config runs ≠ [] := by
  intro none
  have last := @conditioned_getLast print source config runs
  rw [none] at last
  cases last

omit back in
/-- The parser up to the runs. -/
theorem parseConditioned_runs (ok : ConditionedOk source config runs) {expected : Bytes}
    (hash : expected = [] ∨ sha256Hex (conditionedText print source config runs) = expected) :
    parseConditionedArtifact print (conditionedText print source config runs) expected =
      (readRuns runs.length (runs.flatMap (runLines print) ++ ["end ".toList ++ toText runs.length]) >>= fun parsed => do
        refuse (parsed.2 ≠ ["end ".toList ++ toText runs.length]) "bad conditioned end marker or trailing data".toList
        refuse (serializeConditionedArtifact print source config parsed.1 ≠ conditionedText print source config runs)
          "conditioned artifact is not canonical".toList
        return { sha256 := sha256Hex (conditionedText print source config runs), sourceSha256 := source, conditionerConfig := config,
                 runs := parsed.1 }) := by
  have counted : parseUint (toText runs.length) = some runs.length := by
    have bound : runs.length < 10 ^ 10 := lt_of_le_of_lt ok.few (by decide)
    rw [toText, parseUint_toDigits, if_pos bound]
  have positive : runs.length ≠ 0 := fun none => ok.some (List.eq_nil_of_length_eq_zero none)
  have chars := conditioned_chars word ok
  have plain : (conditionedText print source config runs).any (fun c => 0x7e < c.toNat || (c.toNat < 0x20 && c ≠ '\n')) = false := by
    rw [List.any_eq_false]
    intro c member
    rcases chars c member with rfl | ⟨lower, upper⟩
    · decide
    · simp only [Bool.or_eq_true, Bool.and_eq_true, decide_eq_true_iff]
      omega
  have returns : '\r' ∉ conditionedText print source config runs := by
    intro member
    rcases chars '\r' member with other | ⟨lower, _⟩
    · cases other
    · exact absurd lower (by decide)
  have lines : (conditionedLines print source config runs).getD 0 [] = "DYX3COND 1".toList ∧
      (conditionedLines print source config runs).getD 1 [] = "source ".toList ++ source ∧
      (conditionedLines print source config runs).getD 2 [] = "config ".toList ++ config ∧
      (conditionedLines print source config runs).getD 3 [] = "runs ".toList ++ toText runs.length ∧
      (conditionedLines print source config runs).drop 4 =
        runs.flatMap (runLines print) ++ ["end ".toList ++ toText runs.length] := ⟨rfl, rfl, rfl, rfl, rfl⟩
  have named : ("source ".toList ++ source).drop 7 = source := rfl
  have configured : ("config ".toList ++ config).drop 7 = config := rfl
  have numbered : ("runs ".toList ++ toText runs.length).drop 5 = toText runs.length := rfl
  have pass : ∀ {β : Type} {c : Prop} [Decidable c] {msg : Bytes} {f : Unit → ArtifactResult β}, ¬c → (refuse c msg >>= f) = f () := by
    intro β c _ msg f other
    rw [refuse, if_neg other]
    rfl
  unfold parseConditionedArtifact
  dsimp only
  rw [split_conditioned word ok]
  simp only [lines, named, configured, numbered, counted, Option.getD_some]
  rw [pass, pass, pass, pass, pass, pass, pass, pass, pass]
  · rw [not_or, not_lt]
    exact ⟨positive, ok.few⟩
  · simp
  · rw [not_or, not_not, not_le]
    refine ⟨List.prefix_append _ _, ?_⟩
    have some := List.length_pos_of_ne_nil ok.config
    rw [List.length_append]
    change 7 < 7 + config.length
    omega
  · rw [ok.hex]
    decide
  · simp
  · simp
  · rw [plain]
    decide
  · rw [not_or, not_not]
    exact ⟨conditioned_getLast, returns⟩
  · rintro ⟨checked, differ⟩
    exact differ (hash.resolve_left checked)

/-- What is written reads back when no run has too many points. -/
theorem parseConditioned_text (ok : ConditionedOk source config runs) {expected : Bytes}
    (hash : expected = [] ∨ sha256Hex (conditionedText print source config runs) = expected)
    (short : ∀ run ∈ runs, run.points.length ≤ kMaxRunPoints) :
    parseConditionedArtifact print (conditionedText print source config runs) expected = .ok
      { sha256 := sha256Hex (conditionedText print source config runs), sourceSha256 := source, conditionerConfig := config, runs } := by
  rw [parseConditioned_runs word ok hash, readRuns_lines word back ok.runs short]
  refine then_ok.mpr ⟨_, rfl, refuse_then.mpr ⟨fun other => other rfl, refuse_then.mpr ⟨?_, rfl⟩⟩⟩
  rw [serialize_storable print ok.hex ok.printable ok.runs, not_not]

/-- A run with more than ten million points is not read again. -/
theorem parseConditioned_long (ok : ConditionedOk source config runs) {expected : Bytes}
    (hash : expected = [] ∨ sha256Hex (conditionedText print source config runs) = expected)
    (long : ∃ run ∈ runs, kMaxRunPoints < run.points.length) :
    parseConditionedArtifact print (conditionedText print source config runs) expected = .error "malformed run header".toList := by
  rw [parseConditioned_runs word ok hash, readRuns_long word back ok.runs long]
  rfl

end

end Dyx3.Artifact
