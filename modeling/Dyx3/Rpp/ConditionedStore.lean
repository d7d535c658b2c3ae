import Dyx3.Artifact.Conditioned
import Dyx3.Rpp.ErrorBound
import Dyx3.Rpp.Gaps

/-!
The conditioned mission as `RppNode` stores it: every run of `condition_path` becomes a run of a DYX3COND file, which reads back
as it was.
-/

namespace Dyx3.Rpp

noncomputable section

open Geometry Lib Artifact Sha256

variable {V : Type*} [Vertex V]

/-! ### What every run is made of -/

/-- The lists of a run go together. -/
structure Sized (run : ConditionedRun V) : Prop where
  some : run.pts ≠ []
  flags : run.flags.length = run.pts.length
  mustHit : run.mustHit.length = run.pts.length
  cumS : run.cumS.length = run.pts.length
  start : run.cumS.head? = .some 0
  rises : run.cumS.Pairwise (· ≤ ·)

theorem cumulativeLengths_head (pts : List V) : (cumulativeLengths pts).head? = some 0 := by
  rw [cumulativeLengths, List.head?_scanl]

theorem cumulativeLengths_length {pts : List V} (some : pts ≠ []) : (cumulativeLengths pts).length = pts.length := by
  have positive := List.length_pos_of_ne_nil some
  rw [cumulativeLengths, List.length_scanl, List.length_zipWith, List.length_tail]
  omega

theorem cumulativeLengths_pairwise (pts : List V) : (cumulativeLengths pts).Pairwise (· ≤ ·) := by
  refine List.isChain_iff_pairwise.mp (List.isChain_iff_getElem.mpr fun i inside => ?_)
  have size : (cumulativeLengths pts).length = pts.length - 1 + 1 := by
    rw [cumulativeLengths, List.length_scanl, List.length_zipWith, List.length_tail]
    omega
  have rise := cumulativeLengths_rise pts i (by omega)
  rwa [List.getD_eq_getElem _ _ (by omega), List.getD_eq_getElem _ _ inside] at rise

theorem rawRuns_ne_nil {pts : List V} {flags : List Bool} (some : pts ≠ []) (balanced : flags.length = pts.length)
    (p : ConditionParams) (must : KeySet) : rawRuns p must pts flags ≠ [] := by
  unfold rawRuns
  split
  · have split := splitRunsByFlag_exactly some balanced
    rw [autoRuns_eq]
    obtain ⟨r, runs, cut⟩ : ∃ r runs, splitRunsByFlag pts flags = r :: runs := by
      apply List.exists_cons_of_ne_nil
      intro none
      have joined := split.pts
      rw [none] at joined
      exact some joined.symm
    have here := (autoPieces_parts (split.sound r (by rw [cut]; exact List.mem_cons_self)) p must).1.some
    obtain ⟨first, rest, pieces⟩ := List.exists_cons_of_ne_nil here
    rw [cut, List.flatMap_cons, pieces, List.cons_append, mergeCollinearRuns]
    exact mergeFrom_ne_nil _ _
  · exact List.cons_ne_nil _ _

theorem conditionRun_sized {r : PointRun V} (sound : Sound r) (p : ConditionParams) (must : KeySet) : Sized (conditionRun p must r) := by
  obtain ⟨⟨some, balanced⟩, -⟩ := conditionVerts_ends sound p must
  refine ⟨?_, ?_, ?_, ?_, cumulativeLengths_head _, cumulativeLengths_pairwise _⟩
  · rw [conditionRun_pts]
    exact some
  · rw [conditionRun_pts, conditionRun_flags]
    exact balanced
  · simp only [conditionRun, List.length_map]
  · exact cumulativeLengths_length some

theorem conditionedRuns_sized {raw : List (RawPoint V)} (points : raw ≠ []) (p : ConditionParams) :
    conditionedRuns raw p ≠ [] ∧ ∀ run ∈ conditionedRuns raw p, Sized run := by
  have vertices : raw.map RawPoint.vertex ≠ [] := by simpa using points
  have balanced : (raw.map RawPoint.spray).length = (raw.map RawPoint.vertex).length := by rw [List.length_map, List.length_map]
  have sound := (rawRuns_meet vertices balanced p (mustHitKeys raw)).2
  rw [conditionedRuns, if_neg points]
  refine ⟨fun none => rawRuns_ne_nil vertices balanced p (mustHitKeys raw) (List.map_eq_nil_iff.mp none), fun run member => ?_⟩
  obtain ⟨r, there, rfl⟩ := List.mem_map.mp member
  exact conditionRun_sized (sound r there) p _

theorem conditionPath_sized {raw : List (RawPoint V)} (points : raw ≠ []) (p : ConditionParams) :
    (conditionPath raw p).1 ≠ [] ∧ ∀ run ∈ (conditionPath raw p).1, Sized run := by
  obtain ⟨some, sized⟩ := conditionedRuns_sized points p
  unfold conditionPath
  extract_lets runs long
  split
  · rename_i drops
    exact ⟨drops.2.1, fun run member => sized run (List.mem_filter.mp member).1⟩
  · exact ⟨some, sized⟩

/-! ### The stored mission -/

/-- `static_cast<uint8_t>` of a profile. -/
def Profile.toByte : Profile → UInt8
  | .segment => 0
  | .smooth => 1

/-- A flag or a must-hit mark. -/
def markByte (mark : Bool) : UInt8 := if mark then 1 else 0

/-- A run as `load_mission_impl` hands it to the artifact; `held` are the doubles that stand for the coordinates of a vertex. -/
def storedRun (held : V → Double × Double) (run : ConditionedRun V) : ConditionedRunArtifact where
  profile := run.profile.toByte
  points := run.pts.map held
  flags := (List.range run.pts.length).map fun i => markByte (run.flags.getD i false)
  mustHit := (List.range run.pts.length).map fun i => markByte (run.mustHit.getD i false)

theorem map_range_getD {l : List Bool} {n : ℕ} (length : l.length = n) :
    ((List.range n).map fun i => markByte (l.getD i false)) = l.map markByte := by
  refine List.ext_getElem (by rw [List.length_map, List.length_range, List.length_map, length]) fun i first second => ?_
  rw [List.length_map] at second
  rw [List.getElem_map, List.getElem_map, List.getElem_range, List.getD_eq_getElem _ _ second]

/-- The file holds the marks of the run. -/
structure StoresMarks (held : V → Double × Double) (run : ConditionedRun V) : Prop where
  flags : (storedRun held run).flags = run.flags.map markByte
  mustHit : (storedRun held run).mustHit = run.mustHit.map markByte

omit [Vertex V] in
theorem Sized.marks {run : ConditionedRun V} (sized : Sized run) (held : V → Double × Double) : StoresMarks held run :=
  ⟨map_range_getD sized.flags, map_range_getD sized.mustHit⟩

theorem markByte_le (mark : Bool) : markByte mark ≤ 1 := by
  cases mark <;> decide

omit [Vertex V] in
theorem Sized.storable {run : ConditionedRun V} (sized : Sized run) {held : V → Double × Double}
    (finite : ∀ v ∈ run.pts, (held v).1.isFinite = true ∧ (held v).2.isFinite = true) : Storable (storedRun held run) := by
  refine ⟨?_, ?_, ?_, ?_, ?_, ?_⟩
  · exact fun none => sized.some (List.map_eq_nil_iff.mp none)
  · simp only [storedRun, List.length_map, List.length_range]
  · simp only [storedRun, List.length_map, List.length_range]
  · simp only [storedRun]
    cases run.profile <;> decide
  · intro p member
    obtain ⟨v, there, rfl⟩ := List.mem_map.mp member
    exact finite v there
  · constructor
    · intro f member
      obtain ⟨i, -, rfl⟩ := List.mem_map.mp member
      exact markByte_le _
    · intro f member
      obtain ⟨i, -, rfl⟩ := List.mem_map.mp member
      exact markByte_le _

def storedArtifacts (held : V → Double × Double) (raw : List (RawPoint V)) (p : ConditionParams) : List ConditionedRunArtifact :=
  (conditionPath raw p).1.map (storedRun held)

/-- The bytes under which the node stores the mission. -/
def storedMission (print : Double → Bytes) (held : V → Double × Double) (source config : Bytes) (raw : List (RawPoint V))
    (p : ConditionParams) : Bytes :=
  serializeConditionedArtifact print source config (storedArtifacts held raw p)

section

variable {print : Double → Bytes} (word : ∀ x : Double, x.isFinite = true → IsWord (print x))
  (back : ∀ x : Double, x.isFinite = true → parseDouble (print x) = some x) {held : V → Double × Double}
  {raw : List (RawPoint V)} (points : raw ≠ []) (p : ConditionParams)
  (finite : ∀ run ∈ (conditionPath raw p).1, ∀ v ∈ run.pts, (held v).1.isFinite = true ∧ (held v).2.isFinite = true)
  {source config : Bytes} (hex : isLowerHex64 source = true) (printable : Printable config) (some : config ≠ [])
  (few : (conditionPath raw p).1.length ≤ kMaxRuns)

include points finite hex printable some few in
theorem storedArtifacts_ok : ConditionedOk source config (storedArtifacts held raw p) := by
  obtain ⟨runs, sized⟩ := conditionPath_sized points p
  refine ⟨hex, printable, some, ?_, ?_, ?_⟩
  · exact fun none => runs (List.map_eq_nil_iff.mp none)
  · rw [storedArtifacts, List.length_map]
    exact few
  · intro run member
    obtain ⟨r, there, rfl⟩ := List.mem_map.mp member
    exact (sized r there).storable (finite r there)

include word back points finite hex printable some few in
/-- Every conditioned mission is stored, and is read back as it was exactly when no run has more than ten million points. -/
theorem storedMission_reloads :
    (∀ run ∈ (conditionPath raw p).1, Sized run ∧ StoresMarks held run) ∧ storedMission print held source config raw p ≠ [] ∧
      (parseConditionedArtifact print (storedMission print held source config raw p)
          (sha256Hex (storedMission print held source config raw p)) = .ok
        { sha256 := sha256Hex (storedMission print held source config raw p), sourceSha256 := source, conditionerConfig := config
          runs := storedArtifacts held raw p } ↔
        ∀ run ∈ (conditionPath raw p).1, run.pts.length ≤ kMaxRunPoints) := by
  obtain ⟨-, sized⟩ := conditionPath_sized points p
  have ok := storedArtifacts_ok points p finite hex printable some few
  have text : storedMission print held source config raw p = conditionedText print source config (storedArtifacts held raw p) :=
    serialize_storable print hex printable ok.runs
  refine ⟨fun run member => ⟨sized run member, (sized run member).marks held⟩, ?_, ?_⟩
  · rw [text]
    exact conditionedText_ne_nil
  · rw [text]
    constructor
    · intro read run member
      by_contra long
      have failed := parseConditioned_long word back ok (.inr rfl)
        ⟨storedRun held run, List.mem_map_of_mem member, by simpa [storedRun] using long⟩
      rw [read] at failed
      cases failed
    · intro short
      refine parseConditioned_text word back ok (.inr rfl) fun run member => ?_
      obtain ⟨r, there, rfl⟩ := List.mem_map.mp member
      simpa [storedRun] using short r there

end

/-! ### A mission of any length -/

theorem keepMarks_hits {tol : ℝ} {must : V → Prop} [DecidablePred must] (last : V) (prev : Bool) {l : List (V × Bool)}
    (hits : ∀ v ∈ l, must v.1) : keepMarks tol must last prev l = List.replicate l.length true := by
  fun_induction keepMarks tol must last prev l with
  | case1 => rfl
  | case2 => rfl
  | case3 _ _ _ _ _ _ _ skip _ => exact absurd (hits _ List.mem_cons_self) skip.2.2
  | case4 _ _ _ _ _ _ _ _ ih =>
    rw [ih fun v member => hits v (List.mem_cons_of_mem _ member)]
    rfl

/-- A run of must-hit vertices that are apart is simplified to itself. -/
theorem simplifyForProfile_hits {r : PointRun V} (sound : Sound r) (far : r.pts.IsChain Far) {must : KeySet}
    (hits : ∀ v ∈ r.pts, ptKey v ∈ must) (tol : ℝ) : simplifyForProfile r.pts (some r.flags) tol 0 must = r := by
  obtain ⟨some, balanced⟩ := sound
  have fst : (r.pts.zip r.flags).map Prod.fst = r.pts := List.map_fst_zip (le_of_eq balanced.symm)
  have snd : (r.pts.zip r.flags).map Prod.snd = r.flags := List.map_snd_zip (le_of_eq balanced)
  obtain ⟨v, rest, zip⟩ : ∃ v rest, r.pts.zip r.flags = v :: rest := by
    apply List.exists_cons_of_ne_nil
    intro none
    rw [none] at fst
    exact some fst.symm
  have whole : PointRun.ofVerts (v :: rest) = r := by
    rw [← zip, PointRun.ofVerts, fst, snd]
  have apart : dropDuplicates v rest = v :: rest := dropDuplicates_of_far (by rw [← zip, fst]; exact far)
  have marks : ∀ w ∈ rest, ptKey w.1 ∈ must := by
    intro w member
    refine hits w.1 ?_
    rw [← fst, zip]
    exact List.mem_map_of_mem (List.mem_cons_of_mem _ member)
  unfold simplifyForProfile
  rw [flagsFor_of_length balanced, zip]
  dsimp only
  rw [apart, if_neg (lt_irrefl (0 : ℝ)), List.tail_cons, keepMarks_hits v.1 _ marks, ← List.replicate_succ]
  split
  · exact whole
  · rw [← List.length_cons, kept_all]
    exact whole

/-- Back and forth over a metre. -/
def stepPoint (i : ℕ) : Point := if i % 2 = 0 then ⟨0, 0⟩ else ⟨1, 0⟩

/-- `n` must-hit points of one spray run. -/
def stepPath (n : ℕ) : List (RawPoint Point) := (List.range n).map fun i => ⟨stepPoint i, 3⟩

def stepParams : ConditionParams where
  trackingProfile := "segment"
  segmentCornerThresholdDeg := 30
  connectorAbsorb := 0
  connectorMinCornerDeg := 0
  transitMergeMaxLen := 0
  segmentSimplifyMaxOffset := 0
  cornerSmoothRadius := 0
  cornerSmoothArcPts := 0
  pathResampleSpacing := 0
  closeLoopThreshold := 0
  closeLoopMinLen := 0

theorem stepPoint_far (i : ℕ) : Far (stepPoint i) (stepPoint (i + 1)) := by
  have metre : hypot (⟨0, 0⟩ : Point) ⟨1, 0⟩ = 1 := by
    rw [hypot_north (by norm_num)]
    norm_num
  unfold Far stepPoint
  rcases Nat.mod_two_eq_zero_or_one i with even | odd
  · rw [if_pos even, if_neg (by omega), metre]
    norm_num
  · rw [if_neg (by omega), if_pos (by omega), hypot_comm, metre]
    norm_num

theorem stepPath_chain (n : ℕ) : ((stepPath n).map RawPoint.vertex).IsChain Far := by
  have same : (stepPath n).map RawPoint.vertex = (List.range n).map stepPoint := by
    rw [stepPath, List.map_map]
    rfl
  rw [same, List.isChain_map]
  cases n with
  | zero => exact .nil
  | succ n => exact (List.isChain_range_succ _ _).mpr fun i _ => stepPoint_far i

theorem stepPath_hits (n : ℕ) : ∀ v ∈ (stepPath n).map RawPoint.vertex, ptKey v ∈ mustHitKeys (stepPath n) := by
  intro v member
  obtain ⟨r, there, rfl⟩ := List.mem_map.mp member
  rw [mustHitKeys, List.mem_toFinset]
  refine List.mem_map_of_mem (List.mem_filter.mpr ⟨there, ?_⟩)
  obtain ⟨i, -, rfl⟩ := List.mem_map.mp there
  exact (by decide : (3 : BitVec 32) &&& 2 ≠ 0) |> decide_eq_true

theorem stepPath_run {n : ℕ} (some : stepPath n ≠ []) : ∃ run, (conditionPath (stepPath n) stepParams).1 = [run] ∧
    run.pts = (stepPath n).map RawPoint.vertex := by
  have segment : normalizeTrackingProfile stepParams.trackingProfile = .segment := by decide
  have sound : Sound ⟨(stepPath n).map RawPoint.vertex, (stepPath n).map RawPoint.spray⟩ :=
    ⟨by simpa using some, by rw [Balanced, List.length_map, List.length_map]⟩
  have runs : conditionedRuns (stepPath n) stepParams = [conditionRun stepParams (mustHitKeys (stepPath n))
      ⟨(stepPath n).map RawPoint.vertex, (stepPath n).map RawPoint.spray⟩] := by
    rw [conditionedRuns, if_neg some]
    dsimp only
    rw [rawRuns, segment, if_neg (by decide)]
    rfl
  refine ⟨conditionRun stepParams (mustHitKeys (stepPath n)) ⟨(stepPath n).map RawPoint.vertex, (stepPath n).map RawPoint.spray⟩, ?_, ?_⟩
  · rw [conditionPath, runs]
    rfl
  · have profile : profileOf stepParams ((stepPath n).map RawPoint.vertex) = .segment := by rw [profileOf, segment]
    rw [conditionRun_pts, conditionVerts, profile]
    exact congrArg PointRun.pts (simplifyForProfile_hits sound (stepPath_chain n) (stepPath_hits n) 5.0)

def one : Double := ⟨false, 1023 * 2 ^ 52, by decide⟩

/-- 17 digits, for the coordinates of these paths as `operator<<` writes them. -/
def printStep (x : Double) : Bytes := if x = .zero false then ['0'] else if x = one then ['1'] else pythonRepr x

open Classical in
def heldStep (p : Point) : Double × Double := (if p.n = 0 then .zero false else one, .zero false)

theorem printStep_word (x : Double) (finite : x.isFinite = true) : IsWord (printStep x) := by
  unfold printStep
  split_ifs
  · decide
  · decide
  · exact pythonRepr_word finite

theorem printStep_back (x : Double) (finite : x.isFinite = true) : parseDouble (printStep x) = some x := by
  unfold printStep
  split_ifs with zero unit
  · rw [zero]
    decide +kernel
  · rw [unit]
    decide +kernel
  · have read := strtod_repr finite
    rw [← pythonRepr_eq finite] at read
    have some : pythonRepr x ≠ [] := by
      rw [pythonRepr_eq finite]
      exact pyRepr_ne_nil finite
    rw [parseDouble, if_neg some, read]
    exact if_pos finite

theorem heldStep_finite (p : Point) : (heldStep p).1.isFinite = true ∧ (heldStep p).2.isFinite = true := by
  unfold heldStep
  split_ifs <;> exact ⟨by decide, by decide⟩

def stepSource : Bytes := List.replicate 64 'a'

def stepConfig : Bytes := "tracking_profile=segment".toList

theorem stepPath_few {n : ℕ} (some : stepPath n ≠ []) : (conditionPath (stepPath n) stepParams).1.length ≤ kMaxRuns := by
  obtain ⟨run, runs, -⟩ := stepPath_run some
  rw [runs, List.length_singleton]
  decide

theorem storedMission_reloads_step :
    parseConditionedArtifact printStep (storedMission printStep heldStep stepSource stepConfig (stepPath 2) stepParams)
        (sha256Hex (storedMission printStep heldStep stepSource stepConfig (stepPath 2) stepParams)) = .ok
      { sha256 := sha256Hex (storedMission printStep heldStep stepSource stepConfig (stepPath 2) stepParams)
        sourceSha256 := stepSource, conditionerConfig := stepConfig, runs := storedArtifacts heldStep (stepPath 2) stepParams } := by
  have some : stepPath 2 ≠ [] := List.cons_ne_nil _ _
  obtain ⟨run, runs, pts⟩ := stepPath_run some
  refine (storedMission_reloads printStep_word printStep_back some stepParams (fun _ _ v _ => heldStep_finite v) (by decide) (by decide)
    (by decide) (stepPath_few some)).2.2.mpr fun other member => ?_
  rw [runs, List.mem_singleton] at member
  rw [member, pts]
  decide

/-- A run of ten million and one points is written, and not read again. -/
theorem storedMission_not_reloads :
    ¬ ∀ {print : Double → Bytes}, (∀ x : Double, x.isFinite = true → IsWord (print x)) →
      (∀ x : Double, x.isFinite = true → parseDouble (print x) = some x) → ∀ {held : Point → Double × Double}
      {raw : List (RawPoint Point)}, raw ≠ [] → ∀ p : ConditionParams,
      (∀ run ∈ (conditionPath raw p).1, ∀ v ∈ run.pts, (held v).1.isFinite = true ∧ (held v).2.isFinite = true) →
      ∀ {source config : Bytes}, isLowerHex64 source = true → Printable config → config ≠ [] →
      (conditionPath raw p).1.length ≤ kMaxRuns →
      parseConditionedArtifact print (storedMission print held source config raw p)
          (sha256Hex (storedMission print held source config raw p)) = .ok
        { sha256 := sha256Hex (storedMission print held source config raw p), sourceSha256 := source, conditionerConfig := config
          runs := storedArtifacts held raw p } := by
  intro claim
  obtain ⟨n, many⟩ : ∃ n, kMaxRunPoints < n := exists_gt kMaxRunPoints
  have some : stepPath n ≠ [] := by
    apply List.ne_nil_of_length_pos
    rw [stepPath, List.length_map, List.length_range]
    omega
  obtain ⟨run, runs, pts⟩ := stepPath_run some
  have finite : ∀ r ∈ (conditionPath (stepPath n) stepParams).1, ∀ v ∈ r.pts,
      (heldStep v).1.isFinite = true ∧ (heldStep v).2.isFinite = true := fun _ _ v _ => heldStep_finite v
  have hex : isLowerHex64 stepSource = true := by decide
  have printable : Printable stepConfig := by decide
  have config : stepConfig ≠ [] := by decide
  have few := stepPath_few some
  have read := claim printStep_word printStep_back some stepParams finite hex printable config few
  have ok := storedArtifacts_ok some stepParams finite hex printable config few
  have written : storedMission printStep heldStep stepSource stepConfig (stepPath n) stepParams =
      conditionedText printStep stepSource stepConfig (storedArtifacts heldStep (stepPath n) stepParams) :=
    serialize_storable printStep hex printable ok.runs
  have long : kMaxRunPoints < (storedRun heldStep run).points.length := by
    rw [storedRun, List.length_map, pts, List.length_map, stepPath, List.length_map, List.length_range]
    exact many
  have failed := parseConditioned_long printStep_word printStep_back ok (.inr rfl)
    ⟨storedRun heldStep run, List.mem_map_of_mem (by rw [runs]; exact List.mem_singleton_self run), long⟩
  rw [← written, read] at failed
  cases failed

end

end Dyx3.Rpp
