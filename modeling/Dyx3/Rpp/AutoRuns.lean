import Dyx3.Rpp.CornerSplits
import Dyx3.Rpp.ErrorBound
import Dyx3.Rpp.JoinedRuns
import Dyx3.Geometry.Resampled

/-!
The runs that `condition_path` conditions, and their ends: absorption, corner splitting and merging keep the runs joined
in exact points, and conditioning keeps where a run starts and ends.
-/

namespace Dyx3.Rpp

noncomputable section

open Geometry Lib

/-! ### The raw runs -/

section Parts

variable {V : Type*}

/-- The run cut into runs that meet. -/
structure Parts (r : PointRun V) (pieces : List (PointRun V)) : Prop where
  some : pieces ≠ []
  chain : pieces.IsChain Meets
  first : ∀ c ∈ pieces.head?, c.pts.head? = r.pts.head?
  last : ∀ c ∈ pieces.getLast?, c.pts.getLast? = r.pts.getLast?

theorem flatMap_meets {runs : List (PointRun V)} {f : PointRun V → List (PointRun V)} (chain : runs.IsChain Meets)
    (parts : ∀ r ∈ runs, Parts r (f r)) : (runs.flatMap f).IsChain Meets := by
  induction runs with
  | nil => exact .nil
  | cons r runs ih =>
    obtain ⟨here, others⟩ := List.forall_mem_cons.mp parts
    rw [List.flatMap_cons]
    refine List.isChain_append.mpr ⟨here.chain, ih chain.tail others, fun c last d head => ?_⟩
    cases runs with
    | nil => cases head
    | cons next runs =>
      obtain ⟨⟨v, ends, starts⟩, -⟩ := List.isChain_cons_cons.mp chain
      obtain ⟨e, rest, pieces⟩ := List.exists_cons_of_ne_nil (others next List.mem_cons_self).some
      have first := (others next List.mem_cons_self).first
      rw [pieces] at first
      rw [List.flatMap_cons, pieces] at head
      obtain rfl := Option.some.inj head
      exact ⟨v, (here.last c last).trans ends, (first e rfl).trans starts⟩

theorem Balanced.slice {r : PointRun V} (balanced : Balanced r) (lo hi : ℕ) : Balanced (r.slice lo hi) := by
  unfold Balanced at balanced ⊢
  simp only [PointRun.slice, Rpp.slice, List.length_drop, List.length_take, balanced]

variable [Vertex V]

/-- A run of the conditioner: some vertices, and a flag for each. -/
def Sound (r : PointRun V) : Prop := r.pts ≠ [] ∧ Balanced r

theorem splitRunAtCorners_sound {r : PointRun V} (sound : Sound r) (thresholdDeg : ℝ) :
    ∀ c ∈ splitRunAtCorners r.pts r.flags thresholdDeg, Balanced c := by
  obtain ⟨joints, cut, -⟩ := splitRunAtCorners_joints sound.2 thresholdDeg
  intro c member
  rw [cut.slices] at member
  obtain ⟨s, -, rfl⟩ := List.mem_map.mp member
  exact Balanced.slice (r := ⟨r.pts, r.flags⟩) sound.2 _ _

/-- A run of one vertex is not split. -/
theorem splitRunAtCorners_single {r : PointRun V} (short : r.pts.length < 2) (thresholdDeg : ℝ) :
    splitRunAtCorners r.pts r.flags thresholdDeg = [r] := by
  have none : cornersOf thresholdDeg (simplifyForProfile r.pts Option.none).pts = [] := by
    have inner := (cornersOf_sublist thresholdDeg (simplifyForProfile r.pts Option.none).pts).length_le
    have size := (simplifyForProfile_sublist r.pts Option.none 5.0 0 ∅).length_le
    rw [List.length_dropLast, List.length_tail] at inner
    exact List.eq_nil_of_length_eq_zero (by omega)
  rw [splitRunAtCorners]
  simp only [none, if_true]

theorem splitRunAtCorners_parts {r : PointRun V} (sound : Sound r) (thresholdDeg : ℝ) :
    Parts r (splitRunAtCorners r.pts r.flags thresholdDeg) ∧
      (∀ c ∈ splitRunAtCorners r.pts r.flags thresholdDeg, Sound c) ∧
      ∀ v ∈ r.pts, ∃ c ∈ splitRunAtCorners r.pts r.flags thresholdDeg, v ∈ c.pts := by
  have balanced := splitRunAtCorners_sound sound thresholdDeg
  rcases Nat.lt_or_ge r.pts.length 2 with short | long
  · rw [splitRunAtCorners_single short]
    refine ⟨⟨by simp, .singleton r, by simp, by simp⟩, ?_, fun v member => ⟨r, List.mem_singleton_self r, member⟩⟩
    exact fun c member => List.mem_singleton.mp member ▸ sound
  · have pieces := splitRunAtCorners_pieces long r.flags thresholdDeg
    generalize splitRunAtCorners r.pts r.flags thresholdDeg = cs at balanced pieces
    refine ⟨⟨?_, ?_, fun c head => ?_, fun c last => ?_⟩, fun c member => ⟨?_, balanced c member⟩, fun v member => ?_⟩
    · simpa using pieces.ne_nil
    · exact (List.isChain_map PointRun.pts).mp pieces.isChain
    · cases cs with
      | nil => cases head
      | cons d cs =>
        obtain rfl := Option.some.inj head
        exact pieces.head
    · have final := pieces.last
      rw [List.getLast?_map, last] at final
      exact final
    · have size := pieces.long_of_mem (List.mem_map_of_mem member)
      exact List.ne_nil_of_length_pos (by omega)
    · obtain ⟨p, there, inside⟩ := pieces.covers v member
      obtain ⟨c, member, rfl⟩ := List.mem_map.mp there
      exact ⟨c, member, inside⟩

theorem Sound.extend {r c : PointRun V} (hr : Sound r) (hc : Sound c) : Sound (r.extend c) := by
  refine ⟨?_, hr.2.extend hc.2⟩
  unfold PointRun.extend
  exact List.append_ne_nil_of_left_ne_nil hr.1 _

theorem mergeCollinearRuns_sound {runs : List (PointRun V)} (sound : ∀ r ∈ runs, Sound r) (thresholdDeg maxLen : ℝ) :
    ∀ r ∈ mergeCollinearRuns runs thresholdDeg maxLen, Sound r := by
  cases runs with
  | nil => simp [mergeCollinearRuns]
  | cons r rs =>
    obtain ⟨first, others⟩ := List.forall_mem_cons.mp sound
    exact fun c member => mergeFrom_forall (fun _ _ => Sound.extend) first others member

omit [Vertex V] in
theorem SplitExactly.sound {pts : List V} {flags : List Bool} {runs : List (PointRun V)} (split : SplitExactly pts flags runs) :
    ∀ r ∈ runs, Sound r := by
  obtain ⟨marks, -, all⟩ := split.uniform
  clear split
  induction all with
  | nil => simp
  | cons own _ ih => exact List.forall_mem_cons.mpr ⟨⟨own.1, own.2.balanced⟩, ih⟩

/-- What `condition_path` makes of one run of `split_runs_by_flag`. -/
def autoPieces (p : ConditionParams) (must : KeySet) (run : PointRun V) : List (PointRun V) :=
  let absorbed := absorbShortConnectors run.pts run.flags p.connectorAbsorb p.connectorMinCornerDeg must
  splitRunAtCorners absorbed.pts absorbed.flags p.segmentCornerThresholdDeg

theorem autoRuns_eq (p : ConditionParams) (must : KeySet) (pts : List V) (flags : List Bool) :
    autoRuns p must pts flags =
      mergeCollinearRuns ((splitRunsByFlag pts flags).flatMap (autoPieces p must)) p.segmentCornerThresholdDeg p.transitMergeMaxLen := rfl

theorem absorbShortConnectors_sound {r : PointRun V} (sound : Sound r) (connectorAbsorb minCornerDeg : ℝ) (must : KeySet) :
    Sound (absorbShortConnectors r.pts r.flags connectorAbsorb minCornerDeg must) ∧
      (absorbShortConnectors r.pts r.flags connectorAbsorb minCornerDeg must).pts.head? = r.pts.head? ∧
      (absorbShortConnectors r.pts r.flags connectorAbsorb minCornerDeg must).pts.getLast? = r.pts.getLast? := by
  have absorbed := absorbShortConnectors_edits sound.2 connectorAbsorb minCornerDeg must
  refine ⟨⟨fun none => sound.1 ?_, absorbed.balanced⟩, absorbed.first, absorbed.last⟩
  have first := absorbed.first
  rw [none] at first
  exact List.head?_eq_none_iff.mp first.symm

theorem autoPieces_parts {r : PointRun V} (sound : Sound r) (p : ConditionParams) (must : KeySet) :
    Parts r (autoPieces p must r) ∧ ∀ c ∈ autoPieces p must r, Sound c := by
  obtain ⟨whole, first, last⟩ := absorbShortConnectors_sound sound p.connectorAbsorb p.connectorMinCornerDeg must
  obtain ⟨parts, pieces, -⟩ := splitRunAtCorners_parts whole p.segmentCornerThresholdDeg
  exact ⟨⟨parts.some, parts.chain, fun c head => (parts.first c head).trans first, fun c final => (parts.last c final).trans last⟩, pieces⟩

/-- The raw runs meet in exact points. -/
theorem rawRuns_meet {pts : List V} {flags : List Bool} (some : pts ≠ []) (balanced : flags.length = pts.length) (p : ConditionParams)
    (must : KeySet) : (rawRuns p must pts flags).IsChain Meets ∧ ∀ r ∈ rawRuns p must pts flags, Sound r := by
  unfold rawRuns
  split
  · have split := splitRunsByFlag_exactly some balanced
    rw [autoRuns_eq]
    have chain := flatMap_meets split.chain fun r member => (autoPieces_parts (split.sound r member) p must).1
    refine ⟨(mergeCollinearRuns_exactly chain _ _).chain, mergeCollinearRuns_sound (fun c member => ?_) _ _⟩
    obtain ⟨r, there, inside⟩ := List.mem_flatMap.mp member
    exact (autoPieces_parts (split.sound r there) p must).2 c inside
  · exact ⟨.singleton _, fun r member => List.mem_singleton.mp member ▸ ⟨some, balanced⟩⟩

end Parts

/-! ### The marks of a simplification -/

section Kept

variable {α : Type*}

theorem kept_last {l : List α} {keep : List Bool} {x : α} (last : l.getLast? = some x) (size : keep.length = l.length)
    (mark : keep[l.length - 1]? = some true) : (kept l keep).getLast? = some x := by
  induction l generalizing keep with
  | nil => cases last
  | cons y l ih =>
    cases keep with
    | nil => simp at size
    | cons k keep =>
      cases l with
      | nil =>
        obtain rfl : k = true := by simpa using mark
        simpa [kept] using last
      | cons z l =>
        rw [List.getLast?_cons_cons] at last
        have later := ih last (by simpa using size) (by simpa using mark)
        rw [kept]
        split
        · rw [List.getLast?_cons, later]
          rfl
        · exact later

end Kept

section Ends

variable {V : Type*} [Vertex V]

/-- What is left of a run without its duplicates ends within a micrometre of its end. -/
theorem dropDuplicates_last (v : V × Bool) (rest : List (V × Bool)) :
    ∃ w ∈ (dropDuplicates v rest).getLast?, hypot w.1 (rest.getLastD v).1 < 1e-6 := by
  induction rest generalizing v with
  | nil =>
    refine ⟨v, rfl, ?_⟩
    show hypot v.1 v.1 < 1e-6
    rw [hypot_self]
    norm_num
  | cons w rest ih =>
    rw [dropDuplicates, List.getLastD_cons]
    split
    · rename_i near
      obtain ⟨x, last, close⟩ := ih (v.1, v.2 || w.2)
      refine ⟨x, last, ?_⟩
      cases rest with
      | nil =>
        obtain rfl : (v.1, v.2 || w.2) = x := Option.some.inj last
        exact near
      | cons y rest => exact close
    · obtain ⟨x, last, close⟩ := ih w
      refine ⟨x, ?_, close⟩
      obtain ⟨f, l, starts⟩ := dropDuplicates_starts w rest
      rw [starts] at last ⊢
      exact last

/-- What simplification keeps of the run without its duplicates: its ends and its must-hit vertices. -/
theorem simplifyForProfile_marks (pts : List V) (flags : Option (List Bool)) (tolDeg maxOffset : ℝ) (must : KeySet) :
    ∃ keep, simplifyForProfile pts flags tolDeg maxOffset must = .ofVerts (kept (deduplicated pts flags) keep) ∧
      keep.length = (deduplicated pts flags).length ∧
      (∀ i < (deduplicated pts flags).length, i = 0 ∨ i + 1 = (deduplicated pts flags).length → keep[i]? = some true) ∧
      ∀ (i : ℕ) (v : V × Bool), (deduplicated pts flags)[i]? = some v → ptKey v.1 ∈ must → keep[i]? = some true := by
  unfold simplifyForProfile deduplicated
  cases pts.zip (flagsFor pts flags) with
  | nil => exact ⟨[], rfl, rfl, by simp, by simp⟩
  | cons v rest =>
    simp only
    generalize dropDuplicates v rest = verts
    split
    · refine ⟨List.replicate verts.length true, by rw [kept_all], List.length_replicate, fun i inside _ => ?_, fun i w vertex _ => ?_⟩
      · rw [List.getElem?_replicate, if_pos inside]
      · rw [List.getElem?_replicate, if_pos (List.getElem?_eq_some_iff.mp vertex).1]
    · rename_i long
      have inner : 2 ≤ verts.length := by omega
      obtain ⟨wide, last, hit⟩ := keepMarks_anchors (radians tolDeg) must v inner
      have first : (true :: keepMarks (radians tolDeg) (ptKey · ∈ must) v.1 (verts.headD v).2 verts.tail)[0]? = some true := rfl
      generalize true :: keepMarks (radians tolDeg) (ptKey · ∈ must) v.1 (verts.headD v).2 verts.tail = marks at wide last hit first ⊢
      have more : MarksKept marks (if 0 < maxOffset then dpAnchors (verts.map Prod.fst) maxOffset marks else marks) := by
        split
        · exact dpAnchors_kept _ _ _
        · exact .refl _
      refine ⟨_, rfl, more.1.trans wide, fun i inside outer => more.2 i ?_, fun i w vertex member => more.2 i (hit i w vertex member)⟩
      rcases outer with rfl | final
      · exact first
      · rwa [show i = verts.length - 1 by omega]

theorem simplifyForProfile_ends {r : PointRun V} (sound : Sound r) (tolDeg maxOffset : ℝ) (must : KeySet) :
    (simplifyForProfile r.pts (some r.flags) tolDeg maxOffset must).pts.head? = r.pts.head? ∧
      ∃ q ∈ (simplifyForProfile r.pts (some r.flags) tolDeg maxOffset must).pts.getLast?, ∃ p ∈ r.pts.getLast?, hypot q p < 1e-6 := by
  obtain ⟨some, balanced⟩ := sound
  obtain ⟨keep, same, size, ends, -⟩ := simplifyForProfile_marks r.pts (.some r.flags) tolDeg maxOffset must
  obtain ⟨v, rest, zip⟩ : ∃ v rest, r.pts.zip r.flags = v :: rest := by
    apply List.exists_cons_of_ne_nil
    intro none
    have short := congrArg List.length none
    rw [List.length_zip, balanced, min_self] at short
    exact some (List.eq_nil_of_length_eq_zero short)
  have points : r.pts = (v :: rest).map Prod.fst := by rw [← zip, List.map_fst_zip balanced.ge]
  have dedup : deduplicated r.pts (.some r.flags) = dropDuplicates v rest := by
    rw [deduplicated, flagsFor_of_length balanced, zip]
  obtain ⟨f, l, starts⟩ := dropDuplicates_starts v rest
  obtain ⟨w, last, near⟩ := dropDuplicates_last v rest
  rw [dedup] at same size ends
  have positive : 0 < (dropDuplicates v rest).length := by rw [starts]; simp
  have first := ends 0 positive (.inl rfl)
  have final := ends ((dropDuplicates v rest).length - 1) (by omega) (.inr (by omega))
  rw [same, PointRun.pts_ofVerts, points]
  refine ⟨?_, w.1, ?_, (rest.getLastD v).1, ?_, near⟩
  · rw [starts]
    cases keep with
    | nil => simp at first
    | cons k keep =>
      obtain rfl : k = true := by simpa using first
      simp [kept]
  · rw [List.getLast?_map, kept_last last size final]
    rfl
  · rw [List.getLast?_map, List.getLast?_cons, Option.map_some, List.getLastD_eq_getLast?]
    rfl

theorem smoothFrom_last (radius : ℝ) (arcPts : ℕ) (must : KeySet) (prev : V × Bool) {l : List (V × Bool)} (some : l ≠ []) :
    (smoothFrom radius arcPts must prev l).getLast? = l.getLast? := by
  induction l generalizing prev with
  | nil => exact absurd rfl some
  | cons v l ih =>
    cases l with
    | nil => rfl
    | cons next l =>
      rw [smoothFrom, List.getLast?_append, ih v (by simp), List.getLast?_cons_cons, List.getLast?_cons]
      rfl

/-- Smoothing keeps the ends. -/
theorem smoothCorners_ends {r : PointRun V} (sound : Sound r) (radius : ℝ) (arcPts : ℕ) (must : KeySet) :
    Sound (smoothCorners r.pts radius arcPts (some r.flags) must) ∧
      (smoothCorners r.pts radius arcPts (some r.flags) must).pts.head? = r.pts.head? ∧
      (smoothCorners r.pts radius arcPts (some r.flags) must).pts.getLast? = r.pts.getLast? := by
  obtain ⟨some, balanced⟩ := sound
  unfold smoothCorners
  rw [flagsFor_of_length balanced]
  split
  · exact ⟨⟨some, balanced⟩, rfl, rfl⟩
  · rename_i long
    have points : (r.pts.zip r.flags).map Prod.fst = r.pts := List.map_fst_zip balanced.ge
    cases zip : r.pts.zip r.flags with
    | nil =>
      rw [zip] at points
      exact absurd points.symm some
    | cons v rest =>
      rw [zip] at points
      have later : rest ≠ [] := by
        rintro rfl
        rw [← points] at long
        simp at long
      have last := smoothFrom_last radius arcPts must v later
      simp only [zip]
      refine ⟨⟨by simp, by simp [Balanced]⟩, ?_, ?_⟩
      · rw [← points]
        rfl
      · rw [← points, PointRun.pts_ofVerts, List.getLast?_map, List.getLast?_map, List.getLast?_cons, last, List.getLast?_cons]

/-- Resampling keeps the last vertex, and the first unless it leaves one alone. -/
theorem resampleFixed_ends {r : PointRun V} (sound : Sound r) (long : 2 ≤ r.pts.length) {spacing : ℝ} (positive : 0 < spacing)
    (fixed : List ℕ) :
    Sound ⟨(resampleFixed r.pts spacing (some r.flags) fixed).1, (resampleFixed r.pts spacing (some r.flags) fixed).2⟩ ∧
      ((resampleFixed r.pts spacing (some r.flags) fixed).1.length ≠ 1 →
        (resampleFixed r.pts spacing (some r.flags) fixed).1.head? = r.pts.head?) ∧
      (resampleFixed r.pts spacing (some r.flags) fixed).1.getLast? = r.pts.getLast? := by
  obtain ⟨some, balanced⟩ := sound
  obtain ⟨pts, flags⟩ := r
  match pts, long with
  | first :: second :: rest, _ =>
    rcases Nat.lt_or_ge kResampleMaxSamples (wanted (first :: second :: rest) spacing fixed) with many | few
    · rw [resampleFixed_beyond positive (.some flags) many, flagsFor_of_length balanced]
      exact ⟨⟨some, balanced⟩, fun _ => rfl, rfl⟩
    · obtain ⟨samples, resampled⟩ := resampleFixed_within positive (.some flags) few
      have last : (first :: second :: rest).getLast? = .some ((first :: second :: rest).getD (rest.length + 1) first) := by
        rw [List.getLast?_eq_getElem?, List.getD_eq_getElem?_getD, List.length_cons, List.length_cons]
        rw [show rest.length + 1 + 1 - 1 = rest.length + 1 by omega]
        rw [List.getElem?_eq_getElem (by simp)]
        rfl
      have nonempty : samples ≠ [] := by
        rintro rfl
        cases resampled.ends
      refine ⟨⟨?_, ?_⟩, fun several => ?_, ?_⟩
      · simpa [resampled.points] using nonempty
      · simp only [Balanced, resampled.points, resampled.flags, List.length_map]
      · rw [resampled.points] at several ⊢
        rcases resampled.start with head | ⟨alone, -⟩
        · rw [List.head?_map, head]
          rfl
        · simp [alone] at several
      · rw [resampled.points, List.getLast?_map, resampled.ends, last]
        rfl

/-- Conditioning a run keeps where it starts, unless one vertex is left, and where it ends within a micrometre. -/
theorem conditionVerts_ends {r : PointRun V} (sound : Sound r) (p : ConditionParams) (must : KeySet) :
    Sound (conditionVerts p must r) ∧
      ((conditionVerts p must r).pts.length ≠ 1 → (conditionVerts p must r).pts.head? = r.pts.head?) ∧
      ∃ q ∈ (conditionVerts p must r).pts.getLast?, ∃ q' ∈ r.pts.getLast?, hypot q q' < 1e-6 := by
  have same : ∀ c : PointRun V, c.pts.getLast? = r.pts.getLast? → ∃ q ∈ c.pts.getLast?, ∃ q' ∈ r.pts.getLast?, hypot q q' < 1e-6 := by
    intro c last
    refine ⟨r.pts.getLast sound.1, ?_, r.pts.getLast sound.1, List.getLast?_eq_some_getLast sound.1, ?_⟩
    · rw [last]
      exact List.getLast?_eq_some_getLast sound.1
    · rw [hypot_self]
      norm_num
  unfold conditionVerts
  split
  · obtain ⟨head, last⟩ := simplifyForProfile_ends sound 5.0 p.segmentSimplifyMaxOffset must
    refine ⟨⟨fun none => sound.1 ?_, simplifyForProfile_balanced _ _ _ _ _⟩, fun _ => head, last⟩
    rw [none] at head
    exact List.head?_eq_none_iff.mp head.symm
  · unfold conditionSmooth
    extract_lets c fixed rs
    obtain ⟨whole, first, last⟩ : Sound c ∧ c.pts.head? = r.pts.head? ∧ c.pts.getLast? = r.pts.getLast? := by
      unfold c
      split
      · exact smoothCorners_ends sound _ _ must
      · exact ⟨sound, rfl, rfl⟩
    split
    · rename_i resamples
      obtain ⟨sampled, head, final⟩ := resampleFixed_ends whole resamples.2 resamples.1 fixed
      exact ⟨sampled, fun several => (head several).trans first, same ⟨rs.1, rs.2⟩ (final.trans last)⟩
    · exact ⟨whole, fun _ => first, same c last⟩

end Ends

/-! ### Runs of two vertices -/

section Pair

variable {V : Type*} [Vertex V] {a b c : V}

theorem simplifyForProfile_pair (far : Far a b) (flags : Option (List Bool)) (tol offset : ℝ) (must : KeySet) :
    (simplifyForProfile [a, b] flags tol offset must).pts = [a, b] := by
  have two : ∃ f g, [a, b].zip (flagsFor [a, b] flags) = [(a, f), (b, g)] := by
    match flags with
    | some [f, g] => exact ⟨f, g, rfl⟩
    | none | some [] | some [_] | some (_ :: _ :: _ :: _) => exact ⟨false, false, by simp [flagsFor]⟩
  obtain ⟨f, g, two⟩ := two
  simp only [simplifyForProfile, two, dropDuplicates, if_neg (not_lt.mpr far)]
  simp

theorem classifyAutoProfile_pair (far : Far a b) (threshold : ℝ) : classifyAutoProfile [a, b] threshold = .segment := by
  simp only [classifyAutoProfile, simplifyForProfile_pair far]
  simp

theorem splitRunAtCorners_pair (far : Far a b) (flags : List Bool) (threshold : ℝ) :
    splitRunAtCorners [a, b] flags threshold = [⟨[a, b], flags⟩] := by
  simp only [splitRunAtCorners, simplifyForProfile_pair far, cornersOf, if_true]

theorem mergeable_pair (far : Far a b) (far' : Far b c) (flags flags' : List Bool) (threshold maxLen : ℝ) :
    mergeable threshold maxLen ⟨[a, b], flags⟩ ⟨[b, c], flags'⟩ =
      decide (degrees (headingDelta (segmentHeading a b) (segmentHeading b c)) < threshold) := by
  simp only [mergeable, classifyAutoProfile_pair far, classifyAutoProfile_pair far', decide_true, Bool.true_or,
    Bool.true_and, runsCollinear, List.getLast?_cons_cons, List.getLast?_singleton, List.head?_cons, hypot_self,
    simplifyForProfile_pair far, simplifyForProfile_pair far', List.reverse_cons, List.reverse_nil, List.nil_append,
    List.cons_append]
  norm_num

end Pair

end

end Dyx3.Rpp
