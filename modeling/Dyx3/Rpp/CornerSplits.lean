import Mathlib.Data.List.Sort
import Dyx3.Rpp.Absorbed
import Dyx3.Rpp.ErrorBound
import Dyx3.Rpp.Labels

/-!
`split_run_at_corners`: the corners of the simplified run are looked for in the run by their coordinates.

The search is in order and takes the first vertex that fits, which need not be the corner on a path that visits a
place twice.
-/

namespace Dyx3.Rpp

noncomputable section

open Geometry Real

variable {V : Type*} [Vertex V]

/-- Where the corners of the simplified run are in the run. -/
def cornerIndices (thresholdDeg : ℝ) (pts : List V) : List ℕ :=
  (cornersOf thresholdDeg (simplifyForProfile pts.zipIdx none).pts).map Prod.snd

/-- From `start` on, and after each corner, the next corner is the first vertex with its coordinates. -/
def FoundFirst (pts : List V) : ℕ → List ℕ → Prop
  | _, [] => True
  | start, i :: rest => (∀ j, start ≤ j → j < i → ∀ p ∈ pts[j]?, ∀ q ∈ pts[i]?, ¬same p q) ∧ FoundFirst pts (i + 1) rest

/-- The pieces are the slices of the run between its ends and the joints. -/
structure CutAtJoints (r : PointRun V) (joints : List ℕ) (pieces : List (PointRun V)) : Prop where
  ordered : joints.Pairwise (· < ·)
  inside : ∀ i ∈ joints, 0 < i ∧ i + 1 < r.pts.length
  slices : pieces = ((0 :: joints).zip (joints ++ [r.pts.length - 1])).map fun s => r.slice s.1 (s.2 + 1)

/-! ### The corners in the run -/

theorem cornersOf_sublist (thresholdDeg : ℝ) (l : List V) : (cornersOf thresholdDeg l).Sublist l.tail.dropLast := by
  fun_induction cornersOf thresholdDeg l with
  | case1 a b c rest _ ih =>
    rw [List.tail_cons, List.dropLast_cons_cons]
    exact ih.cons_cons b
  | case2 a b c rest _ ih =>
    rw [List.tail_cons, List.dropLast_cons_cons]
    exact ih.cons b
  | case3 => exact List.nil_sublist _

theorem between_of_mem {l : List ℕ} (ordered : l.Pairwise (· < ·)) {i : ℕ} (member : i ∈ l.tail.dropLast) :
    ∃ a ∈ l, ∃ b ∈ l, a < i ∧ i < b := by
  cases l with
  | nil => simp at member
  | cons a rest =>
    obtain ⟨first, later⟩ := List.pairwise_cons.mp ordered
    rw [List.tail_cons] at member
    have some : rest ≠ [] := by
      rintro rfl
      simp at member
    have whole : rest.dropLast ++ [rest.getLast some] = rest := List.dropLast_append_getLast some
    rw [← whole] at later
    refine ⟨a, List.mem_cons_self, rest.getLast some, List.mem_cons_of_mem _ (List.getLast_mem some), ?_, ?_⟩
    · exact first i (List.mem_of_mem_dropLast member)
    · exact (List.pairwise_append.mp later).2.2 i member _ (List.mem_singleton_self _)

/-- The corners by their indices. -/
structure CornersAt (pts : List V) (indices : List ℕ) (corners : List V) : Prop where
  ordered : indices.Pairwise (· < ·)
  inside : ∀ i ∈ indices, 0 < i ∧ i + 1 < pts.length
  places : indices.map (fun i => pts[i]?) = corners.map some

theorem cornersAt (thresholdDeg : ℝ) (pts : List V) :
    CornersAt pts (cornerIndices thresholdDeg pts) (cornersOf thresholdDeg (simplifyForProfile pts none).pts) := by
  have forget : Keeps (Prod.fst : V × ℕ → V) := fun _ => rfl
  have verts : (simplifyForProfile pts.zipIdx none).pts.Sublist pts.zipIdx := simplifyForProfile_sublist _ _ _ _ _
  have indices : ((simplifyForProfile pts.zipIdx none).pts.map Prod.snd).Sublist (List.range' 0 pts.length) := by
    have := verts.map Prod.snd
    rwa [List.zipIdx_map_snd] at this
  have increasing := List.Pairwise.sublist indices List.pairwise_lt_range'
  have inner : (cornerIndices thresholdDeg pts).Sublist ((simplifyForProfile pts.zipIdx none).pts.map Prod.snd).tail.dropLast := by
    rw [← List.map_tail, ← List.map_dropLast]
    exact (cornersOf_sublist thresholdDeg _).map Prod.snd
  refine ⟨?_, fun i member => ?_, ?_⟩
  · exact increasing.sublist (inner.trans ((List.dropLast_sublist _).trans (List.tail_sublist _)))
  · obtain ⟨a, -, b, last, above, below⟩ := between_of_mem increasing (inner.subset member)
    have := List.mem_range'_1.mp (indices.subset last)
    omega
  · have named : cornersOf thresholdDeg (simplifyForProfile pts none).pts =
        (cornersOf thresholdDeg (simplifyForProfile pts.zipIdx none).pts).map Prod.fst := by
      rw [← forget.cornersOf, ← PointRun.pts_map, ← forget.simplifyForProfile, List.zipIdx_map_fst]
    rw [named, cornerIndices, List.map_map, List.map_map]
    refine List.map_congr_left fun v member => ?_
    have there := verts.subset ((List.tail_sublist _).subset ((List.dropLast_sublist _).subset
      ((cornersOf_sublist thresholdDeg _).subset member)))
    exact List.mem_zipIdx_iff_getElem?.mp there

/-! ### The search -/

/-- What is left to look for: the corners `corners` at `indices`, none of which is before `start`. -/
structure Sought (pts : List V) (start : ℕ) (rest : List V) (indices : List ℕ) (corners : List V) : Prop where
  here : pts.drop start = rest
  ordered : indices.Pairwise (· < ·)
  ahead : ∀ i ∈ indices, start ≤ i
  places : indices.map (fun i => pts[i]?) = corners.map some

omit [Vertex V] in
theorem Sought.passed {pts rest : List V} {start i : ℕ} {indices : List ℕ} {p : V} {corners : List V}
    (sought : Sought pts start (p :: rest) (i :: indices) corners) (later : start < i) : Sought pts (start + 1) rest (i :: indices) corners := by
  obtain ⟨first, -⟩ := List.pairwise_cons.mp sought.ordered
  refine ⟨?_, sought.ordered, ?_, sought.places⟩
  · rw [← List.drop_drop, sought.here, List.drop_one, List.tail_cons]
  · exact List.forall_mem_cons.mpr ⟨later, fun j member => later.trans (first j member)⟩

omit [Vertex V] in
theorem Sought.taken {pts rest : List V} {start i : ℕ} {indices : List ℕ} {p c : V} {corners : List V}
    (sought : Sought pts start (p :: rest) (i :: indices) (c :: corners)) : Sought pts (start + 1) rest indices corners := by
  obtain ⟨first, ordered⟩ := List.pairwise_cons.mp sought.ordered
  refine ⟨?_, ordered, fun j member => ?_, ?_⟩
  · rw [← List.drop_drop, sought.here, List.drop_one, List.tail_cons]
  · have := first j member
    have := sought.ahead i List.mem_cons_self
    omega
  · have places := sought.places
    simp only [List.map_cons, List.cons.injEq] at places
    exact places.2

omit [Vertex V] in
theorem Sought.corner {pts rest : List V} {start i : ℕ} {indices : List ℕ} {c : V} {corners : List V}
    (sought : Sought pts start rest (i :: indices) (c :: corners)) : pts[i]? = some c := by
  have places := sought.places
  simp only [List.map_cons, List.cons.injEq] at places
  exact places.1

omit [Vertex V] in
theorem Sought.vertex {pts rest : List V} {start : ℕ} {indices : List ℕ} {p : V} {corners : List V}
    (sought : Sought pts start (p :: rest) indices corners) : pts[start]? = some p := by
  rw [← List.head?_drop, sought.here, List.head?_cons]

/-- The splits are in order, at most one for a corner, and none is beyond its corner. -/
theorem cornerSplits_bounds {pts rest : List V} {start : ℕ} {indices : List ℕ} {corners : List V}
    (sought : Sought pts start rest indices corners) :
    (cornerSplits start rest corners).Pairwise (· < ·) ∧ (cornerSplits start rest corners).length ≤ indices.length ∧
      (∀ s ∈ cornerSplits start rest corners, start ≤ s) ∧ ∀ s ∈ cornerSplits start rest corners, ∃ i ∈ indices, s ≤ i := by
  induction rest generalizing start indices corners with
  | nil => simp [cornerSplits]
  | cons p rest ih =>
    cases corners with
    | nil => simp [cornerSplits]
    | cons c corners =>
      cases indices with
      | nil => simpa using sought.places
      | cons i indices =>
        have ahead := sought.ahead i List.mem_cons_self
        rw [cornerSplits]
        split
        · obtain ⟨ordered, count, above, below⟩ := ih sought.taken
          refine ⟨.cons above ordered, by simpa using count, ?_, ?_⟩
          · exact List.forall_mem_cons.mpr ⟨le_rfl, fun s member => Nat.le_of_succ_le (above s member)⟩
          · refine List.forall_mem_cons.mpr ⟨⟨i, List.mem_cons_self, ahead⟩, fun s member => ?_⟩
            obtain ⟨j, member, bound⟩ := below s member
            exact ⟨j, List.mem_cons_of_mem _ member, bound⟩
        · rename_i differ
          have later : start < i := by
            refine ahead.lt_of_ne fun equal => differ ?_
            have vertex := sought.vertex
            rw [equal, sought.corner] at vertex
            rw [Option.some.inj vertex]
            exact ⟨rfl, rfl⟩
          obtain ⟨ordered, count, above, below⟩ := ih (sought.passed later)
          exact ⟨ordered, count, fun s member => Nat.le_of_succ_le (above s member), below⟩

theorem cornerSplits_iff {pts rest : List V} {start : ℕ} {indices : List ℕ} {corners : List V}
    (sought : Sought pts start rest indices corners) :
    cornerSplits start rest corners = indices ↔ FoundFirst pts start indices := by
  induction rest generalizing start indices corners with
  | nil =>
    cases indices with
    | nil => simp [cornerSplits, FoundFirst]
    | cons i indices =>
      cases corners with
      | nil => simpa using sought.places
      | cons c corners =>
        have short := List.drop_eq_nil_iff.mp sought.here
        have inside := (List.getElem?_eq_some_iff.mp sought.corner).1
        have := sought.ahead i List.mem_cons_self
        omega
  | cons p rest ih =>
    cases corners with
    | nil =>
      have none : indices = [] := by simpa using sought.places
      simp [cornerSplits, none, FoundFirst]
    | cons c corners =>
      cases indices with
      | nil => simpa using sought.places
      | cons i indices =>
        have ahead := sought.ahead i List.mem_cons_self
        rw [cornerSplits, FoundFirst]
        split
        · rename_i fits
          rw [List.cons.injEq, ih sought.taken]
          constructor
          · rintro ⟨rfl, first⟩
            exact ⟨fun j above below => absurd above (not_le.mpr below), first⟩
          · rintro ⟨none, first⟩
            have here : start = i := by
              by_contra other
              exact none start le_rfl (lt_of_le_of_ne ahead other) p sought.vertex c sought.corner fits
            exact ⟨here, here ▸ first⟩
        · rename_i differ
          have later : start < i := by
            refine ahead.lt_of_ne fun equal => differ ?_
            have vertex := sought.vertex
            rw [equal, sought.corner] at vertex
            rw [Option.some.inj vertex]
            exact ⟨rfl, rfl⟩
          rw [ih (sought.passed later), FoundFirst]
          refine and_congr_left fun _ => ⟨fun none j above below => ?_, fun none j above => none j (Nat.le_of_succ_le above)⟩
          rcases above.eq_or_lt with rfl | beyond
          · intro p' there q corner
            rw [sought.vertex] at there
            rw [sought.corner] at corner
            rwa [← Option.some.inj there, ← Option.some.inj corner]
          · exact none j beyond below

/-! ### The pieces -/

omit [Vertex V] in
theorem cutAt_slices (r : PointRun V) {start : ℕ} {splits : List ℕ} (ordered : splits.Pairwise (· < ·)) (ahead : ∀ s ∈ splits, start ≤ s)
    (room : ∀ s ∈ start :: splits, s + 1 < r.pts.length) :
    cutAt r start splits = ((start :: splits.filter (start < ·)).zip (splits.filter (start < ·) ++ [r.pts.length - 1])).map
      fun s => r.slice s.1 (s.2 + 1) := by
  induction splits generalizing start with
  | nil =>
    have inside := room start List.mem_cons_self
    rw [cutAt, if_pos inside]
    simp only [List.filter_nil, List.nil_append, List.zip_cons_cons, List.zip_nil_left, List.map_cons, List.map_nil]
    rw [show r.pts.length - 1 + 1 = r.pts.length by omega]
  | cons s splits ih =>
    obtain ⟨first, later⟩ := List.pairwise_cons.mp ordered
    obtain ⟨-, inside⟩ := List.forall_mem_cons.mp room
    have here := ahead s List.mem_cons_self
    have whole : splits.filter (s < ·) = splits := List.filter_eq_self.mpr fun t member => decide_eq_true (first t member)
    rw [cutAt]
    split
    · rename_i beyond
      have rest : splits.filter (start < ·) = splits :=
        List.filter_eq_self.mpr fun t member => decide_eq_true (beyond.trans (first t member))
      have cut := ih later (fun t member => (first t member).le) inside
      rw [whole] at cut
      rw [List.filter_cons_of_pos (by simpa using beyond), rest, List.cons_append, List.zip_cons_cons, List.map_cons, cut]
    · rename_i same
      obtain rfl : start = s := by omega
      rw [List.filter_cons_of_neg (by simp)]
      exact ih later (fun t member => (first t member).le) inside

omit [Vertex V] in
theorem slice_whole {α : Type*} (l : List α) {n : ℕ} (long : l.length ≤ n) : slice l 0 n = l := by
  rw [slice, List.take_of_length_le long, List.drop_zero]

theorem splitRunAtCorners_joints {pts : List V} {flags : List Bool} (same : flags.length = pts.length) (thresholdDeg : ℝ) :
    ∃ joints, CutAtJoints ⟨pts, flags⟩ joints (splitRunAtCorners pts flags thresholdDeg) ∧
      ((∀ i ∈ cornerIndices thresholdDeg pts, i ∈ joints) ↔ FoundFirst pts 0 (cornerIndices thresholdDeg pts)) := by
  obtain ⟨ordered, inside, places⟩ := cornersAt thresholdDeg pts
  unfold splitRunAtCorners
  extract_lets corners
  generalize cornerIndices thresholdDeg pts = indices at ordered inside places
  split
  · rename_i none
    rw [show cornersOf thresholdDeg (simplifyForProfile pts Option.none).pts = [] from none] at places
    obtain rfl : indices = [] := by simpa using places
    refine ⟨[], ⟨.nil, by simp, ?_⟩, by simp [FoundFirst]⟩
    simp only [List.nil_append, List.zip_cons_cons, List.zip_nil_left, List.map_cons, List.map_nil, PointRun.slice]
    rw [slice_whole pts (by omega), slice_whole flags (by omega)]
  · rename_i some
    have sought : Sought pts 0 pts indices corners := ⟨List.drop_zero, ordered, fun i _ => Nat.zero_le i, places⟩
    obtain ⟨increase, count, -, below⟩ := cornerSplits_bounds sought
    have room : ∀ s ∈ 0 :: cornerSplits 0 pts corners, s + 1 < pts.length := by
      refine List.forall_mem_cons.mpr ⟨?_, fun s member => ?_⟩
      · cases indices with
        | nil => exact absurd (by simpa using places.symm) some
        | cons i indices =>
          have := (inside i List.mem_cons_self).2
          omega
      · obtain ⟨i, member, bound⟩ := below s member
        have := (inside i member).2
        omega
    have cut := cutAt_slices ⟨pts, flags⟩ increase (fun s _ => Nat.zero_le s) room
    have found : (∀ i ∈ indices, i ∈ (cornerSplits 0 pts corners).filter (0 < ·)) ↔ FoundFirst pts 0 indices := by
      rw [← cornerSplits_iff sought]
      constructor
      · intro every
        have subset : indices ⊆ cornerSplits 0 pts corners := fun i member => List.mem_of_mem_filter (every i member)
        have sub := List.sublist_of_subperm_of_pairwise (List.subperm_of_subset ordered.nodup subset) ordered increase
        exact (sub.eq_of_length_le count).symm
      · intro equal i member
        rw [equal]
        exact List.mem_filter.mpr ⟨member, decide_eq_true (inside i member).1⟩
    refine ⟨(cornerSplits 0 pts corners).filter (0 < ·), ⟨increase.filter _, fun s member => ?_, ?_⟩, found⟩
    · exact ⟨by simpa using List.of_mem_filter member, room s (List.mem_cons_of_mem _ (List.mem_of_mem_filter member))⟩
    · split
      · rename_i nothing
        rw [cut] at nothing
        simp at nothing
      · exact cut

/-- The pieces of a run are its slices between joints; every corner is a joint exactly when the search finds it first. -/
theorem splitRunAtCorners_complete {pts : List V} {flags : List Bool} (same : flags.length = pts.length) (thresholdDeg : ℝ) :
    ∃ joints, CutAtJoints ⟨pts, flags⟩ joints (splitRunAtCorners pts flags thresholdDeg) ∧
      ((∀ i ∈ cornerIndices thresholdDeg pts, i ∈ joints) ↔ FoundFirst pts 0 (cornerIndices thresholdDeg pts)) :=
  splitRunAtCorners_joints same thresholdDeg

/-! ### A run of bends -/

/-- Every bend is above the tolerance. -/
def Turning (tolDeg : ℝ) : List V → Prop
  | a :: b :: c :: rest =>
    radians tolDeg < headingDelta (segmentHeading a b) (segmentHeading b c) ∧ Turning tolDeg (b :: c :: rest)
  | _ => True

theorem keepMarks_turning {tolDeg : ℝ} (must : V → Prop) [DecidablePred must] {last : V} (prev : Bool) {l : List (V × Bool)}
    (turning : Turning tolDeg (last :: l.map Prod.fst)) : keepMarks (radians tolDeg) must last prev l = List.replicate l.length true := by
  induction l generalizing last prev with
  | nil => rfl
  | cons v l ih =>
    cases l with
    | nil => rfl
    | cons w l =>
      obtain ⟨bend, later⟩ := turning
      rw [keepMarks, if_neg (fun straight => absurd straight.1 (not_le.mpr bend))]
      exact congrArg (true :: ·) (ih v.2 later)

omit [Vertex V] in
theorem flagsFor_length (pts : List V) (flags : Option (List Bool)) : (flagsFor pts flags).length = pts.length := by
  unfold flagsFor
  split
  · split
    · rename_i same
      exact same
    · exact List.length_replicate
  · exact List.length_replicate

/-- Simplification keeps a run of bends as it is. -/
theorem simplifyForProfile_turning {pts : List V} (far : pts.IsChain Far) (flags : Option (List Bool)) {tolDeg : ℝ}
    (turning : Turning tolDeg pts) (maxOffset : ℝ) (must : KeySet) :
    simplifyForProfile pts flags tolDeg maxOffset must = ⟨pts, flagsFor pts flags⟩ := by
  have size := flagsFor_length pts flags
  have points : (pts.zip (flagsFor pts flags)).map Prod.fst = pts := List.map_fst_zip size.ge
  have marks : (pts.zip (flagsFor pts flags)).map Prod.snd = flagsFor pts flags := List.map_snd_zip size.le
  have whole : PointRun.ofVerts (pts.zip (flagsFor pts flags)) = ⟨pts, flagsFor pts flags⟩ := by
    rw [PointRun.ofVerts, points, marks]
  unfold simplifyForProfile
  generalize pts.zip (flagsFor pts flags) = verts at points marks whole
  cases verts with
  | nil => exact whole
  | cons v rest =>
    have distinct : dropDuplicates v rest = v :: rest := dropDuplicates_of_far (points ▸ far)
    have bends := keepMarks_turning (ptKey · ∈ must) v.2 (l := rest) (by rw [← List.map_cons, points]; exact turning)
    simp only [distinct, List.headD_cons, List.tail_cons, bends]
    split
    · exact whole
    · have every : (if 0 < maxOffset then dpAnchors ((v :: rest).map Prod.fst) maxOffset (true :: List.replicate rest.length true)
          else true :: List.replicate rest.length true) = List.replicate (v :: rest).length true := by
        split
        · obtain ⟨count, kept⟩ := dpAnchors_kept ((v :: rest).map Prod.fst) maxOffset (List.replicate (v :: rest).length true)
          rw [List.length_replicate] at count
          refine List.ext_getElem? fun i => ?_
          rcases Nat.lt_or_ge i (v :: rest).length with inside | outside
          · have mark : (List.replicate (v :: rest).length true)[i]? = some true := by rw [List.getElem?_replicate, if_pos inside]
            rw [mark]
            exact kept i mark
          · rw [List.getElem?_eq_none (l := List.replicate _ _) (by rw [List.length_replicate]; exact outside)]
            exact List.getElem?_eq_none (count.le.trans outside)
        · rfl
      rw [every, kept_all]
      exact whole

/-! ### A loop that ends where it starts -/

/-- Three right angles around a square back to its first corner, and a turn back there. -/
def loop : List Point := [⟨0, 0⟩, ⟨0, -1⟩, ⟨1, -1⟩, ⟨1, 0⟩, ⟨0, 0⟩, ⟨2.0, 0⟩]

theorem segmentHeading_south {a b : V} (east : (pos a).e = (pos b).e) (north : (pos b).n < (pos a).n) : segmentHeading a b = π := by
  rw [segmentHeading, atan2, Complex.arg_eq_pi_iff]
  exact ⟨by simpa using north, by simp [east]⟩

theorem segmentHeading_west {a b : V} (north : (pos a).n = (pos b).n) (east : (pos b).e < (pos a).e) :
    segmentHeading a b = -(π / 2) := by
  rw [segmentHeading, atan2, Complex.arg_eq_neg_pi_div_two_iff]
  exact ⟨by simp [north], by simpa using east⟩

/-- A right angle. -/
theorem headingDelta_quarter {h : ℝ} : headingDelta h (h + π / 2) = π / 2 := by
  have positive := pi_pos
  rw [headingDelta_of_abs_lt] <;> rw [add_sub_cancel_left, abs_of_pos (by positivity)]
  linarith

theorem headingDelta_back : headingDelta π 0 = π := by
  have positive := pi_pos
  rw [headingDelta, angleWrap, pyFloatMod]
  simp [abs_of_pos positive]

theorem degrees_pi : degrees π = 180 := by
  rw [degrees]
  field_simp

theorem degrees_quarter : degrees (π / 2) = 90 := by
  rw [degrees]
  field_simp
  norm_num

/-- The bends of the loop, with the indices of its vertices. -/
theorem loop_bends :
    headingDelta (segmentHeading ((⟨0, 0⟩ : Point), 0) (⟨0, -1⟩, 1)) (segmentHeading ((⟨0, -1⟩ : Point), 1) (⟨1, -1⟩, 2)) = π / 2 ∧
    headingDelta (segmentHeading ((⟨0, -1⟩ : Point), 1) (⟨1, -1⟩, 2)) (segmentHeading ((⟨1, -1⟩ : Point), 2) (⟨1, 0⟩, 3)) = π / 2 ∧
    headingDelta (segmentHeading ((⟨1, -1⟩ : Point), 2) (⟨1, 0⟩, 3)) (segmentHeading ((⟨1, 0⟩ : Point), 3) (⟨0, 0⟩, 4)) = π / 2 ∧
    headingDelta (segmentHeading ((⟨1, 0⟩ : Point), 3) (⟨0, 0⟩, 4)) (segmentHeading ((⟨0, 0⟩ : Point), 4) (⟨2.0, 0⟩, 5)) = π := by
  have west : segmentHeading ((⟨0, 0⟩ : Point), 0) (⟨0, -1⟩, 1) = -(π / 2) := segmentHeading_west rfl (by norm_num)
  have north : segmentHeading ((⟨0, -1⟩ : Point), 1) (⟨1, -1⟩, 2) = 0 := segmentHeading_north rfl (by norm_num)
  have east : segmentHeading ((⟨1, -1⟩ : Point), 2) (⟨1, 0⟩, 3) = π / 2 := segmentHeading_east rfl (by norm_num)
  have south : segmentHeading ((⟨1, 0⟩ : Point), 3) (⟨0, 0⟩, 4) = π := segmentHeading_south rfl (by norm_num)
  have away : segmentHeading ((⟨0, 0⟩ : Point), 4) (⟨2.0, 0⟩, 5) = 0 := segmentHeading_north rfl (by norm_num)
  rw [west, north, east, south, away]
  refine ⟨?_, ?_, ?_, headingDelta_back⟩
  · have quarter := headingDelta_quarter (h := -(π / 2))
    rwa [neg_add_cancel] at quarter
  · have quarter := headingDelta_quarter (h := 0)
    rwa [zero_add] at quarter
  · have quarter := headingDelta_quarter (h := π / 2)
    rwa [add_halves] at quarter

theorem loop_turning : Turning 5.0 loop.zipIdx := by
  have positive := pi_pos
  have low : radians 5.0 < π / 2 := by
    rw [radians]
    linarith
  obtain ⟨first, second, third, back⟩ := loop_bends
  exact ⟨first ▸ low, second ▸ low, third ▸ low, back ▸ (by linarith), trivial⟩

theorem loop_far : loop.zipIdx.IsChain Far := by
  have step : ∀ (a b : Point × ℕ), 1 ≤ hypot a b → Far a b := fun a b long => le_trans (by norm_num) long
  refine .cons_cons (step _ _ ?_) (.cons_cons (step _ _ ?_) (.cons_cons (step _ _ ?_) (.cons_cons (step _ _ ?_)
    (.cons_cons (step _ _ ?_) (.singleton _))))) <;> norm_num [hypot, Real.le_sqrt]

theorem loop_corners : cornersOf 120 loop.zipIdx = [(⟨0, 0⟩, 4)] := by
  obtain ⟨first, second, third, back⟩ := loop_bends
  have below : ¬(120 : ℝ) ≤ degrees (π / 2) := by
    rw [degrees_quarter]
    norm_num
  have above : (120 : ℝ) ≤ degrees π := by
    rw [degrees_pi]
    norm_num
  simp only [loop, List.zipIdx_cons, List.zipIdx_nil, Nat.zero_add, Nat.reduceAdd]
  rw [cornersOf, if_neg (first ▸ below), cornersOf, if_neg (second ▸ below), cornersOf, if_neg (third ▸ below), cornersOf,
    if_pos (back ▸ above), cornersOf]
  simp

theorem loop_missed {joints : List ℕ} (cut : CutAtJoints ⟨loop, List.replicate 6 true⟩ joints
    (splitRunAtCorners loop (List.replicate 6 true) 120)) : cornerIndices 120 loop = [4] ∧ joints = [] := by
  have forget : Keeps (Prod.fst : Point × ℕ → Point) := fun _ => rfl
  have simple := simplifyForProfile_turning loop_far none loop_turning 0 ∅
  have corners : cornersOf 120 (simplifyForProfile loop none).pts = [⟨0, 0⟩] := by
    have named := forget.simplifyForProfile loop.zipIdx none 5.0 0 ∅
    rw [List.zipIdx_map_fst, simple] at named
    rw [named, PointRun.pts_map, forget.cornersOf, loop_corners]
    rfl
  refine ⟨by rw [cornerIndices, simple, loop_corners]; rfl, ?_⟩
  have pieces : (splitRunAtCorners loop (List.replicate 6 true) 120).length = 1 := by
    unfold splitRunAtCorners
    rw [corners]
    simp [loop, cornerSplits, same, cutAt]
  rw [cut.slices] at pieces
  simpa using pieces

/-- The corner at the start of the loop is found there, where the run is not split. -/
theorem splitRunAtCorners_misses :
    ¬∀ (pts : List Point) (flags : List Bool) (thresholdDeg : ℝ), flags.length = pts.length →
      ∃ joints, CutAtJoints ⟨pts, flags⟩ joints (splitRunAtCorners pts flags thresholdDeg) ∧
        ∀ i ∈ cornerIndices thresholdDeg pts, i ∈ joints := by
  intro claim
  obtain ⟨joints, cut, every⟩ := claim loop (List.replicate 6 true) 120 rfl
  obtain ⟨corner, none⟩ := loop_missed cut
  rw [corner, none] at every
  exact absurd (every 4 (List.mem_singleton_self 4)) List.not_mem_nil

theorem splitRunAtCorners_complete_loop :
    ∃ joints, CutAtJoints ⟨loop, List.replicate 6 true⟩ joints (splitRunAtCorners loop (List.replicate 6 true) 120) ∧
      ((∀ i ∈ cornerIndices 120 loop, i ∈ joints) ↔ FoundFirst loop 0 (cornerIndices 120 loop)) :=
  splitRunAtCorners_complete (V := Point) rfl 120

end

end Dyx3.Rpp
