import Dyx3.Rpp.DrawnRuns

/-!
`split_runs_by_flag` and `merge_collinear_runs` lose no point: what the runs add up to when the joint that each later
run starts with is counted once.
-/

namespace Dyx3.Rpp

noncomputable section

open Geometry Lib

variable {V : Type*}

/-- The next run starts at the exact last point of this one. -/
def Meets (r c : PointRun V) : Prop := ∃ v, r.pts.getLast? = some v ∧ c.pts.head? = some v

def joinedPts : List (PointRun V) → List V
  | [] => []
  | r :: rs => r.pts ++ rs.flatMap fun c => c.pts.tail

def joinedFlags : List (PointRun V) → List Bool
  | [] => []
  | r :: rs => r.flags ++ rs.flatMap fun c => c.flags.tail

/-! ### `split_runs_by_flag` -/

structure SplitExactly (pts : List V) (flags : List Bool) (runs : List (PointRun V)) : Prop where
  chain : runs.IsChain Meets
  pts : joinedPts runs = pts
  flags : joinedFlags runs = flags
  uniform : ∃ marks : List Bool, marks.IsChain (· ≠ ·) ∧
    List.Forall₂ (fun mark r => r.pts ≠ [] ∧ IsUniform mark r) marks runs

/-- The run of the group `cur`, after the joint with the run before. -/
def groupRun (prev : Option V) (mark : Bool) (cur : List (V × Bool)) : PointRun V :=
  uniform mark (prev.toList ++ cur.map Prod.fst)

theorem shareJoints_cons {prev : Option V} {mark : Bool} {cur : List (V × Bool)} (some : cur ≠ [])
    (same : ∀ v ∈ cur, v.2 = mark) (groups : List (List (V × Bool))) :
    shareJoints prev (cur :: groups) =
      groupRun prev mark cur :: shareJoints ((groupRun prev mark cur).pts.getLast?) groups := by
  have flags : cur.map Prod.snd = List.replicate cur.length mark :=
    List.map_eq_replicate_iff.mpr same
  obtain ⟨v, rest, rfl⟩ := List.exists_cons_of_ne_nil some
  have first : v.2 = mark := same v List.mem_cons_self
  cases prev with
  | none => simp [shareJoints, groupRun, uniform, PointRun.ofVerts, flags]
  | some p =>
    rw [shareJoints]
    simp only [PointRun.ofVerts, flags, groupRun, uniform]
    simp [List.replicate_succ]

/-- What the groups from `cur` on make, when the run before ends with `prev`. -/
structure Splits (prev : Option V) (mark : Bool) (verts : List (V × Bool)) (r : PointRun V) (rs : List (PointRun V)) : Prop where
  chain : (r :: rs).IsChain Meets
  pts : joinedPts (r :: rs) = prev.toList ++ verts.map Prod.fst
  flags : joinedFlags (r :: rs) = prev.toList.map (fun _ => mark) ++ verts.map Prod.snd
  some : r.pts ≠ []
  own : IsUniform mark r
  uniform : ∃ marks : List Bool, (mark :: marks).IsChain (· ≠ ·) ∧
    List.Forall₂ (fun mark r => r.pts ≠ [] ∧ IsUniform mark r) marks rs

theorem shareJoints_splits (l : List (V × Bool)) {prev : Option V} {mark : Bool} {cur : List (V × Bool)} (some : cur ≠ [])
    (same : ∀ v ∈ cur, v.2 = mark) :
    ∃ r rs, shareJoints prev (flagGroups cur mark l) = r :: rs ∧ Splits prev mark (cur ++ l) r rs := by
  have flags : cur.map Prod.snd = List.replicate cur.length mark := List.map_eq_replicate_iff.mpr same
  have flagged : (groupRun prev mark cur).flags = prev.toList.map (fun _ => mark) ++ cur.map Prod.snd := by
    rw [flags]
    cases prev with
    | none => simp [groupRun]
    | some p => simp [groupRun, List.replicate_succ]
  have nonempty : (groupRun prev mark cur).pts ≠ [] := by simp [groupRun, some]
  induction l generalizing cur prev mark with
  | nil =>
    refine ⟨_, _, shareJoints_cons some same [], .singleton _, ?_, ?_, nonempty, rfl, [], .singleton _, .nil⟩
    · simp [joinedPts, groupRun, shareJoints]
    · simp [joinedFlags, flagged, shareJoints]
  | cons v l ih =>
    rw [flagGroups]
    split
    · rename_i change
      obtain ⟨q, last⟩ : ∃ q, (groupRun prev mark cur).pts.getLast? = .some q :=
        ⟨_, List.getLast?_eq_some_getLast nonempty⟩
      obtain ⟨r, rs, runs, splits⟩ := @ih (.some q) v.2 [v] (by simp) (by simp) (by simp) (by simp [groupRun]) (by simp [groupRun])
      obtain ⟨p, tail, start⟩ := List.exists_cons_of_ne_nil splits.some
      have pts := splits.pts
      have marks := splits.flags
      have width : r.flags = List.replicate (p :: tail).length v.2 := start ▸ splits.own
      simp only [joinedPts, start, List.cons_append, Option.toList_some, List.nil_append, List.cons.injEq] at pts
      simp only [joinedFlags, width, List.length_cons, List.replicate_succ, List.cons_append, Option.toList_some, List.map_cons,
        List.map_nil, List.nil_append, List.cons.injEq, true_and] at marks
      obtain ⟨rfl, pts⟩ := pts
      refine ⟨groupRun prev mark cur, r :: rs, ?_, ⟨?_, ?_, ?_, nonempty, rfl, ?_⟩⟩
      · rw [shareJoints_cons some same, last, runs]
      · exact .cons_cons ⟨p, last, by rw [start]; rfl⟩ splits.chain
      · simp only [joinedPts, List.flatMap_cons, start, List.tail_cons, pts]
        simp [groupRun]
      · simp only [joinedFlags, List.flatMap_cons, width, List.length_cons, List.replicate_succ, List.tail_cons, marks, flagged]
        simp
      · obtain ⟨ms, alternate, all⟩ := splits.uniform
        exact ⟨v.2 :: ms, .cons_cons (Ne.symm change) alternate, .cons ⟨splits.some, splits.own⟩ all⟩
    · rename_i keeps
      have keep : v.2 = mark := not_not.mp keeps
      have longer : ∀ w ∈ cur ++ [v], w.2 = mark := by
        intro w member
        rcases List.mem_append.mp member with old | new
        · exact same w old
        · rw [List.mem_singleton.mp new, keep]
      have marked : (cur ++ [v]).map Prod.snd = List.replicate (cur ++ [v]).length mark := List.map_eq_replicate_iff.mpr longer
      rw [keep]
      obtain ⟨r, rs, runs, splits⟩ := @ih prev mark (cur ++ [v]) (by simp) longer marked
        (by rw [marked]; cases prev <;> simp [groupRun, List.replicate_succ]) (by simp [groupRun])
      exact ⟨r, rs, runs, by simpa using splits⟩

theorem splitRunsByFlag_exactly {pts : List V} {flags : List Bool} (some : pts ≠ []) (balanced : flags.length = pts.length) :
    SplitExactly pts flags (splitRunsByFlag pts flags) := by
  obtain ⟨v, rest, zip⟩ : ∃ v rest, pts.zip flags = v :: rest := by
    apply List.exists_cons_of_ne_nil
    intro none
    have short := congrArg List.length none
    rw [List.length_zip, balanced, min_self] at short
    exact some (List.eq_nil_of_length_eq_zero short)
  obtain ⟨r, rs, runs, splits⟩ := @shareJoints_splits V rest none v.2 [v] (by simp) (by simp)
  have fst : (v :: rest).map Prod.fst = pts := zip ▸ List.map_fst_zip balanced.ge
  have snd : (v :: rest).map Prod.snd = flags := zip ▸ List.map_snd_zip balanced.le
  rw [splitRunsByFlag, zip]
  simp only [runs]
  refine ⟨splits.chain, ?_, ?_, ?_⟩
  · rw [splits.pts]
    simpa using fst
  · rw [splits.flags]
    simpa using snd
  · obtain ⟨marks, alternate, all⟩ := splits.uniform
    exact ⟨_, alternate, .cons ⟨splits.some, splits.own⟩ all⟩

/-! ### `merge_collinear_runs` -/

variable [Vertex V]

/-- The heading change in degrees from the simplified end of `prev` to the simplified start of `next`. -/
def headingChange (prev next : List V) : Option ℝ :=
  match (simplifyForProfile prev none).pts.reverse, (simplifyForProfile next none).pts with
  | b :: a :: _, c :: d :: _ => some (degrees (headingDelta (segmentHeading a b) (segmentHeading c d)))
  | _, _ => none

/-- `rest` is appended to `prev` run by run, each time across a heading change below the threshold. -/
def Straight (thresholdDeg : ℝ) : PointRun V → List (PointRun V) → Prop
  | _, [] => True
  | prev, cur :: rest =>
    (∃ change, headingChange prev.pts cur.pts = some change ∧ change < thresholdDeg) ∧ Straight thresholdDeg (prev.extend cur) rest

structure MergedExactly (thresholdDeg : ℝ) (runs merged : List (PointRun V)) : Prop where
  chain : merged.IsChain Meets
  pts : joinedPts merged = joinedPts runs
  groups : ∃ groups : List (PointRun V × List (PointRun V)), (groups.flatMap fun g => g.1 :: g.2) = runs ∧
    (groups.map fun g => g.2.foldl PointRun.extend g.1) = merged ∧ ∀ g ∈ groups, Straight thresholdDeg g.1 g.2

theorem mergeable_change {thresholdDeg maxLen : ℝ} {prev cur : PointRun V}
    (merges : mergeable thresholdDeg maxLen prev cur = true) :
    ∃ change, headingChange prev.pts cur.pts = some change ∧ change < thresholdDeg := by
  have collinear := (Bool.and_eq_true_iff.mp merges).2
  unfold runsCollinear at collinear
  split at collinear
  · split at collinear
    · cases collinear
    · split at collinear
      · rename_i ends starts
        refine ⟨_, ?_, of_decide_eq_true collinear⟩
        rw [headingChange, ends, starts]
      · cases collinear
  · cases collinear

theorem meets_extend {r c d : PointRun V} (joint : Meets r c) (next : Meets c d) : Meets (r.extend c) d := by
  obtain ⟨v, last, head⟩ := joint
  obtain ⟨w, ends, starts⟩ := next
  have some : r.pts ≠ [] := by
    rintro none
    simp [none] at last
  obtain ⟨tail, split⟩ : ∃ tail, c.pts = v :: tail := by
    cases h : c.pts <;> simp_all
  refine ⟨w, ?_, starts⟩
  rw [extend_of_joint some (last.trans head.symm), split, List.tail_cons, List.getLast?_append]
  rw [split] at ends
  cases tail with
  | nil => simpa [last] using ends
  | cons u tail =>
    rw [List.getLast?_cons_cons] at ends
    simp [ends]

theorem foldl_extend_starts (r : PointRun V) (rs : List (PointRun V)) : r.pts <+: (rs.foldl PointRun.extend r).pts := by
  induction rs generalizing r with
  | nil => exact List.prefix_rfl
  | cons c rs ih => exact (List.prefix_append _ _).trans (ih (r.extend c))

/-- How merging goes on from the run built so far: it is extended by the first runs and the others are merged apart. -/
theorem mergeFrom_exactly (thresholdDeg maxLen : ℝ) {r : PointRun V} {rs : List (PointRun V)} (chain : (r :: rs).IsChain Meets) :
    ∃ (joins : List (PointRun V)) (groups : List (PointRun V × List (PointRun V))),
      rs = joins ++ groups.flatMap (fun g => g.1 :: g.2) ∧
      mergeFrom thresholdDeg maxLen r rs =
        joins.foldl PointRun.extend r :: groups.map (fun g => g.2.foldl PointRun.extend g.1) ∧
      Straight thresholdDeg r joins ∧ (∀ g ∈ groups, Straight thresholdDeg g.1 g.2) ∧
      (mergeFrom thresholdDeg maxLen r rs).IsChain Meets ∧
      joinedPts (mergeFrom thresholdDeg maxLen r rs) = joinedPts (r :: rs) := by
  induction rs generalizing r with
  | nil => exact ⟨[], [], rfl, rfl, trivial, by simp, .singleton r, rfl⟩
  | cons c rs ih =>
    obtain ⟨joint, later⟩ := List.isChain_cons_cons.mp chain
    obtain ⟨v, last, head⟩ := joint
    have some : r.pts ≠ [] := by
      rintro none
      simp [none] at last
    have starts : c.pts ≠ [] := by
      rintro none
      simp [none] at head
    rw [mergeFrom]
    split
    · rename_i merges
      have extended : (r.extend c :: rs).IsChain Meets := by
        cases rs with
        | nil => exact .singleton _
        | cons d rs =>
          obtain ⟨next, more⟩ := List.isChain_cons_cons.mp later
          exact .cons_cons (meets_extend ⟨v, last, head⟩ next) more
      obtain ⟨joins, groups, split, merged, straight, others, chained, pts⟩ := ih extended
      refine ⟨c :: joins, groups, by rw [split, List.cons_append], merged, ⟨mergeable_change merges, straight⟩, others, chained, ?_⟩
      rw [pts, joinedPts, joinedPts, extend_of_joint some (last.trans head.symm), List.flatMap_cons, List.append_assoc]
    · obtain ⟨joins, groups, split, merged, straight, others, chained, pts⟩ := ih later
      refine ⟨[], (c, joins) :: groups, ?_, ?_, trivial, ?_, ?_, ?_⟩
      · rw [split]
        simp
      · rw [merged]
        rfl
      · exact List.forall_mem_cons.mpr ⟨straight, others⟩
      · rw [merged] at chained ⊢
        have same : (joins.foldl PointRun.extend c).pts.head? = c.pts.head? := by
          obtain ⟨rest, whole⟩ := foldl_extend_starts c joins
          rw [← whole, List.head?_append_of_ne_nil _ starts]
        exact .cons_cons ⟨v, last, same.trans head⟩ chained
      · rw [merged] at pts ⊢
        have nonempty : (joins.foldl PointRun.extend c).pts ≠ [] := (foldl_extend_starts c joins).ne_nil starts
        obtain ⟨p, tail, first⟩ := List.exists_cons_of_ne_nil nonempty
        obtain ⟨q, tail', first'⟩ := List.exists_cons_of_ne_nil starts
        simp only [joinedPts, first, first', List.cons_append, List.cons.injEq] at pts
        simp only [joinedPts, List.flatMap_cons, first, first', List.tail_cons, pts.2]

theorem mergeCollinearRuns_exactly {runs : List (PointRun V)} (chain : runs.IsChain Meets) (thresholdDeg maxLen : ℝ) :
    MergedExactly thresholdDeg runs (mergeCollinearRuns runs thresholdDeg maxLen) := by
  cases runs with
  | nil => exact ⟨.nil, rfl, [], rfl, rfl, by simp⟩
  | cons r rs =>
    obtain ⟨joins, groups, split, merged, straight, others, chained, pts⟩ := mergeFrom_exactly thresholdDeg maxLen chain
    refine ⟨chained, pts, (r, joins) :: groups, ?_, merged.symm, List.forall_mem_cons.mpr ⟨straight, others⟩⟩
    rw [split]
    simp

/-- Splitting and merging lose no point. -/
theorem splitMerge_exactly :
    (∀ (pts : List V) (flags : List Bool), pts ≠ [] → flags.length = pts.length →
      SplitExactly pts flags (splitRunsByFlag pts flags)) ∧
    ∀ (runs : List (PointRun V)) (thresholdDeg maxLen : ℝ), runs.IsChain Meets →
      MergedExactly thresholdDeg runs (mergeCollinearRuns runs thresholdDeg maxLen) :=
  ⟨fun _ _ => splitRunsByFlag_exactly, fun _ thresholdDeg maxLen chain => mergeCollinearRuns_exactly chain thresholdDeg maxLen⟩

theorem splitMerge_exactly_turn :
    SplitExactly [(⟨0, 0⟩ : Point), ⟨1, 0⟩, ⟨1, 1⟩] [true, true, false]
      (splitRunsByFlag [⟨0, 0⟩, ⟨1, 0⟩, ⟨1, 1⟩] [true, true, false]) ∧
    MergedExactly 25 [uniform true [(⟨0, 0⟩ : Point), ⟨1, 0⟩], uniform false [⟨1, 0⟩, ⟨1, 1⟩]]
      (mergeCollinearRuns [uniform true [⟨0, 0⟩, ⟨1, 0⟩], uniform false [⟨1, 0⟩, ⟨1, 1⟩]] 25 0) :=
  ⟨splitMerge_exactly.1 _ _ (by simp) rfl, splitMerge_exactly.2 _ 25 0 (.cons_cons ⟨_, rfl, rfl⟩ (.singleton _))⟩

end

end Dyx3.Rpp
