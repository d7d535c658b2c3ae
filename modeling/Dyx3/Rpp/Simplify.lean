import Mathlib.Tactic.Linarith
import Dyx3.Geometry.Resample

/-!
The polyline passes of `path_conditioner` that only read a run: `simplify_for_profile` with its
Douglas-Peucker anchors, and the profile classification on top of it.

Points and flags stay two lists, as in the source; the loops that push to both are written over the
list of pairs.
-/

namespace Dyx3.Rpp

noncomputable section

open Geometry

inductive Profile where
  | segment
  | smooth
  deriving DecidableEq

structure PointRun (V : Type*) where
  pts : List V
  flags : List Bool

variable {V : Type*}

namespace PointRun

def verts (r : PointRun V) : List (V × Bool) := r.pts.zip r.flags

def ofVerts (l : List (V × Bool)) : PointRun V := ⟨l.map Prod.fst, l.map Prod.snd⟩

@[simp] theorem pts_ofVerts (l : List (V × Bool)) : (ofVerts l).pts = l.map Prod.fst := rfl

@[simp] theorem flags_ofVerts (l : List (V × Bool)) : (ofVerts l).flags = l.map Prod.snd := rfl

end PointRun

abbrev PtKey := ℤ × ℤ

abbrev KeySet := Finset PtKey

variable [Vertex V]

/-- The 1 mm grid cell of a point. -/
def ptKey (p : V) : PtKey := (nearbyint ((pos p).n * 1000.0), nearbyint ((pos p).e * 1000.0))

/-- Drops a vertex within a micrometre of the last one kept, which takes over its flag. -/
def dropDuplicates (back : V × Bool) : List (V × Bool) → List (V × Bool)
  | [] => [back]
  | v :: rest =>
    if hypot back.1 v.1 < 1e-6 then dropDuplicates (back.1, back.2 || v.2) rest
    else back :: dropDuplicates v rest

/-- The keep marks after the first vertex. `prev` is the flag of the vertex before, `last` the last
vertex kept: the heading change is measured from there, so gradual curvature adds up. -/
def keepMarks (tol : ℝ) (must : V → Prop) [DecidablePred must] (last : V) (prev : Bool) :
    List (V × Bool) → List Bool
  | [] => []
  | [_] => [true]
  | (p, f) :: (q, g) :: rest =>
    if headingDelta (segmentHeading last p) (segmentHeading p q) ≤ tol ∧ ¬(prev ≠ f ∨ f ≠ g) ∧ ¬must p then
      false :: keepMarks tol must last f ((q, g) :: rest)
    else true :: keepMarks tol must p f ((q, g) :: rest)

/-- The largest offset from the line `a`-`b` above `best`, and its index; `i` is the index of the head. -/
def farthest (a b : V) : ℕ → List V → ℝ × Option ℕ → ℝ × Option ℕ
  | _, [], best => best
  | i, p :: ps, best =>
    let d := perpendicularDistance p a b
    farthest a b (i + 1) ps (if best.1 < d then (d, some i) else best)

theorem farthest_index {a b : V} {i : ℕ} {ps : List V} {best : ℝ × Option ℕ} {k : ℕ}
    (h : (farthest a b i ps best).2 = some k) : best.2 = some k ∨ (i ≤ k ∧ k < i + ps.length) := by
  induction ps generalizing i best with
  | nil => exact .inl h
  | cons p ps ih =>
    rw [farthest] at h
    rcases ih h with same | ⟨lo, hi⟩
    · split at same
      · obtain rfl : i = k := by simpa using same
        exact .inr ⟨le_rfl, by simp⟩
      · exact .inl same
    · exact .inr ⟨by omega, by simp only [List.length_cons]; omega⟩

/-- The interior of the span `lo`-`hi`. -/
def interior (pts : List V) (lo hi : ℕ) : List V := (pts.take hi).drop (lo + 1)

/-- The vertex of the span `lo`-`hi` that is farthest off its chord, when that is more than `eps`. -/
def dpSplit (pts : List V) (eps : ℝ) (lo hi : ℕ) : Option ℕ :=
  if hi ≤ lo + 1 then none
  else
    match pts[lo]?, pts[hi]? with
    | some a, some b =>
      let best := farthest a b (lo + 1) (interior pts lo hi) (0, none)
      if eps < best.1 then best.2 else none
    | _, _ => none

theorem dpSplit_mem {pts : List V} {eps : ℝ} {lo hi i : ℕ} (h : dpSplit pts eps lo hi = some i) :
    lo < i ∧ i < hi := by
  unfold dpSplit at h
  split at h
  · cases h
  · split at h
    · simp only at h
      split at h
      · rcases farthest_index h with start | ⟨above, below⟩
        · cases start
        · simp only [interior, List.length_drop, List.length_take] at below
          omega
      · cases h
    · cases h

/-- The work left on a Douglas-Peucker stack: splitting a span leaves less of it. -/
def dpWork (stack : List (ℕ × ℕ)) : ℕ := (stack.map fun s => 2 * (s.2 - s.1) - 1).sum

theorem dpWork_split {lo i hi : ℕ} (stack : List (ℕ × ℕ)) (above : lo < i) (below : i < hi) :
    dpWork ((i, hi) :: (lo, i) :: stack) < dpWork ((lo, hi) :: stack) := by
  simp only [dpWork, List.map_cons, List.sum_cons]
  omega

theorem dpWork_pop (s : ℕ × ℕ) (stack : List (ℕ × ℕ)) : dpWork stack ≤ dpWork (s :: stack) := by
  simp [dpWork]

/-- Marks the Douglas-Peucker anchors of the spans on the stack, last span first. -/
def dpMarkKeep (pts : List V) (eps : ℝ) : List (ℕ × ℕ) → List Bool → List Bool
  | [], keep => keep
  | (lo, hi) :: stack, keep =>
    match _h : dpSplit pts eps lo hi with
    | some i => dpMarkKeep pts eps ((i, hi) :: (lo, i) :: stack) (keep.set i true)
    | none => dpMarkKeep pts eps stack keep
termination_by stack => (dpWork stack, stack.length)
decreasing_by
  · obtain ⟨above, below⟩ := dpSplit_mem _h
    exact Prod.Lex.left _ _ (dpWork_split stack above below)
  · rcases (dpWork_pop (lo, hi) stack).lt_or_eq with less | same
    · exact Prod.Lex.left _ _ less
    · exact Prod.lex_def.mpr (.inr ⟨same, by simp⟩)

/-- The elements whose mark is set. -/
def kept {α : Type*} : List α → List Bool → List α
  | x :: xs, k :: ks => if k then x :: kept xs ks else kept xs ks
  | _, _ => []

/-- The indices that are marked. -/
def anchors (keep : List Bool) : List ℕ := (List.range keep.length).filter fun i => keep.getD i false

def dpAnchors (pts : List V) (maxOffset : ℝ) (keep : List Bool) : List Bool :=
  ((anchors keep).zip (anchors keep).tail).foldl (fun keep span => dpMarkKeep pts maxOffset [span] keep) keep

/-- `simplify_for_profile`; an absent must-hit set is the empty one. -/
def simplifyForProfile (pts : List V) (flagsIn : Option (List Bool)) (collinearTolDeg : ℝ := 5.0)
    (maxOffset : ℝ := 0) (mustHit : KeySet := ∅) : PointRun V :=
  match pts.zip (flagsFor pts flagsIn) with
  | [] => ⟨[], []⟩
  | v :: rest =>
    let c := dropDuplicates v rest
    if c.length < 3 then .ofVerts c
    else
      let keep := true :: keepMarks (radians collinearTolDeg) (ptKey · ∈ mustHit) v.1 (c.headD v).2 c.tail
      let keep := if 0 < maxOffset then dpAnchors (c.map Prod.fst) maxOffset keep else keep
      .ofVerts (kept c keep)

theorem simplifyForProfile_balanced (pts : List V) (flags : Option (List Bool)) (tol offset : ℝ) (must : KeySet) :
    (simplifyForProfile pts flags tol offset must).flags.length =
      (simplifyForProfile pts flags tol offset must).pts.length := by
  unfold simplifyForProfile
  split
  · rfl
  · extract_lets
    split <;> simp

/-- The headings of the simplified polyline, short steps left out. -/
def headings : List V → List ℝ
  | p :: q :: rest =>
    if 1e-6 < hypot p q then segmentHeading p q :: headings (q :: rest) else headings (q :: rest)
  | _ => []

/-- Smooth requires sustained turning: at least 3 turning vertices (over 2° each) of over 20° in sum,
and no corner. -/
def classifyAutoProfile (pts : List V) (thresholdDeg : ℝ) : Profile :=
  let simple := simplifyForProfile pts none 5.0
  if simple.pts.length ≤ 2 then .segment
  else
    let hs := headings simple.pts
    let deltas := List.zipWith headingDelta hs hs.tail
    if ∃ d ∈ deltas, radians (max 0 thresholdDeg) ≤ d then .segment
    else
      let turning := deltas.filter fun d => radians 2.0 < d
      if 3 ≤ turning.length ∧ radians 20.0 < turning.sum then .smooth else .segment

/-! ### What simplification keeps -/

/-- Farther apart than what counts as a duplicate. -/
def Far (a b : V) : Prop := 1e-6 ≤ hypot a b

theorem dropDuplicates_of_far {v : V × Bool} {rest : List (V × Bool)}
    (far : ((v :: rest).map Prod.fst).IsChain Far) : dropDuplicates v rest = v :: rest := by
  induction rest generalizing v with
  | nil => rfl
  | cons w rest ih =>
    simp only [List.map_cons, List.isChain_cons_cons] at far
    rw [dropDuplicates, if_neg (not_lt.mpr far.1), ih (by simpa using far.2)]

theorem dropDuplicates_starts (v : V × Bool) (rest : List (V × Bool)) :
    ∃ f l, dropDuplicates v rest = (v.1, f) :: l := by
  induction rest generalizing v with
  | nil => exact ⟨v.2, [], rfl⟩
  | cons w rest ih =>
    rw [dropDuplicates]
    split
    · exact ih (v.1, v.2 || w.2)
    · exact ⟨v.2, _, rfl⟩

theorem dropDuplicates_sublist (v : V × Bool) (rest : List (V × Bool)) :
    ((dropDuplicates v rest).map Prod.fst).Sublist ((v :: rest).map Prod.fst) := by
  induction rest generalizing v with
  | nil => exact .refl _
  | cons w rest ih =>
    rw [dropDuplicates]
    split
    · refine (ih (v.1, v.2 || w.2)).trans ?_
      simp only [List.map_cons]
      exact (List.sublist_cons_self _ _).cons_cons _
    · simpa using ih w

theorem dropDuplicates_flag {mark : Bool} {v : V × Bool} {rest : List (V × Bool)}
    (h : ∀ w ∈ v :: rest, w.2 = mark) : ∀ w ∈ dropDuplicates v rest, w.2 = mark := by
  induction rest generalizing v with
  | nil => exact h
  | cons u rest ih =>
    simp only [List.forall_mem_cons] at h
    rw [dropDuplicates]
    split
    · apply ih
      simp only [List.forall_mem_cons, h.1, h.2.1, Bool.or_self, true_and]
      exact h.2.2
    · rw [List.forall_mem_cons]
      exact ⟨h.1, ih (List.forall_mem_cons.mpr h.2)⟩

section Marks

variable (tol : ℝ) (must : V → Prop) [DecidablePred must]

theorem keepMarks_length (last : V) (prev : Bool) (l : List (V × Bool)) :
    (keepMarks tol must last prev l).length = l.length := by
  fun_induction keepMarks tol must last prev l <;> simp_all

theorem keepMarks_head (last : V) {prev : Bool} {v : V × Bool} (change : prev ≠ v.2) (rest : List (V × Bool)) :
    ∃ ks, keepMarks tol must last prev (v :: rest) = true :: ks := by
  cases rest with
  | nil => exact ⟨[], rfl⟩
  | cons w rest => exact ⟨_, by rw [keepMarks, if_neg (by tauto)]⟩

/-- Both vertices at a flag change are kept. -/
theorem keepMarks_change (last : V) (prev : Bool) (front : List (V × Bool)) {v w : V × Bool} (change : v.2 ≠ w.2)
    (rest : List (V × Bool)) :
    ∃ js ks, keepMarks tol must last prev (front ++ v :: w :: rest) = js ++ true :: true :: ks ∧
      js.length = front.length := by
  induction front generalizing last prev with
  | nil =>
    obtain ⟨ks, head⟩ := keepMarks_head tol must v.1 change rest
    refine ⟨[], ks, ?_, rfl⟩
    rw [List.nil_append, keepMarks, if_neg (by tauto), head, List.nil_append]
  | cons u front ih =>
    obtain ⟨u', tail, split⟩ : ∃ u' tail, front ++ v :: w :: rest = u' :: tail := by
      cases front <;> simp
    rw [List.cons_append, split, keepMarks, ← split]
    split
    · obtain ⟨js, ks, same, len⟩ := ih last u.2
      exact ⟨false :: js, ks, by rw [same, List.cons_append], by simp [len]⟩
    · obtain ⟨js, ks, same, len⟩ := ih u.1 u.2
      exact ⟨true :: js, ks, by rw [same, List.cons_append], by simp [len]⟩

/-- The marks of the whole run, whose first vertex is always kept. -/
theorem marks_change (last : V) (u : V × Bool) (front : List (V × Bool)) {v w : V × Bool} (change : v.2 ≠ w.2)
    (rest : List (V × Bool)) :
    ∃ js ks, true :: keepMarks tol must last ((front ++ v :: w :: rest).headD u).2 (front ++ v :: w :: rest).tail =
      js ++ true :: true :: ks ∧ js.length = front.length := by
  cases front with
  | nil =>
    obtain ⟨ks, head⟩ := keepMarks_head tol must last change rest
    exact ⟨[], ks, by simp [head], rfl⟩
  | cons u' front =>
    obtain ⟨js, ks, same, len⟩ := keepMarks_change tol must last u'.2 front change rest
    exact ⟨true :: js, ks, by simp [same], by simp [len]⟩

end Marks

/-- Later marks include the earlier ones. -/
def MarksKept (keep keep' : List Bool) : Prop :=
  keep'.length = keep.length ∧ ∀ i : ℕ, keep[i]? = some true → keep'[i]? = some true

theorem MarksKept.refl (keep : List Bool) : MarksKept keep keep := ⟨rfl, fun _ h => h⟩

theorem MarksKept.trans {a b c : List Bool} (ab : MarksKept a b) (bc : MarksKept b c) : MarksKept a c :=
  ⟨bc.1.trans ab.1, fun i h => bc.2 i (ab.2 i h)⟩

theorem marksKept_set (keep : List Bool) (i : ℕ) : MarksKept keep (keep.set i true) := by
  refine ⟨by simp, fun j h => ?_⟩
  rw [List.getElem?_set]
  split
  · have := (List.getElem?_eq_some_iff.mp h).1
    simp_all
  · exact h

theorem dpMarkKeep_kept (pts : List V) (eps : ℝ) (stack : List (ℕ × ℕ)) (keep : List Bool) :
    MarksKept keep (dpMarkKeep pts eps stack keep) := by
  fun_induction dpMarkKeep pts eps stack keep with
  | case1 keep => exact .refl _
  | case2 lo hi stack keep i _ ih => exact (marksKept_set keep i).trans ih
  | case3 lo hi stack keep _ ih => exact ih

theorem dpAnchors_kept (pts : List V) (maxOffset : ℝ) (keep : List Bool) :
    MarksKept keep (dpAnchors pts maxOffset keep) := by
  suffices ∀ (spans : List (ℕ × ℕ)) (marks : List Bool), MarksKept marks
      (spans.foldl (fun keep span => dpMarkKeep pts maxOffset [span] keep) marks) from this _ keep
  intro spans
  induction spans with
  | nil => exact .refl
  | cons span spans ih =>
    intro marks
    exact (dpMarkKeep_kept pts maxOffset [span] marks).trans (ih _)

theorem kept_sublist {α : Type*} (l : List α) (keep : List Bool) : (kept l keep).Sublist l := by
  induction l generalizing keep with
  | nil => simp [kept]
  | cons x xs ih =>
    cases keep with
    | nil => simp [kept]
    | cons k ks =>
      rw [kept]
      split
      · exact (ih ks).cons_cons x
      · exact (ih ks).cons x

theorem kept_pair {α : Type*} (front rest : List α) (a b : α) {keep : List Bool}
    (first : keep[front.length]? = some true) (second : keep[front.length + 1]? = some true) :
    ∃ front' rest', kept (front ++ a :: b :: rest) keep = front' ++ a :: b :: rest' := by
  induction front generalizing keep with
  | nil =>
    match keep, first, second with
    | true :: true :: ks, _, _ => exact ⟨[], kept rest ks, by simp [kept]⟩
  | cons x front ih =>
    cases keep with
    | nil => simp at first
    | cons k keep =>
      obtain ⟨front', rest', same⟩ := ih (by simpa using first) (by simpa using second)
      rw [List.cons_append, kept, same]
      split
      · exact ⟨x :: front', rest', rfl⟩
      · exact ⟨front', rest', rfl⟩

omit [Vertex V] in
theorem flagsFor_of_length {pts : List V} {flags : List Bool} (len : flags.length = pts.length) :
    flagsFor pts (some flags) = flags := by
  simp [flagsFor, len]

/-- A run of one flag keeps it, and its first vertex. -/
theorem simplifyForProfile_uniform {mark : Bool} {pts : List V} (some : pts ≠ []) (tol maxOffset : ℝ)
    (mustHit : KeySet) (s : PointRun V)
    (same : s = simplifyForProfile pts (.some (List.replicate pts.length mark)) tol maxOffset mustHit) :
    s.flags = List.replicate s.pts.length mark ∧ s.pts.Sublist pts ∧ s.pts.head? = pts.head? := by
  obtain ⟨p, rest, rfl⟩ := List.exists_cons_of_ne_nil some
  have zip : (p :: rest).zip (flagsFor (p :: rest) (.some (List.replicate (p :: rest).length mark))) =
      (p, mark) :: rest.map (·, mark) := by
    rw [flagsFor_of_length (by simp), List.map_prod_left_eq_zip (l := rest) (f := fun _ => mark)]
    simp [List.replicate_succ]
  obtain ⟨f, l, starts⟩ := dropDuplicates_starts (p, mark) (rest.map (·, mark))
  have sub := dropDuplicates_sublist (p, mark) (rest.map (·, mark))
  have flag : ∀ w ∈ dropDuplicates (p, mark) (rest.map (·, mark)), w.2 = mark :=
    dropDuplicates_flag (by simp)
  rw [starts] at sub flag
  -- whatever part of the de-duplicated run is kept, if it begins with its first vertex
  have part : ∀ l', l'.Sublist ((p, f) :: l) → l'.head?.map Prod.fst = .some p →
      (PointRun.ofVerts l').flags = List.replicate (PointRun.ofVerts l').pts.length mark ∧
      (PointRun.ofVerts l').pts.Sublist (p :: rest) ∧
      (PointRun.ofVerts l').pts.head? = (p :: rest).head? := by
    intro l' inside head
    refine ⟨?_, ?_, by simpa using head⟩
    · simp only [PointRun.flags_ofVerts, PointRun.pts_ofVerts, List.length_map, List.map_eq_replicate_iff]
      exact fun w mem => flag w (inside.subset mem)
    · have := (inside.map Prod.fst).trans sub
      simpa [Function.comp_def] using this
  rw [simplifyForProfile, zip] at same
  simp only [starts] at same
  split at same
  · rw [same]
    exact part _ (.refl _) (by simp)
  · rw [same]
    refine part _ (kept_sublist _ _) ?_
    have marked : ∀ keep keep' : List Bool, MarksKept (true :: keep) keep' →
        (kept ((p, f) :: l) keep').head?.map Prod.fst = .some p := by
      intro keep keep' marks
      cases keep' with
      | nil => simp [MarksKept] at marks
      | cons k keep' =>
        obtain rfl : k = true := by simpa using marks.2 0 (by simp)
        simp [kept]
    split
    · exact marked _ _ (dpAnchors_kept _ _ _)
    · exact marked _ _ (.refl _)

/-- Neighbours with different flags stay neighbours. -/
theorem simplifyForProfile_change {pts front rest : List V} {flags ffront frest : List Bool} {v w : V} {f g : Bool}
    (hpts : pts = front ++ v :: w :: rest) (hflags : flags = ffront ++ f :: g :: frest)
    (len : ffront.length = front.length) (balanced : flags.length = pts.length) (far : pts.IsChain Far)
    (change : f ≠ g) (tol maxOffset : ℝ) (mustHit : KeySet) :
    ∃ l r, simplifyForProfile pts (some flags) tol maxOffset mustHit =
      PointRun.ofVerts (l ++ (v, f) :: (w, g) :: r) := by
  obtain ⟨front', rest', zip⟩ : ∃ front' rest', pts.zip flags = front' ++ (v, f) :: (w, g) :: rest' :=
    ⟨front.zip ffront, rest.zip frest, by rw [hpts, hflags, List.zip_append len.symm]; simp⟩
  have fst : (pts.zip flags).map Prod.fst = pts := List.map_fst_zip balanced.ge
  obtain ⟨u, tail, start⟩ : ∃ u tail, pts.zip flags = u :: tail := by
    rw [zip]
    cases front' <;> simp
  have dedup : dropDuplicates u tail = front' ++ (v, f) :: (w, g) :: rest' := by
    rw [dropDuplicates_of_far (by rwa [← start, fst]), ← start, zip]
  rw [simplifyForProfile, flagsFor_of_length balanced, start]
  simp only [dedup]
  split
  · exact ⟨front', rest', rfl⟩
  · obtain ⟨js, ks, marks, len'⟩ := marks_change (radians tol) (ptKey · ∈ mustHit) u.1 u front'
      (v := (v, f)) (w := (w, g)) change rest'
    have pair : ∀ keep', MarksKept (js ++ true :: true :: ks) keep' →
        ∃ l r, PointRun.ofVerts (kept (front' ++ (v, f) :: (w, g) :: rest') keep') =
          PointRun.ofVerts (l ++ (v, f) :: (w, g) :: r) := by
      intro keep' marked
      obtain ⟨l, r, same⟩ := kept_pair front' rest' (v, f) (w, g)
        (marked.2 _ (by simp [← len'])) (marked.2 _ (by simp [← len']))
      exact ⟨l, r, by rw [same]⟩
    rw [marks]
    split
    · exact pair _ (dpAnchors_kept _ _ _)
    · exact pair _ (.refl _)

end

end Dyx3.Rpp
