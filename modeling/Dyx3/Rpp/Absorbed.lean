import Mathlib.Data.List.Pairwise
import Dyx3.Rpp.Conditioner

/-!
`absorb_short_connectors` as one edit of the run: disjoint ranges of it, in order, each replaced by one vertex.
-/

namespace Dyx3.Rpp

noncomputable section

open Geometry

variable {V α : Type*}

/-! ### Replaced ranges -/

/-- `l` from the index `start` on, with the range of each action replaced by what it puts there. -/
def splice (put : AbsorbAction V → α) (l : List α) : ℕ → List (AbsorbAction V) → List α
  | start, [] => l.drop start
  | start, act :: acts => slice l start act.rawA ++ put act :: splice put l (act.rawB + 1) acts

/-- The ranges of the actions follow one another from `start` on and end before the last element of `n`. -/
def Ranges (n : ℕ) : ℕ → List (AbsorbAction V) → Prop
  | _, [] => True
  | start, act :: acts => start ≤ act.rawA ∧ act.rawA < act.rawB ∧ act.rawB + 1 < n ∧ Ranges n (act.rawB + 1) acts

/-- One action on one of the two lists. -/
def edit (put : AbsorbAction V → α) (act : AbsorbAction V) (l : List α) : List α :=
  l.take act.rawA ++ put act :: l.drop (act.rawB + 1)

theorem foldr_apply (acts : List (AbsorbAction V)) (r : PointRun V) :
    acts.foldr AbsorbAction.apply r =
      ⟨acts.foldr (edit AbsorbAction.mid) r.pts, acts.foldr (edit AbsorbAction.flag) r.flags⟩ := by
  induction acts with
  | nil => rfl
  | cons act acts ih =>
    rw [List.foldr_cons, ih]
    rfl

/-- The last action first: the actions before it find their indices unchanged. -/
theorem foldr_edit (put : AbsorbAction V → α) {l : List α} {start : ℕ} {acts : List (AbsorbAction V)} (ranges : Ranges l.length start acts) :
    acts.foldr (edit put) l = l.take start ++ splice put l start acts := by
  induction acts generalizing start with
  | nil => rw [splice, List.take_append_drop, List.foldr_nil]
  | cons act acts ih =>
    obtain ⟨above, ordered, below, later⟩ := ranges
    have cut : (l.take (act.rawB + 1)).length = act.rawB + 1 := by
      rw [List.length_take]
      omega
    have front : l.take act.rawA = l.take start ++ slice l start act.rawA := by
      rw [slice]
      conv_lhs => rw [← List.take_append_drop start (l.take act.rawA), List.take_take, Nat.min_eq_left above]
    rw [List.foldr_cons, ih later, edit, List.take_append_of_le_length (by omega), List.take_take, Nat.min_eq_left (by omega),
      List.drop_left' cut, front, List.append_assoc, splice]

theorem splice_length {β : Type*} (put : AbsorbAction V → α) (put' : AbsorbAction V → β) {l : List α} {l' : List β}
    (same : l.length = l'.length) (start : ℕ) (acts : List (AbsorbAction V)) :
    (splice put l start acts).length = (splice put' l' start acts).length := by
  induction acts generalizing start with
  | nil => simp only [splice, List.length_drop, same]
  | cons act acts ih =>
    simp only [splice, slice, List.length_append, List.length_cons, List.length_drop, List.length_take, same, ih]

theorem splice_last (put : AbsorbAction V → α) {l : List α} {start : ℕ} {acts : List (AbsorbAction V)} (inside : start < l.length)
    (ranges : Ranges l.length start acts) : (splice put l start acts).getLast? = l.getLast? := by
  induction acts generalizing start with
  | nil => rw [splice, List.getLast?_drop, if_neg (by omega)]
  | cons act acts ih =>
    obtain ⟨-, -, below, later⟩ := ranges
    have last := ih below later
    obtain ⟨x, ends⟩ : ∃ x, l.getLast? = some x := by
      have some : l ≠ [] := List.ne_nil_of_length_pos (by omega)
      exact ⟨_, List.getLast?_eq_some_getLast some⟩
    rw [ends] at last ⊢
    simp [splice, List.getLast?_append, List.getLast?_cons, last]

theorem splice_head (put : AbsorbAction V → α) {l : List α} {acts : List (AbsorbAction V)} (ranges : Ranges l.length 1 acts) :
    (splice put l 0 acts).head? = l.head? := by
  cases acts with
  | nil => simp [splice]
  | cons act acts =>
    obtain ⟨above, ordered, below, -⟩ := ranges
    obtain ⟨x, rest, rfl⟩ := List.exists_cons_of_length_pos (show 0 < l.length by omega)
    obtain ⟨k, first⟩ : ∃ k, act.rawA = k + 1 := ⟨act.rawA - 1, by omega⟩
    simp [splice, slice, first]

theorem Ranges.weaken {n start start' : ℕ} {acts : List (AbsorbAction V)} (ranges : Ranges n start acts) (less : start' ≤ start) :
    Ranges n start' acts := by
  cases acts with
  | nil => trivial
  | cons act acts => exact ⟨less.trans ranges.1, ranges.2⟩

theorem Ranges.all {n start : ℕ} {acts : List (AbsorbAction V)} (ranges : Ranges n start acts) :
    ∀ act ∈ acts, start ≤ act.rawA ∧ act.rawA < act.rawB ∧ act.rawB + 1 < n := by
  induction acts generalizing start with
  | nil => simp
  | cons act acts ih =>
    obtain ⟨above, ordered, below, later⟩ := ranges
    refine List.forall_mem_cons.mpr ⟨⟨above, ordered, below⟩, fun next member => ?_⟩
    obtain ⟨after, rest⟩ := ih later next member
    exact ⟨by omega, rest⟩

theorem Ranges.disjoint {n start : ℕ} {acts : List (AbsorbAction V)} (ranges : Ranges n start acts) :
    acts.Pairwise fun x y => x.rawB < y.rawA := by
  induction acts generalizing start with
  | nil => exact .nil
  | cons act acts ih =>
    obtain ⟨-, -, -, later⟩ := ranges
    refine .cons (fun next member => ?_) (ih later)
    have := (later.all next member).1
    omega

/-! ### The actions -/

theorem fst_zip_sublist {β : Type*} (l : List α) (l' : List β) : ((l.zip l').map Prod.fst).Sublist l := by
  induction l generalizing l' with
  | nil => simp
  | cons x l ih =>
    cases l' with
    | nil => simp
    | cons y l' => exact (ih l').cons_cons x

variable [Vertex V]

theorem simplifyForProfile_sublist (pts : List V) (flags : Option (List Bool)) (tol maxOffset : ℝ) (must : KeySet) :
    (simplifyForProfile pts flags tol maxOffset must).pts.Sublist pts := by
  have inside := fst_zip_sublist pts (flagsFor pts flags)
  unfold simplifyForProfile
  split
  · exact List.nil_sublist _
  · rename_i v rest zip
    rw [zip] at inside
    have dedup := (dropDuplicates_sublist v rest).trans inside
    extract_lets c keep marks
    split
    · exact dedup
    · exact ((kept_sublist c marks).map Prod.fst).trans dedup

/-- The indices of the simplified run increase. -/
theorem simplifyWithIndices_indices (pts : List V) (flags : List Bool) :
    ((simplifyWithIndices pts flags).map fun v => v.1.2).Pairwise (· < ·) ∧
      ∀ v ∈ simplifyWithIndices pts flags, v.1.2 < pts.length := by
  have verts : ((simplifyWithIndices pts flags).map Prod.fst).Sublist pts.zipIdx :=
    (fst_zip_sublist _ _).trans (simplifyForProfile_sublist _ _ _ _ _)
  have indices : ((simplifyWithIndices pts flags).map fun v => v.1.2).Sublist (List.range' 0 pts.length) := by
    have := verts.map Prod.snd
    rwa [List.map_map, List.zipIdx_map_snd] at this
  refine ⟨List.Pairwise.sublist indices List.pairwise_lt_range', fun v member => ?_⟩
  have := indices.subset (List.mem_map_of_mem (f := fun v => v.1.2) member)
  simpa using this

/-- Why an action replaces its range: a short connector between two bends of the simplified run, no vertex of which
must be hit. -/
structure Justified (connectorAbsorb minCorner : ℝ) (mustHit : KeySet) (pts : List V) (simple : List ((V × ℕ) × Bool))
    (act : AbsorbAction V) : Prop where
  connector : ∃ front a ia fa b c fc d id fd rest,
    simple = front ++ ((a, ia), fa) :: ((b, act.rawA), act.flag) :: ((c, act.rawB), fc) :: ((d, id), fd) :: rest ∧
    hypot b c < connectorAbsorb ∧ minCorner ≤ headingDelta (segmentHeading a b) (segmentHeading b c) ∧
    minCorner ≤ headingDelta (segmentHeading b c) (segmentHeading c d) ∧ act.mid = mergeVertex a b c d
  spared : ∀ i v, act.rawA ≤ i → i ≤ act.rawB → pts[i]? = some v → ptKey v ∉ mustHit

theorem rangeHasMustHit_false {pts : List V} {lo hi : ℕ} {mustHit : KeySet} (none : rangeHasMustHit pts lo hi mustHit = false) {i : ℕ}
    {v : V} (above : lo ≤ i) (below : i ≤ hi) (vertex : pts[i]? = some v) : ptKey v ∉ mustHit := by
  rw [rangeHasMustHit, List.any_eq_false] at none
  have member : v ∈ (pts.take (hi + 1)).drop lo := by
    rw [List.mem_iff_getElem?]
    refine ⟨i - lo, ?_⟩
    rw [List.getElem?_drop, Nat.add_sub_cancel' above, List.getElem?_take_of_lt (by omega), vertex]
  simpa using none v member

/-- The scan over the simplified run from a vertex on: `front` is what it has passed. -/
theorem absorbActions_justified {connectorAbsorb minCorner : ℝ} {mustHit : KeySet} {pts : List V} {simple : List ((V × ℕ) × Bool)}
    {l : List ((V × ℕ) × Bool)} (front : List ((V × ℕ) × Bool)) (rest : simple = front ++ l) :
    ∀ act ∈ absorbActions pts connectorAbsorb minCorner mustHit l, Justified connectorAbsorb minCorner mustHit pts simple act := by
  fun_induction absorbActions pts connectorAbsorb minCorner mustHit l generalizing front with
  | case1 a ia fa b ib fb c ic fc d id fd rest' short ih =>
    obtain ⟨near, bendIn, bendOut, spare⟩ := short
    refine List.forall_mem_cons.mpr ⟨⟨⟨front, a, ia, fa, b, c, fc, d, id, fd, rest', rest, near, bendIn, bendOut, rfl⟩, ?_⟩, ?_⟩
    · exact fun i v above below vertex => rangeHasMustHit_false (by simpa using spare) above below vertex
    · exact ih (front ++ [((a, ia), fa), ((b, ib), fb)]) (by rw [rest]; simp)
  | case2 a ia fa b ib fb c ic fc d id fd rest' _ ih =>
    exact ih (front ++ [((a, ia), fa)]) (by rw [rest]; simp)
  | case3 => simp

theorem absorbActions_ranges {connectorAbsorb minCorner : ℝ} {mustHit : KeySet} {pts : List V} {n start : ℕ}
    {l : List ((V × ℕ) × Bool)} (increase : (l.map fun w => w.1.2).Pairwise (· < ·)) (below : ∀ w ∈ l, w.1.2 < n)
    (above : ∀ w ∈ l.tail, start ≤ w.1.2) : Ranges n start (absorbActions pts connectorAbsorb minCorner mustHit l) := by
  fun_induction absorbActions pts connectorAbsorb minCorner mustHit l generalizing start with
  | case1 a ia fa b ib fb c ic fc d id fd rest short ih =>
    simp only [List.map_cons, List.pairwise_cons] at increase
    obtain ⟨-, afterB, afterC, later⟩ := increase
    have first : ib < ic := afterB ic (by simp)
    have second : ic < id := afterC id (by simp)
    have last : id < n := below ((d, id), fd) (by simp)
    refine ⟨above ((b, ib), fb) (by simp), first, show ic + 1 < n by omega, ih ?_ ?_ ?_⟩
    · exact .cons afterC (List.pairwise_cons.mpr later)
    · exact fun w member => below w (by simp only [List.mem_cons] at member ⊢; tauto)
    · exact fun w member => afterC _ (List.mem_map_of_mem (f := fun w => w.1.2) member)
  | case2 a ia fa b ib fb c ic fc d id fd rest _ ih =>
    refine ih increase.of_cons (fun w member => below w (List.mem_cons_of_mem _ member)) fun w member => ?_
    exact above w (List.mem_cons_of_mem _ member)
  | case3 => trivial

/-- What absorption does to a run: `acts` are its edits. -/
structure Absorbed (connectorAbsorb minCorner : ℝ) (mustHit : KeySet) (pts : List V) (flags : List Bool) (acts : List (AbsorbAction V))
    (out : PointRun V) : Prop where
  justified : ∀ act ∈ acts, Justified connectorAbsorb minCorner mustHit pts (simplifyWithIndices pts flags) act
  inner : ∀ act ∈ acts, 0 < act.rawA ∧ act.rawA < act.rawB ∧ act.rawB + 1 < pts.length
  disjoint : acts.Pairwise fun x y => x.rawB < y.rawA
  points : out.pts = splice AbsorbAction.mid pts 0 acts
  marks : out.flags = splice AbsorbAction.flag flags 0 acts
  balanced : out.flags.length = out.pts.length
  first : out.pts.head? = pts.head?
  last : out.pts.getLast? = pts.getLast?

theorem absorbed_of_ranges {connectorAbsorb minCorner : ℝ} {mustHit : KeySet} {pts : List V} {flags : List Bool}
    {acts : List (AbsorbAction V)} (same : flags.length = pts.length)
    (justified : ∀ act ∈ acts, Justified connectorAbsorb minCorner mustHit pts (simplifyWithIndices pts flags) act)
    (ranges : Ranges pts.length 1 acts) :
    Absorbed connectorAbsorb minCorner mustHit pts flags acts (acts.foldr AbsorbAction.apply ⟨pts, flags⟩) := by
  have front := ranges.weaken (Nat.zero_le 1)
  have points := foldr_edit AbsorbAction.mid front
  have marks := foldr_edit AbsorbAction.flag (l := flags) (same ▸ front)
  rw [List.take_zero, List.nil_append] at points marks
  rw [foldr_apply, points, marks]
  refine ⟨justified, ranges.all, ranges.disjoint, rfl, rfl, splice_length _ _ same 0 acts, splice_head _ ranges, ?_⟩
  cases acts with
  | nil => simp [splice]
  | cons act acts =>
    have long : 0 < pts.length := Nat.zero_lt_of_lt (front.all act List.mem_cons_self).2.2
    exact splice_last _ long front

/-- The edits of a run. -/
def absorptions (pts : List V) (flags : List Bool) (connectorAbsorb minCornerDeg : ℝ) (mustHit : KeySet) : List (AbsorbAction V) :=
  if connectorAbsorb ≤ 0 ∨ pts.length < 4 then []
  else absorbActions pts connectorAbsorb (radians minCornerDeg) mustHit (simplifyWithIndices pts flags)

theorem absorbShortConnectors_edits {pts : List V} {flags : List Bool} (same : flags.length = pts.length)
    (connectorAbsorb minCornerDeg : ℝ) (mustHit : KeySet) :
    Absorbed connectorAbsorb (radians minCornerDeg) mustHit pts flags (absorptions pts flags connectorAbsorb minCornerDeg mustHit)
      (absorbShortConnectors pts flags connectorAbsorb minCornerDeg mustHit) := by
  unfold absorbShortConnectors absorptions
  split
  · exact absorbed_of_ranges same (by simp) trivial
  · obtain ⟨increase, below⟩ := simplifyWithIndices_indices pts flags
    refine absorbed_of_ranges same (absorbActions_justified [] rfl) (absorbActions_ranges increase below ?_)
    intro w member
    cases simple : simplifyWithIndices pts flags with
    | nil => simp [simple] at member
    | cons v rest =>
      rw [simple] at increase member
      have after := (List.pairwise_cons.mp increase).1 _ (List.mem_map_of_mem (f := fun w => w.1.2) member)
      omega

theorem absorbShortConnectors_absorbed {pts : List V} {flags : List Bool} (same : flags.length = pts.length)
    (connectorAbsorb minCornerDeg : ℝ) (mustHit : KeySet) :
    ∃ acts, Absorbed connectorAbsorb (radians minCornerDeg) mustHit pts flags acts
      (absorbShortConnectors pts flags connectorAbsorb minCornerDeg mustHit) :=
  ⟨_, absorbShortConnectors_edits same connectorAbsorb minCornerDeg mustHit⟩

/-- Two right angles at the ends of a connector of 0.1 m. -/
theorem absorbShortConnectors_absorbed_step :
    ∃ acts, Absorbed 0.2 (radians 20) ∅ [(⟨0, 0⟩ : Point), ⟨1, 0⟩, ⟨1, 0.1⟩, ⟨2, 0.1⟩] [true, true, true, true] acts
      (absorbShortConnectors [⟨0, 0⟩, ⟨1, 0⟩, ⟨1, 0.1⟩, ⟨2, 0.1⟩] [true, true, true, true] 0.2 20 ∅) :=
  absorbShortConnectors_absorbed (V := Point) rfl 0.2 20 ∅

end

end Dyx3.Rpp
