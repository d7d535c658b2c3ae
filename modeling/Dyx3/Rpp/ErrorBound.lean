import Dyx3.Rpp.Simplify

/-!
The error bound of `simplify_for_profile`: what the keep marks of the heading filter and of Douglas-Peucker say about
the vertices that are dropped.
-/

namespace Dyx3.Rpp

noncomputable section

open Geometry

variable {V : Type*} [Vertex V]

/-! ### One span -/

theorem farthest_or (a b : V) (i : ℕ) (ps : List V) (best : ℝ × Option ℕ) :
    farthest a b i ps best = best ∨ ∃ k, (farthest a b i ps best).2 = some k := by
  induction ps generalizing i best with
  | nil => exact .inl rfl
  | cons p ps ih =>
    rw [farthest]
    rcases ih (i + 1) (if best.1 < perpendicularDistance p a b then (perpendicularDistance p a b, some i) else best) with same | found
    · rw [same]
      split
      · exact .inr ⟨i, rfl⟩
      · exact .inl rfl
    · exact .inr found

theorem farthest_bound (a b : V) (i : ℕ) (ps : List V) (best : ℝ × Option ℕ) :
    best.1 ≤ (farthest a b i ps best).1 ∧ ∀ p ∈ ps, perpendicularDistance p a b ≤ (farthest a b i ps best).1 := by
  induction ps generalizing i best with
  | nil => exact ⟨le_rfl, by simp⟩
  | cons p ps ih =>
    rw [farthest]
    obtain ⟨above, others⟩ := ih (i + 1) (if best.1 < perpendicularDistance p a b then (perpendicularDistance p a b, some i) else best)
    simp only [List.forall_mem_cons]
    split at above
    · rename_i more
      rw [if_pos more] at others ⊢
      exact ⟨more.le.trans above, above, others⟩
    · rename_i less
      rw [if_neg less] at others ⊢
      exact ⟨above, (not_lt.mp less).trans above, others⟩

/-- Where no vertex is split off, every vertex of the span is close to its chord. -/
theorem dpSplit_none {pts : List V} {eps : ℝ} (positive : 0 < eps) {lo hi i : ℕ} (none : dpSplit pts eps lo hi = none)
    (above : lo < i) (below : i < hi) {v a b : V} (vertex : pts[i]? = some v) (first : pts[lo]? = some a) (last : pts[hi]? = some b) :
    perpendicularDistance v a b ≤ eps := by
  rw [dpSplit, if_neg (by omega), first, last] at none
  simp only at none
  have member : v ∈ interior pts lo hi := by
    rw [interior, List.mem_iff_getElem?]
    refine ⟨i - (lo + 1), ?_⟩
    rw [List.getElem?_drop, List.getElem?_take_of_lt (by omega), show lo + 1 + (i - (lo + 1)) = i by omega, vertex]
  have bound := (farthest_bound a b (lo + 1) (interior pts lo hi) (0, .none)).2 v member
  split at none
  · rename_i beyond
    rcases farthest_or a b (lo + 1) (interior pts lo hi) (0, .none) with start | ⟨k, found⟩
    · rw [start] at beyond
      exact absurd beyond (not_lt.mpr positive.le)
    · rw [found] at none
      cases none
  · rename_i under
    exact bound.trans (not_lt.mp under)

theorem dpMarkKeep_split {pts : List V} {eps : ℝ} {lo hi i : ℕ} (split : dpSplit pts eps lo hi = some i) (stack : List (ℕ × ℕ))
    (keep : List Bool) :
    dpMarkKeep pts eps ((lo, hi) :: stack) keep = dpMarkKeep pts eps ((i, hi) :: (lo, i) :: stack) (keep.set i true) := by
  rw [dpMarkKeep]
  split
  · rename_i j found
    obtain rfl : i = j := Option.some.inj (split.symm.trans found)
    rfl
  · rename_i none
    rw [split] at none
    cases none

theorem dpMarkKeep_flat {pts : List V} {eps : ℝ} {lo hi : ℕ} (none : dpSplit pts eps lo hi = none) (stack : List (ℕ × ℕ))
    (keep : List Bool) : dpMarkKeep pts eps ((lo, hi) :: stack) keep = dpMarkKeep pts eps stack keep := by
  rw [dpMarkKeep]
  split
  · rename_i j found
    rw [none] at found
    cases found
  · rfl

theorem dpMarkKeep_nil (pts : List V) (eps : ℝ) (keep : List Bool) : dpMarkKeep pts eps [] keep = keep := by
  rw [dpMarkKeep]

theorem dpMarkKeep_append (pts : List V) (eps : ℝ) (stack later : List (ℕ × ℕ)) (keep : List Bool) :
    dpMarkKeep pts eps (stack ++ later) keep = dpMarkKeep pts eps later (dpMarkKeep pts eps stack keep) := by
  fun_induction dpMarkKeep pts eps stack keep with
  | case1 keep => rfl
  | case2 lo hi stack keep i split ih => rw [List.cons_append, dpMarkKeep_split split, ← ih, List.cons_append, List.cons_append]
  | case3 lo hi stack keep none ih => rw [List.cons_append, dpMarkKeep_flat none, ih]

/-- The nearest kept vertices before and after `i`, which lie in `lo`-`hi`, have `i` within `eps` of their line. -/
def Covered (pts : List V) (eps : ℝ) (keep : List Bool) (lo hi i : ℕ) : Prop :=
  ∃ l h, lo ≤ l ∧ l < i ∧ i < h ∧ h ≤ hi ∧ keep[l]? = some true ∧ keep[h]? = some true ∧
    (∀ j, l < j → j < h → keep[j]? = some false) ∧
    ∃ v a b, pts[i]? = some v ∧ pts[l]? = some a ∧ pts[h]? = some b ∧ perpendicularDistance v a b ≤ eps

theorem Covered.transfer {pts : List V} {eps : ℝ} {keep keep' : List Bool} {lo hi lo' hi' i : ℕ} (covered : Covered pts eps keep lo hi i)
    (same : ∀ j, lo ≤ j → j ≤ hi → keep'[j]? = keep[j]?) (down : lo' ≤ lo) (up : hi ≤ hi') : Covered pts eps keep' lo' hi' i := by
  obtain ⟨l, h, above, left, right, below, first, last, between, close⟩ := covered
  refine ⟨l, h, by omega, left, right, by omega, ?_, ?_, fun j after before => ?_, close⟩
  · rw [same l above (by omega), first]
  · rw [same h (by omega) below, last]
  · rw [same j (by omega) (by omega), between j after before]

/-- What the refinement of the span `lo`-`hi` does to the marks. -/
structure Refined (pts : List V) (eps : ℝ) (lo hi : ℕ) (keep keep' : List Bool) : Prop where
  outside : ∀ j, j ≤ lo ∨ hi ≤ j → keep'[j]? = keep[j]?
  covered : ∀ i, lo < i → i < hi → keep'[i]? = some false → Covered pts eps keep' lo hi i

/-- Two marked vertices with none marked between them. -/
structure Apart (keep : List Bool) (lo hi : ℕ) : Prop where
  ordered : lo < hi
  first : keep[lo]? = some true
  last : keep[hi]? = some true
  between : ∀ j, lo < j → j < hi → keep[j]? = some false

theorem Apart.congr {keep keep' : List Bool} {lo hi : ℕ} (apart : Apart keep lo hi)
    (same : ∀ j, lo ≤ j → j ≤ hi → keep'[j]? = keep[j]?) : Apart keep' lo hi := by
  have ordered := apart.ordered
  refine ⟨ordered, ?_, ?_, fun j above below => ?_⟩
  · rw [same lo le_rfl ordered.le, apart.first]
  · rw [same hi ordered.le le_rfl, apart.last]
  · rw [same j above.le below.le, apart.between j above below]

/-- By induction on the length of the span: both halves of a split are refined, the later one first. -/
theorem dpMarkKeep_refined {pts : List V} {eps : ℝ} (positive : 0 < eps) {lo hi : ℕ} {keep : List Bool}
    (len : keep.length = pts.length) (apart : Apart keep lo hi) :
    Refined pts eps lo hi keep (dpMarkKeep pts eps [(lo, hi)] keep) := by
  induction size : hi - lo using Nat.strong_induction_on generalizing lo hi keep with
  | _ size ih =>
    subst size
    have ordered := apart.ordered
    have inside : hi < pts.length := len ▸ (List.getElem?_eq_some_iff.mp apart.last).1
    cases split : dpSplit pts eps lo hi with
    | none =>
      rw [dpMarkKeep_flat split, dpMarkKeep_nil]
      refine ⟨fun _ _ => rfl, fun i above below _ => ?_⟩
      obtain ⟨v, vertex⟩ : ∃ v, pts[i]? = some v := ⟨_, List.getElem?_eq_getElem (by omega)⟩
      obtain ⟨a, start⟩ : ∃ a, pts[lo]? = some a := ⟨_, List.getElem?_eq_getElem (by omega)⟩
      obtain ⟨b, stop⟩ : ∃ b, pts[hi]? = some b := ⟨_, List.getElem?_eq_getElem inside⟩
      exact ⟨lo, hi, le_rfl, above, below, le_rfl, apart.first, apart.last, apart.between, v, a, b, vertex, start, stop,
        dpSplit_none positive split above below vertex start stop⟩
    | some m =>
      obtain ⟨above, below⟩ := dpSplit_mem split
      have marked : (keep.set m true)[m]? = some true := by
        rw [List.getElem?_set_self (by omega)]
      have elsewhere : ∀ j, j ≠ m → (keep.set m true)[j]? = keep[j]? := fun j other => List.getElem?_set_ne other.symm
      have right : Apart (keep.set m true) m hi := by
        refine ⟨below, marked, ?_, fun j after before => ?_⟩
        · rw [elsewhere hi (by omega), apart.last]
        · rw [elsewhere j (by omega), apart.between j (by omega) before]
      have upper := ih (hi - m) (by omega) (by rw [List.length_set, len]) right rfl
      have halves : dpMarkKeep pts eps [(m, hi), (lo, m)] (keep.set m true) =
          dpMarkKeep pts eps [(lo, m)] (dpMarkKeep pts eps [(m, hi)] (keep.set m true)) :=
        dpMarkKeep_append pts eps [(m, hi)] [(lo, m)] _
      rw [dpMarkKeep_split split, halves]
      have wide := (dpMarkKeep_kept pts eps [(m, hi)] (keep.set m true)).1
      generalize dpMarkKeep pts eps [(m, hi)] (keep.set m true) = upperMarks at upper wide ⊢
      have left : Apart upperMarks lo m := by
        refine ⟨above, ?_, ?_, fun j after before => ?_⟩
        · rw [upper.outside lo (.inl above.le), elsewhere lo (by omega), apart.first]
        · rw [upper.outside m (.inl le_rfl), marked]
        · rw [upper.outside j (.inl before.le), elsewhere j (by omega), apart.between j after (by omega)]
      have lower := ih (m - lo) (by omega) (by rw [wide, List.length_set, len]) left rfl
      generalize dpMarkKeep pts eps [(lo, m)] upperMarks = marks at lower ⊢
      refine ⟨fun j out => ?_, fun i after before dropped => ?_⟩
      · rw [lower.outside j (by omega), upper.outside j (by omega), elsewhere j (by omega)]
      · rcases Nat.lt_trichotomy i m with low | same | high
        · exact (lower.covered i after low dropped).transfer (fun _ _ _ => rfl) le_rfl below.le
        · subst same
          rw [lower.outside i (.inr le_rfl), left.last] at dropped
          cases dropped
        · rw [lower.outside i (.inr high.le)] at dropped
          exact (upper.covered i high before dropped).transfer (fun j after _ => lower.outside j (.inr after)) above.le le_rfl

/-! ### All spans -/

/-- The anchors after `a`: each is the next marked vertex. -/
def Anchored (keep : List Bool) : ℕ → List ℕ → Prop
  | _, [] => True
  | a, b :: rest => Apart keep a b ∧ Anchored keep b rest

theorem Anchored.congr {keep keep' : List Bool} {a : ℕ} {rest : List ℕ} (anchored : Anchored keep a rest)
    (same : ∀ j, a ≤ j → keep'[j]? = keep[j]?) : Anchored keep' a rest := by
  induction rest generalizing a with
  | nil => trivial
  | cons b rest ih =>
    have ordered := anchored.1.ordered
    exact ⟨anchored.1.congr fun j above _ => same j above, ih anchored.2 fun j above => same j (by omega)⟩

theorem Anchored.le_last {keep : List Bool} {a : ℕ} {rest : List ℕ} (anchored : Anchored keep a rest) :
    a ≤ rest.getLastD a := by
  induction rest generalizing a with
  | nil => exact le_rfl
  | cons b rest ih =>
    rw [List.getLastD_cons]
    exact anchored.1.ordered.le.trans (ih anchored.2)

theorem spans_refined {pts : List V} {eps : ℝ} (positive : 0 < eps) {a : ℕ} {rest : List ℕ} {keep : List Bool}
    (len : keep.length = pts.length) (anchored : Anchored keep a rest) :
    Refined pts eps a (rest.getLastD a) keep
      (((a :: rest).zip rest).foldl (fun keep span => dpMarkKeep pts eps [span] keep) keep) := by
  induction rest generalizing a keep with
  | nil =>
    refine ⟨fun _ _ => rfl, fun i above below _ => ?_⟩
    rw [List.getLastD_nil] at below
    omega
  | cons b rest ih =>
    obtain ⟨apart, more⟩ := anchored
    have span := dpMarkKeep_refined positive len apart
    have wide := (dpMarkKeep_kept pts eps [(a, b)] keep).1
    rw [List.zip_cons_cons, List.foldl_cons, List.getLastD_cons]
    have ordered := apart.ordered
    generalize dpMarkKeep pts eps [(a, b)] keep = marks at span wide ⊢
    have next : Anchored marks b rest := more.congr fun j above => span.outside j (.inr above)
    have later := ih (wide.trans len) next
    have order := next.le_last
    generalize rest.getLastD b = last at later order ⊢
    refine ⟨fun j out => ?_, fun i above below dropped => ?_⟩
    · rw [later.outside j (by omega), span.outside j (by omega)]
    · rcases Nat.lt_trichotomy i b with low | same | high
      · rw [later.outside i (.inl low.le)] at dropped
        exact (span.covered i above low dropped).transfer (fun j _ before => later.outside j (.inl before)) le_rfl order
      · subst same
        rw [later.outside i (.inl le_rfl), span.outside i (.inr le_rfl), apart.last] at dropped
        cases dropped
      · exact (later.covered i high below dropped).transfer (fun _ _ _ => rfl) ordered.le le_rfl

/-- The marked indices from `s` on, when `a` is the last marked one before. -/
theorem anchored_filter {keep : List Bool} {a s n : ℕ} (start : keep[a]? = some true) (before : a < s)
    (between : ∀ j, a < j → j < s → keep[j]? = some false) (total : s + n = keep.length)
    (ends : keep[keep.length - 1]? = some true) :
    Anchored keep a ((List.range' s n).filter fun i => keep.getD i false) ∧
      ((List.range' s n).filter fun i => keep.getD i false).getLastD a = keep.length - 1 := by
  induction n generalizing a s with
  | zero =>
    refine ⟨trivial, ?_⟩
    by_contra other
    have inside : a < keep.length := (List.getElem?_eq_some_iff.mp start).1
    have other : a ≠ keep.length - 1 := by simpa using other
    rw [between _ (by omega) (by omega)] at ends
    cases ends
  | succ n ih =>
    rw [List.range'_succ]
    cases mark : keep.getD s false with
    | true =>
      have marked : keep[s]? = some true := by
        rw [List.getD_eq_getElem?_getD] at mark
        cases value : keep[s]? with
        | none => simp [value] at mark
        | some k => simpa [value] using mark
      rw [List.filter_cons_of_pos (by exact mark), List.getLastD_cons]
      obtain ⟨more, last⟩ := ih (s := s + 1) marked (by omega) (fun j after below => by omega) (by omega)
      exact ⟨⟨⟨before, start, marked, between⟩, more⟩, last⟩
    | false =>
      rw [List.filter_cons_of_neg (by rw [mark]; exact Bool.false_ne_true)]
      refine ih (s := s + 1) start (by omega) (fun j after below => ?_) (by omega)
      rcases Nat.lt_succ_iff_lt_or_eq.mp below with earlier | rfl
      · exact between j after earlier
      · rw [List.getD_eq_getElem?_getD, List.getElem?_eq_getElem (by omega)] at mark
        rw [List.getElem?_eq_getElem (by omega)]
        simpa using mark

theorem dpAnchors_refined {pts : List V} {eps : ℝ} (positive : 0 < eps) {keep : List Bool} (len : keep.length = pts.length)
    (first : keep[0]? = some true) (ends : keep[keep.length - 1]? = some true) :
    Refined pts eps 0 (keep.length - 1) keep (dpAnchors pts eps keep) := by
  have some : 0 < keep.length := (List.getElem?_eq_some_iff.mp first).1
  obtain ⟨n, size⟩ : ∃ n, keep.length = n + 1 := ⟨keep.length - 1, by omega⟩
  obtain ⟨anchored, last⟩ := anchored_filter (a := 0) (s := 1) (n := n) first (by omega) (fun j above below => by omega) (by omega) ends
  have list : anchors keep = 0 :: (List.range' 1 n).filter fun i => keep.getD i false := by
    rw [anchors, size, List.range_eq_range', List.range'_succ, List.filter_cons_of_pos (by simp [List.getD_eq_getElem?_getD, first])]
  rw [dpAnchors, list, List.tail_cons, ← last]
  exact spans_refined positive len anchored

/-! ### The whole pass -/

theorem keepMarks_last (tol : ℝ) (must : V → Prop) [DecidablePred must] (last : V) (prev : Bool) {l : List (V × Bool)} (some : l ≠ []) :
    (keepMarks tol must last prev l)[l.length - 1]? = .some true := by
  fun_induction keepMarks tol must last prev l with
  | case1 => exact absurd rfl some
  | case2 => rfl
  | case3 _ _ _ _ _ _ _ _ ih => simpa using ih (by simp)
  | case4 _ _ _ _ _ _ _ _ ih => simpa using ih (by simp)

theorem keepMarks_must {tol : ℝ} {must : V → Prop} [DecidablePred must] {last : V} {prev : Bool} {l : List (V × Bool)} {i : ℕ}
    {v : V × Bool} (vertex : l[i]? = some v) (hit : must v.1) : (keepMarks tol must last prev l)[i]? = some true := by
  fun_induction keepMarks tol must last prev l generalizing i with
  | case1 => cases vertex
  | case2 =>
    cases i with
    | zero => rfl
    | succ i => simp at vertex
  | case3 last prev p f q g rest skip ih =>
    cases i with
    | zero =>
      simp only [List.getElem?_cons_zero, Option.some.injEq] at vertex
      subst vertex
      exact absurd hit skip.2.2
    | succ i => simpa using ih (by simpa using vertex)
  | case4 last prev p f q g rest keep ih =>
    cases i with
    | zero => rfl
    | succ i => simpa using ih (by simpa using vertex)

/-- The run without the vertices that repeat the one before. -/
def deduplicated (pts : List V) (flags : Option (List Bool)) : List (V × Bool) :=
  match pts.zip (flagsFor pts flags) with
  | [] => []
  | v :: rest => dropDuplicates v rest

/-- What the marks of a simplification within `eps` say about the run `verts`. -/
structure Simplified (eps : ℝ) (must : KeySet) (verts : List (V × Bool)) (keep : List Bool) : Prop where
  length : keep.length = verts.length
  ends : ∀ i < verts.length, i = 0 ∨ i + 1 = verts.length → keep[i]? = some true
  changes : ∀ (i : ℕ) (v w : V × Bool), verts[i]? = some v → verts[i + 1]? = some w → v.2 ≠ w.2 → keep[i]? = some true ∧ keep[i + 1]? = some true
  hits : ∀ (i : ℕ) (v : V × Bool), verts[i]? = some v → ptKey v.1 ∈ must → keep[i]? = some true
  near : ∀ i, keep[i]? = some false → Covered (verts.map Prod.fst) eps keep 0 (verts.length - 1) i

theorem Simplified.all (eps : ℝ) (must : KeySet) (verts : List (V × Bool)) : Simplified eps must verts (List.replicate verts.length true) := by
  have every : ∀ (i : ℕ) (v : V × Bool), verts[i]? = some v → (List.replicate verts.length true)[i]? = some true := by
    intro i v vertex
    have inside := (List.getElem?_eq_some_iff.mp vertex).1
    rw [List.getElem?_replicate, if_pos inside]
  refine ⟨by simp, fun i inside _ => every i verts[i] (List.getElem?_eq_getElem inside), ?_, fun i v vertex _ => every i v vertex, ?_⟩
  · exact fun i v w left right _ => ⟨every i v left, every (i + 1) w right⟩
  · intro i dropped
    rw [List.getElem?_replicate] at dropped
    split at dropped <;> cases dropped

omit [Vertex V] in
theorem kept_all (verts : List (V × Bool)) : kept verts (List.replicate verts.length true) = verts := by
  induction verts with
  | nil => rfl
  | cons v verts ih => simp [kept, List.replicate_succ, ih]

/-- The heading filter marks the ends and the must-hit vertices. -/
theorem keepMarks_anchors (tol : ℝ) (must : KeySet) (v : V × Bool) {verts : List (V × Bool)} (long : 2 ≤ verts.length) :
    (true :: keepMarks tol (ptKey · ∈ must) v.1 (verts.headD v).2 verts.tail).length = verts.length ∧
      (true :: keepMarks tol (ptKey · ∈ must) v.1 (verts.headD v).2 verts.tail)[verts.length - 1]? = some true ∧
      ∀ (i : ℕ) (w : V × Bool), verts[i]? = some w → ptKey w.1 ∈ must →
        (true :: keepMarks tol (ptKey · ∈ must) v.1 (verts.headD v).2 verts.tail)[i]? = some true := by
  refine ⟨?_, ?_, fun i w vertex member => ?_⟩
  · rw [List.length_cons, keepMarks_length, List.length_tail]
    omega
  · have some : verts.tail ≠ [] := List.ne_nil_of_length_pos (by rw [List.length_tail]; omega)
    have ends := keepMarks_last tol (ptKey · ∈ must) v.1 (verts.headD v).2 some
    rw [List.length_tail] at ends
    rw [show verts.length - 1 = verts.length - 1 - 1 + 1 by omega, List.getElem?_cons_succ]
    exact ends
  · cases i with
    | zero => rfl
    | succ i =>
      rw [List.getElem?_cons_succ]
      exact keepMarks_must (by rw [List.getElem?_tail, vertex]) member

/-- The marks of the heading filter on a run of two vertices or more. -/
theorem keepMarks_refined {eps : ℝ} (positive : 0 < eps) (tol : ℝ) (must : KeySet) (v : V × Bool) {verts : List (V × Bool)}
    (long : 2 ≤ verts.length) :
    Simplified eps must verts
      (dpAnchors (verts.map Prod.fst) eps (true :: keepMarks tol (ptKey · ∈ must) v.1 (verts.headD v).2 verts.tail)) := by
  obtain ⟨wide, last, hit⟩ := keepMarks_anchors tol must v long
  have change : ∀ (i : ℕ) (w x : V × Bool), verts[i]? = some w → verts[i + 1]? = some x → w.2 ≠ x.2 →
      (true :: keepMarks tol (ptKey · ∈ must) v.1 (verts.headD v).2 verts.tail)[i]? = some true ∧
        (true :: keepMarks tol (ptKey · ∈ must) v.1 (verts.headD v).2 verts.tail)[i + 1]? = some true := by
    intro i w x left right differ
    obtain ⟨inside, rfl⟩ := List.getElem?_eq_some_iff.mp left
    obtain ⟨inside', rfl⟩ := List.getElem?_eq_some_iff.mp right
    have split : verts = verts.take i ++ verts[i] :: verts[i + 1] :: verts.drop (i + 2) := by
      rw [← List.drop_eq_getElem_cons, ← List.drop_eq_getElem_cons, List.take_append_drop]
    obtain ⟨js, ks, marks, len⟩ := marks_change tol (ptKey · ∈ must) v.1 v (verts.take i) differ (verts.drop (i + 2))
    rw [← split] at marks
    have before : js.length = i := by rw [len, List.length_take]; omega
    rw [marks, ← before]
    simp
  have first : (true :: keepMarks tol (ptKey · ∈ must) v.1 (verts.headD v).2 verts.tail)[0]? = some true := rfl
  generalize true :: keepMarks tol (ptKey · ∈ must) v.1 (verts.headD v).2 verts.tail = keep at wide last hit change first ⊢
  have size : keep.length = (verts.map Prod.fst).length := by rw [wide, List.length_map]
  have refined := dpAnchors_refined positive size first (by rw [wide]; exact last)
  obtain ⟨len, marks⟩ := dpAnchors_kept (verts.map Prod.fst) eps keep
  rw [wide] at refined len
  refine ⟨len, fun i inside outer => ?_, fun i w x left right differ => ?_, fun i w vertex member => ?_, fun i dropped => ?_⟩
  · rcases outer with rfl | final
    · exact marks 0 first
    · rw [show i = verts.length - 1 by omega]
      exact marks _ last
  · obtain ⟨here, there⟩ := change i w x left right differ
    exact ⟨marks i here, marks (i + 1) there⟩
  · exact marks i (hit i w vertex member)
  · have inside : i < verts.length := len ▸ (List.getElem?_eq_some_iff.mp dropped).1
    have inner : i ≠ 0 ∧ i ≠ verts.length - 1 := by
      constructor
      · rintro rfl
        rw [marks 0 first] at dropped
        cases dropped
      · rintro rfl
        rw [marks _ last] at dropped
        cases dropped
    exact refined.covered i (by omega) (by omega) dropped

/-- Simplification within `maxOffset` keeps what is marked of the de-duplicated run. -/
theorem simplifyForProfile_within {maxOffset : ℝ} (positive : 0 < maxOffset) (pts : List V) (flags : Option (List Bool))
    (tolDeg : ℝ) (must : KeySet) :
    ∃ keep, simplifyForProfile pts flags tolDeg maxOffset must = .ofVerts (kept (deduplicated pts flags) keep) ∧
      Simplified maxOffset must (deduplicated pts flags) keep := by
  unfold simplifyForProfile deduplicated
  cases pts.zip (flagsFor pts flags) with
  | nil => exact ⟨[], rfl, .all maxOffset must []⟩
  | cons v rest =>
    simp only
    generalize dropDuplicates v rest = c
    split
    · exact ⟨List.replicate c.length true, by rw [kept_all], .all maxOffset must c⟩
    · exact ⟨_, rfl, keepMarks_refined positive (radians tolDeg) must v (by omega)⟩

theorem simplifyForProfile_within_bend :
    ∃ keep, simplifyForProfile [(⟨0, 0⟩ : Point), ⟨1, 0.001⟩, ⟨2, 0⟩] none 5.0 0.01 ∅ =
        .ofVerts (kept (deduplicated [(⟨0, 0⟩ : Point), ⟨1, 0.001⟩, ⟨2, 0⟩] none) keep) ∧
      Simplified 0.01 ∅ (deduplicated [(⟨0, 0⟩ : Point), ⟨1, 0.001⟩, ⟨2, 0⟩] none) keep :=
  simplifyForProfile_within (by norm_num) _ none 5.0 ∅

end

end Dyx3.Rpp
