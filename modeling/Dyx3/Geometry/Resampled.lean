import Mathlib.Data.List.GetD
import Dyx3.Geometry.Samples

/-!
`resample_fixed` returns samples of its polyline: the knots, and between them samples at most the spacing apart.
-/

namespace Dyx3.Geometry

noncomputable section

variable {V : Type*} [Vertex V]

/-! ### The knots -/

theorem mem_destutter' (l : List ℕ) {a b : ℕ} (member : b ∈ a :: l) : b ∈ l.destutter' (· ≠ ·) a := by
  induction l generalizing a with
  | nil => exact member
  | cons x l ih =>
    rw [List.destutter'_cons]
    split
    · rcases List.mem_cons.mp member with rfl | later
      · exact List.mem_cons_self
      · exact List.mem_cons_of_mem _ (ih later)
    · rename_i same
      obtain rfl : a = x := not_not.mp same
      exact ih (by simpa using member)

theorem mem_destutter_ne {l : List ℕ} {b : ℕ} : b ∈ l.destutter (· ≠ ·) ↔ b ∈ l := by
  refine ⟨fun member => (List.destutter_sublist _ l).subset member, fun member => ?_⟩
  cases l with
  | nil => exact member
  | cons a l => exact mem_destutter' l member

/-- Sorted and without repetitions. -/
theorem destutter_strict {l : List ℕ} (sorted : l.Pairwise (· ≤ ·)) : (l.destutter (· ≠ ·)).Pairwise (· < ·) := by
  have ordered := sorted.sublist (List.destutter_sublist (· ≠ ·) l)
  have differ := List.isChain_destutter (· ≠ ·) l
  generalize l.destutter (· ≠ ·) = l' at ordered differ
  induction l' with
  | nil => exact .nil
  | cons a l' ih =>
    obtain ⟨first, rest⟩ := List.pairwise_cons.mp ordered
    refine .cons (fun b member => ?_) (ih rest differ.tail)
    cases l' with
    | nil => simp at member
    | cons x l' =>
      have less : a < x := lt_of_le_of_ne (first x List.mem_cons_self) (List.isChain_cons_cons.mp differ).1
      rcases List.mem_cons.mp member with rfl | later
      · exact less
      · exact less.trans_le ((List.pairwise_cons.mp rest).1 b later)

/-- The fixed indices strictly inside, in order. -/
def innerKnots (last : ℕ) (fixed : List ℕ) : List ℕ :=
  ((fixed.filter fun k => 0 < k ∧ k < last).mergeSort (· ≤ ·)).destutter (· ≠ ·)

theorem knotsOf_eq (last : ℕ) (fixed : List ℕ) : knotsOf last fixed = 0 :: (innerKnots last fixed ++ [last]) := rfl

theorem mem_innerKnots {last k : ℕ} {fixed : List ℕ} : k ∈ innerKnots last fixed ↔ k ∈ fixed ∧ 0 < k ∧ k < last := by
  rw [innerKnots, mem_destutter_ne, List.mem_mergeSort, List.mem_filter, decide_eq_true_iff]

theorem knots_strict {last : ℕ} (positive : 0 < last) (fixed : List ℕ) :
    (0 :: (innerKnots last fixed ++ [last])).Pairwise (· < ·) := by
  have sorted := List.pairwise_mergeSort' (· ≤ ·) (fixed.filter fun k => 0 < k ∧ k < last)
  have inner := destutter_strict sorted
  refine .cons (fun k member => ?_) (List.pairwise_append.mpr ⟨inner, .cons (by simp) .nil, fun k member l final => ?_⟩)
  · rcases List.mem_append.mp member with inside | final
    · exact (mem_innerKnots.mp inside).2.1
    · rwa [List.mem_singleton.mp final]
  · rw [List.mem_singleton.mp final]
    exact (mem_innerKnots.mp member).2.2

/-! ### The values of the samples -/

section Values

variable (first : V) (pts : List V) (flags : List Bool)

def Sample.value : Sample → V × Bool
  | .vertex i => (pts.getD i first, flags.getD i false)
  | .between seg t =>
    let a := pos (pts.getD seg first)
    let b := pos (pts.getD (seg + 1) first)
    (made ⟨a.n + t * (b.n - a.n), a.e + t * (b.e - a.e)⟩, flags.getD seg false && flags.getD (seg + 1) false)

variable {cum : List ℝ}

theorem sampleAt_value (seg : ℕ) (t : ℝ) :
    sampleAt first pts flags cum seg t = (spotAt (cum.getD · 0) seg t).value first pts flags := by
  unfold sampleAt spotAt gap
  simp only
  split <;> rfl

theorem innerSamples_value (k0 k1 m : ℕ) (js : List ℕ) (seg : ℕ) :
    innerSamples first pts flags cum k0 k1 m js seg = (innerSpots cum k0 k1 m js seg).map (Sample.value first pts flags) := by
  induction js generalizing seg with
  | nil => rfl
  | cons j js ih =>
    rw [innerSamples, innerSpots, List.map_cons, ← ih, ← sampleAt_value]
    rfl

theorem spanSamples_value (cum : List ℝ) (spacing : ℝ) (spans last r : ℕ) (front : List (V × Bool)) (list : List (ℕ × ℕ)) :
    spanSamples first pts flags cum spacing spans last (front ++ [(Sample.vertex r).value first pts flags]) list =
      front ++ (spotsFrom cum spacing spans last r list).map (Sample.value first pts flags) := by
  induction list generalizing front r with
  | nil => rfl
  | cons span list ih =>
    obtain ⟨k0, k1⟩ := span
    rw [spanSamples, spotsFrom]
    split
    · split
      · rw [List.dropLast_concat]
        exact ih k1 front
      · exact ih r front
    · rw [innerSamples_value, List.map_append, List.map_cons]
      have next := ih k1 (front ++ [(Sample.vertex r).value first pts flags] ++
        (innerSpots cum k0 k1 (spanCount spans spacing (cum.getD k1 0 - cum.getD k0 0))
          (List.range' 1 (spanCount spans spacing (cum.getD k1 0 - cum.getD k0 0) - 2)) k0).map (Sample.value first pts flags))
      simpa [Sample.value] using next

end Values

/-! ### The arc length -/

theorem cumulativeLengths_zero (pts : List V) : (cumulativeLengths pts).getD 0 0 = 0 := by
  rw [cumulativeLengths, List.getD_eq_getElem?_getD, List.getElem?_scanl_zero]
  rfl

theorem cumulativeLengths_step (first : V) {pts : List V} {i : ℕ} (inside : i < pts.length - 1) :
    (cumulativeLengths pts).getD (i + 1) 0 =
      (cumulativeLengths pts).getD i 0 + hypot (pts.getD i first) (pts.getD (i + 1) first) := by
  have size : (cumulativeLengths pts).length = pts.length - 1 + 1 := by
    rw [cumulativeLengths, List.length_scanl, List.length_zipWith, List.length_tail]
    omega
  rw [List.getD_eq_getElem _ _ (by omega), List.getD_eq_getElem _ _ (by omega), List.getD_eq_getElem _ _ (by omega),
    List.getD_eq_getElem _ _ (by omega)]
  simp only [cumulativeLengths, List.getElem_succ_scanl, List.getElem_zipWith, List.getElem_tail]

theorem cumulativeLengths_rise (pts : List V) : ∀ i < pts.length - 1,
    (cumulativeLengths pts).getD i 0 ≤ (cumulativeLengths pts).getD (i + 1) 0 := by
  intro i inside
  have present : i < pts.length := by omega
  rw [cumulativeLengths_step pts[i] inside]
  linarith [hypot_nonneg (pts.getD i pts[i]) (pts.getD (i + 1) pts[i])]

/-- Vertices with no length between them are at one place. -/
theorem near_pos (first : V) {pts : List V} (clear : Clear ((cumulativeLengths pts).getD · 0) (pts.length - 1)) {i j : ℕ}
    (near : Near ((cumulativeLengths pts).getD · 0) i j) (order : i ≤ j) (below : j ≤ pts.length - 1) :
    pos (pts.getD i first) = pos (pts.getD j first) := by
  induction j, order using Nat.le_induction with
  | base => rfl
  | succ j order ih =>
    have none := clear j (by omega) (near j (by omega) (by omega))
    rw [gap, cumulativeLengths_step first (by omega), add_sub_cancel_left] at none
    rw [ih (fun k above less => near k (by omega) (by omega)) (by omega)]
    exact pos_eq_of_hypot none

/-! ### The whole pass -/

def arcs (pts : List V) (i : ℕ) : ℝ := (cumulativeLengths pts).getD i 0

/-- The number of samples that are wanted. -/
def wanted (pts : List V) (spacing : ℝ) (fixed : List ℕ) : ℕ :=
  let knots := knotsOf (pts.length - 1) fixed
  let spans := knots.zip knots.tail
  1 + ((spans.map fun s => spanCount spans.length spacing (arcs pts s.2 - arcs pts s.1)).map (· - 1)).sum

/-- The output `out` is made of the samples `samples` of the polyline with the vertices up to `last`. -/
structure Resampled (first : V) (pts : List V) (flags : List Bool) (spacing : ℝ) (fixed : List ℕ) (last : ℕ) (out : List V × List Bool)
    (samples : List Sample) : Prop where
  points : out.1 = samples.map fun x => (x.value first pts flags).1
  flags : out.2 = samples.map fun x => (x.value first pts flags).2
  valid : ∀ x ∈ samples, x.Valid last
  start : samples.head? = some (.vertex 0) ∨ (samples = [.vertex last] ∧ Near (arcs pts) 0 last ∧ ∃ k ∈ fixed, 0 < k ∧ k < last)
  ends : samples.getLast? = some (.vertex last)
  spaced : samples.IsChain (Step (arcs pts) spacing)
  knots : ∃ reps : List ℕ, reps.Pairwise (· < ·) ∧ (∀ k ∈ reps, k = 0 ∨ k = last ∨ k ∈ fixed) ∧
    (reps.map Sample.vertex).Sublist samples ∧
    ∀ k, k = 0 ∨ k = last ∨ (k ∈ fixed ∧ k ≤ last) → ∃ k' ∈ reps, Near (arcs pts) k' k

/-- The places that the spans between the knots are sampled at. -/
def samplesOf (pts : List V) (spacing : ℝ) (fixed : List ℕ) : List Sample :=
  let knots := knotsOf (pts.length - 1) fixed
  let spans := knots.zip knots.tail
  spotsFrom (cumulativeLengths pts) spacing spans.length (pts.length - 1) 0 spans

theorem samplesOf_sampled {pts : List V} (long : 0 < pts.length - 1) {spacing : ℝ} (positive : 0 < spacing) (fixed : List ℕ) :
    Sampled (cumulativeLengths pts) spacing (pts.length - 1) 0 0 (innerKnots (pts.length - 1) fixed ++ [pts.length - 1])
      (samplesOf pts spacing fixed) := by
  refine spotsFrom_sampled (cumulativeLengths_rise pts) positive _ (knots_strict long fixed).isChain ?_ le_rfl (.refl 0) (by omega)
  simp

/-- The first vertex is a sample, unless all knots coincide and there is one inside. -/
theorem samplesOf_start {pts : List V} (long : 0 < pts.length - 1) {spacing : ℝ} (positive : 0 < spacing) (fixed : List ℕ) :
    (samplesOf pts spacing fixed).head? = some (.vertex 0) ∨
      (samplesOf pts spacing fixed = [.vertex (pts.length - 1)] ∧ Near (arcs pts) 0 (pts.length - 1) ∧
        ∃ k ∈ fixed, 0 < k ∧ k < pts.length - 1) := by
  obtain ⟨r, later, head, -, -, near, choice, alone⟩ := (samplesOf_sampled long positive fixed).head
  rcases choice with rfl | rfl
  · exact .inl (by rw [head, List.head?_cons])
  · cases inner : innerKnots (pts.length - 1) fixed with
    | cons k inner' =>
      have member : k ∈ innerKnots (pts.length - 1) fixed := by rw [inner]; exact List.mem_cons_self
      rw [alone rfl] at head
      exact .inr ⟨head, near, k, mem_innerKnots.mp member⟩
    | nil =>
      left
      have counts : ∀ span : ℝ, spanCount 1 spacing span ≠ 0 := fun span zero => absurd (spanCount_zero zero).1 (by omega)
      simp only [samplesOf, knotsOf_eq, inner, List.nil_append, List.tail_cons, List.zip_cons_cons, List.zip_nil_right, List.length_cons,
        List.length_nil, spotsFrom, Nat.zero_add, if_neg (counts _), List.cons_append, List.head?_cons]

theorem resampled_of_samples (first : V) {pts : List V} (flags : List Bool) {spacing : ℝ} (positive : 0 < spacing) (fixed : List ℕ)
    (long : 0 < pts.length - 1) :
    Resampled first pts flags spacing fixed (pts.length - 1)
      (((samplesOf pts spacing fixed).map (Sample.value first pts flags)).map Prod.fst,
        ((samplesOf pts spacing fixed).map (Sample.value first pts flags)).map Prod.snd)
      (samplesOf pts spacing fixed) := by
  have sampled := samplesOf_sampled long positive fixed
  obtain ⟨reps, inside, sub, near⟩ := sampled.knots
  have strict := (knots_strict long fixed).sublist sub
  refine ⟨List.map_map, List.map_map, sampled.valid, samplesOf_start long positive fixed, sampled.ends,
    sampled.chain, reps, strict, fun k member => ?_, inside, fun k knot => near k ?_⟩
  · have found := sub.subset member
    simp only [List.mem_cons, List.mem_append, List.not_mem_nil, or_false, mem_innerKnots] at found
    tauto
  · simp only [List.mem_cons, List.mem_append, List.not_mem_nil, or_false, mem_innerKnots]
    rcases knot with rfl | rfl | ⟨fixed, below⟩
    · exact .inl rfl
    · exact .inr (.inr (.inr rfl))
    · rcases Nat.eq_zero_or_pos k with first | positive
      · exact .inl first
      · rcases below.lt_or_eq with inside | final
        · exact .inr (.inr (.inl ⟨fixed, positive, inside⟩))
        · exact .inr (.inr (.inr final))

/-- A short path without fixed vertices keeps its endpoints. -/
theorem resampled_of_endpoints (first : V) {pts : List V} (flags : List Bool) {spacing : ℝ} (long : 0 < pts.length - 1)
    (short : arcs pts (pts.length - 1) < spacing) :
    Resampled first pts flags spacing [] (pts.length - 1)
      ([pts.getD 0 first, pts.getD (pts.length - 1) first], [flags.getD 0 false, flags.getD (pts.length - 1) false])
      [.vertex 0, .vertex (pts.length - 1)] := by
  have rise := cumulativeLengths_rise pts
  have fine := fine_mono rise (Nat.zero_le (pts.length - 1)) le_rfl
  have zero := cumulativeLengths_zero pts
  refine ⟨rfl, rfl, ?_, .inl rfl, rfl, .cons_cons ⟨arc_mono rise (Nat.zero_le _) le_rfl, ?_⟩ (.singleton _), [0, pts.length - 1], ?_, ?_,
    .refl _, ?_⟩
  · simp [Sample.Valid]
  · rw [zero] at fine
    simp only [Sample.coarse, coarse] at fine ⊢
    unfold arcs at short ⊢
    linarith
  · simpa using long
  · simp
  · rintro k (rfl | rfl | ⟨none, -⟩)
    · exact ⟨0, by simp, .refl 0⟩
    · exact ⟨_, by simp, .refl _⟩
    · simp at none

theorem wanted_short {pts : List V} {spacing : ℝ} (positive : 0 < spacing) (short : arcs pts (pts.length - 1) < spacing) :
    wanted pts spacing [] ≤ kResampleMaxSamples := by
  have ratio : ⌈arcs pts (pts.length - 1) / spacing⌉ ≤ 1 := by
    rw [Int.ceil_le]
    push_cast
    rw [div_le_one positive]
    exact short.le
  have count : spanCount 1 spacing (arcs pts (pts.length - 1)) = 2 := by
    rw [spanCount, if_neg (by simp)]
    omega
  have knots : knotsOf (pts.length - 1) [] = [0, pts.length - 1] := by simp [knotsOf]
  have start : arcs pts 0 = 0 := cumulativeLengths_zero pts
  rw [wanted, knots]
  simp [start, count, kResampleMaxSamples]

/-- Where no segment is left out, the spacing is the arc length's and each knot has its place. -/
structure Exactly (first : V) (pts : List V) (spacing : ℝ) (fixed : List ℕ) (last : ℕ) (samples : List Sample) : Prop where
  start : ∃ i later, samples = .vertex i :: later ∧ pos (pts.getD i first) = pos (pts.getD 0 first)
  spaced : samples.IsChain fun x y => x.arc (arcs pts) ≤ y.arc (arcs pts) ∧ y.arc (arcs pts) ≤ x.arc (arcs pts) + spacing
  knots : ∀ k, k = 0 ∨ k = last ∨ (k ∈ fixed ∧ k ≤ last) →
    ∃ i, .vertex i ∈ samples ∧ pos (pts.getD i first) = pos (pts.getD k first)

theorem Resampled.exactly {first : V} {pts : List V} {flags : List Bool} {spacing : ℝ} {fixed : List ℕ} {out : List V × List Bool}
    {samples : List Sample} (resampled : Resampled first pts flags spacing fixed (pts.length - 1) out samples)
    (clear : Clear (arcs pts) (pts.length - 1)) : Exactly first pts spacing fixed (pts.length - 1) samples := by
  refine ⟨?_, ?_, fun k knot => ?_⟩
  · rcases resampled.start with head | ⟨rfl, near, -⟩
    · obtain ⟨later, split⟩ : ∃ later, samples = .vertex 0 :: later := by
        cases samples with
        | nil => cases head
        | cons x later => exact ⟨later, by rw [Option.some.inj head]⟩
      exact ⟨0, later, split, rfl⟩
    · exact ⟨pts.length - 1, [], rfl, (near_pos first clear near (Nat.zero_le _) le_rfl).symm⟩
  · refine resampled.spaced.imp_of_mem_imp fun x y left right step => ⟨step.1, ?_⟩
    have zero : arcs pts 0 = 0 := cumulativeLengths_zero pts
    rw [← clear.coarse_sample zero (resampled.valid x left), ← clear.coarse_sample zero (resampled.valid y right)]
    exact step.2
  · obtain ⟨reps, -, inside, sub, near⟩ := resampled.knots
    obtain ⟨i, member, close⟩ := near k knot
    have sample : .vertex i ∈ samples := sub.subset (List.mem_map_of_mem member)
    have bound : i ≤ pts.length - 1 := resampled.valid _ sample
    refine ⟨i, sample, ?_⟩
    rcases le_total i k with order | order
    · exact near_pos first clear close order (by omega)
    · exact (near_pos first clear close.symm order bound).symm

theorem resampleFixed_samples {first second : V} {rest : List V} {spacing : ℝ} (positive : 0 < spacing) (flags : Option (List Bool))
    {fixed : List ℕ} (many : ¬(arcs (first :: second :: rest) (rest.length + 1) < spacing ∧ fixed = []))
    (within : ¬kResampleMaxSamples < wanted (first :: second :: rest) spacing fixed) :
    resampleFixed (first :: second :: rest) spacing flags fixed =
      (((samplesOf (first :: second :: rest) spacing fixed).map
          (Sample.value first (first :: second :: rest) (flagsFor (first :: second :: rest) flags))).map Prod.fst,
        ((samplesOf (first :: second :: rest) spacing fixed).map
          (Sample.value first (first :: second :: rest) (flagsFor (first :: second :: rest) flags))).map Prod.snd) := by
  have values := spanSamples_value first (first :: second :: rest) (flagsFor (first :: second :: rest) flags)
    (cumulativeLengths (first :: second :: rest)) spacing
    ((knotsOf (rest.length + 1) fixed).zip (knotsOf (rest.length + 1) fixed).tail).length (rest.length + 1) 0 []
    ((knotsOf (rest.length + 1) fixed).zip (knotsOf (rest.length + 1) fixed).tail)
  rw [List.nil_append, List.nil_append] at values
  rw [resampleFixed]
  simp only
  rw [if_neg (not_le.mpr positive)]
  split
  · rename_i short
    exact absurd short many
  · split
    · rename_i beyond
      exact absurd beyond within
    · simp only [samplesOf, List.length_cons, Nat.add_sub_cancel]
      rw [← values]
      rfl

/-- A path that wants too many samples is left as it is. -/
theorem resampleFixed_beyond {first second : V} {rest : List V} {spacing : ℝ} (positive : 0 < spacing) (flags : Option (List Bool))
    {fixed : List ℕ} (beyond : kResampleMaxSamples < wanted (first :: second :: rest) spacing fixed) :
    resampleFixed (first :: second :: rest) spacing flags fixed =
      (first :: second :: rest, flagsFor (first :: second :: rest) flags) := by
  rw [resampleFixed]
  simp only
  rw [if_neg (not_le.mpr positive)]
  split
  · rename_i short
    obtain ⟨below, rfl⟩ := short
    exact absurd beyond (not_lt.mpr (wanted_short positive below))
  · exact if_pos beyond

theorem resampleFixed_within {first second : V} {rest : List V} {spacing : ℝ} (positive : 0 < spacing) (flags : Option (List Bool))
    {fixed : List ℕ} (within : wanted (first :: second :: rest) spacing fixed ≤ kResampleMaxSamples) :
    ∃ samples, Resampled first (first :: second :: rest) (flagsFor (first :: second :: rest) flags) spacing fixed (rest.length + 1)
      (resampleFixed (first :: second :: rest) spacing flags fixed) samples := by
  have long : 0 < (first :: second :: rest).length - 1 := by simp
  by_cases short : arcs (first :: second :: rest) (rest.length + 1) < spacing ∧ fixed = []
  · obtain ⟨below, rfl⟩ := short
    have made := resampled_of_endpoints first (flagsFor (first :: second :: rest) flags) long below
    refine ⟨[.vertex 0, .vertex (rest.length + 1)], ?_⟩
    rw [resampleFixed]
    simp only
    rw [if_neg (not_le.mpr positive), if_pos ⟨below, trivial⟩]
    exact made
  · have made := resampled_of_samples first (flagsFor (first :: second :: rest) flags) positive fixed long
    refine ⟨samplesOf (first :: second :: rest) spacing fixed, ?_⟩
    rw [resampleFixed_samples positive flags short (not_lt.mpr within)]
    exact made

/-- With as many samples as wanted within the bound the result is made of samples, else the input is left as it is. -/
theorem resampleFixed_resampled {first second : V} {rest : List V} {spacing : ℝ} (positive : 0 < spacing) (flags : Option (List Bool))
    (fixed : List ℕ) :
    (wanted (first :: second :: rest) spacing fixed ≤ kResampleMaxSamples →
      ∃ samples, Resampled first (first :: second :: rest) (flagsFor (first :: second :: rest) flags) spacing fixed (rest.length + 1)
          (resampleFixed (first :: second :: rest) spacing flags fixed) samples ∧
        (Clear (arcs (first :: second :: rest)) (rest.length + 1) →
          Exactly first (first :: second :: rest) spacing fixed (rest.length + 1) samples)) ∧
    (kResampleMaxSamples < wanted (first :: second :: rest) spacing fixed →
      resampleFixed (first :: second :: rest) spacing flags fixed =
        (first :: second :: rest, flagsFor (first :: second :: rest) flags)) := by
  refine ⟨fun within => ?_, fun beyond => resampleFixed_beyond positive flags beyond⟩
  obtain ⟨samples, resampled⟩ := resampleFixed_within positive flags within
  exact ⟨samples, resampled, resampled.exactly⟩

/-- A path of 1 m without fixed vertices. -/
theorem resampleFixed_resampled_short :
    ∃ samples, Resampled (⟨0, 0⟩ : Point) [⟨0, 0⟩, ⟨1, 0⟩] [true, true] 2 [] 1
        (resampleFixed [(⟨0, 0⟩ : Point), ⟨1, 0⟩] 2 (some [true, true]) []) samples ∧
      (Clear (arcs [(⟨0, 0⟩ : Point), ⟨1, 0⟩]) 1 → Exactly (⟨0, 0⟩ : Point) [⟨0, 0⟩, ⟨1, 0⟩] 2 [] 1 samples) := by
  refine (@resampleFixed_resampled Point _ ⟨0, 0⟩ ⟨1, 0⟩ [] 2 (by norm_num) (some [true, true]) []).1 (wanted_short (by norm_num) ?_)
  have length : arcs [(⟨0, 0⟩ : Point), ⟨1, 0⟩] 1 = 1 := by
    rw [arcs, cumulativeLengths_step (⟨0, 0⟩ : Point) (by simp), cumulativeLengths_zero]
    simp only [List.getD_cons_zero, List.getD_cons_succ]
    rw [hypot_north (by norm_num)]
    norm_num
  show arcs [(⟨0, 0⟩ : Point), ⟨1, 0⟩] 1 < 2
  rw [length]
  norm_num

/-- Three points within a picometre: no span between them counts. -/
def tight : List Point := [⟨0, 0⟩, ⟨1e-13, 0⟩, ⟨2e-13, 0⟩]

theorem tight_count {i : ℕ} (inside : i < 2) : spanCount 2 1 (arcs tight (i + 1) - arcs tight i) = 0 := by
  have short : arcs tight (i + 1) - arcs tight i < 1e-12 := by
    unfold arcs
    rw [cumulativeLengths_step (⟨0, 0⟩ : Point) (show i < tight.length - 1 from inside), add_sub_cancel_left]
    obtain rfl | rfl : i = 0 ∨ i = 1 := by omega
    · show hypot (⟨0, 0⟩ : Point) ⟨1e-13, 0⟩ < 1e-12
      rw [hypot_north (by norm_num)]
      norm_num
    · show hypot (⟨1e-13, 0⟩ : Point) ⟨2e-13, 0⟩ < 1e-12
      rw [hypot_north (by norm_num)]
      norm_num
  rw [spanCount, if_pos ⟨by norm_num, short⟩]

/-- With the middle one fixed the first one is lost. -/
theorem resampleFixed_tight :
    wanted tight 1 [1] ≤ kResampleMaxSamples ∧ (resampleFixed tight 1 none [1]).1.head? ≠ tight.head? := by
  have knots : knotsOf 2 [1] = [0, 1, 2] := by simp [knotsOf]
  have first := tight_count (i := 0) (by norm_num)
  have second := tight_count (i := 1) (by norm_num)
  have within : wanted tight 1 [1] = 1 := by
    rw [wanted, show tight.length - 1 = 2 from rfl, knots]
    simp [first, second]
  have samples : samplesOf tight 1 [1] = [.vertex 2] := by
    rw [samplesOf, show tight.length - 1 = 2 from rfl, knots]
    unfold arcs at first second
    simp only [List.tail_cons, List.zip_cons_cons, List.zip_nil_right, List.length_cons, List.length_nil, spotsFrom, first, second]
    simp
  refine ⟨by rw [within]; norm_num [kResampleMaxSamples], ?_⟩
  rw [tight, resampleFixed_samples one_pos none (by simp) (by rw [← tight, within]; norm_num [kResampleMaxSamples]), ← tight, samples]
  norm_num [Sample.value, tight]

end

end Dyx3.Geometry
