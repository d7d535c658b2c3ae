import Dyx3.Geometry.Resample

/-!
What `resample_fixed` makes of a polyline: where on it each sample lies.

Segments shorter than 1e-12 m count as none in the code. The coarse arc length leaves them out: knots that the code takes
for coincident are at one place of it.
-/

namespace Dyx3.Geometry

noncomputable section

/-- A place on the polyline: a vertex of it, or the share `t` of the segment from the vertex `seg` on. -/
inductive Sample where
  | vertex (i : ℕ)
  | between (seg : ℕ) (t : ℝ)

/-! ### Arc length -/

section Arc

-- the arc length of each vertex
variable (c : ℕ → ℝ)

def gap (i : ℕ) : ℝ := c (i + 1) - c i

/-- The length of a segment that counts. -/
def wide (i : ℕ) : ℝ := if gap c i < 1e-12 then 0 else gap c i

def coarse : ℕ → ℝ
  | 0 => 0
  | i + 1 => coarse i + wide c i

def Sample.arc : Sample → ℝ
  | .vertex i => c i
  | .between seg t => c seg + t * gap c seg

def Sample.coarse : Sample → ℝ
  | .vertex i => Geometry.coarse c i
  | .between seg t => Geometry.coarse c seg + t * wide c seg

/-- The next sample is not before this one and not farther than the spacing. -/
def Step (spacing : ℝ) (x y : Sample) : Prop := x.arc c ≤ y.arc c ∧ y.coarse c ≤ x.coarse c + spacing

/-- All segments between the two vertices are too short to count. -/
def Near (i j : ℕ) : Prop := ∀ k, min i j ≤ k → k < max i j → gap c k < 1e-12

variable {c} {last : ℕ}

theorem Near.refl (i : ℕ) : Near c i i := fun k above below => by omega

theorem Near.symm {i j : ℕ} (near : Near c i j) : Near c j i :=
  fun k above below => near k (by rwa [min_comm]) (by rwa [max_comm])

theorem Near.trans {i j k : ℕ} (first : Near c i j) (second : Near c j k) : Near c i k := by
  intro l above below
  by_cases inside : min i j ≤ l ∧ l < max i j
  · exact first l inside.1 inside.2
  · exact second l (by omega) (by omega)

theorem Near.coarse {i j : ℕ} (near : Near c i j) (order : i ≤ j) : coarse c i = Geometry.coarse c j := by
  induction j, order using Nat.le_induction with
  | base => rfl
  | succ j order ih =>
    have short := near j (by omega) (by omega)
    rw [Geometry.coarse, wide, if_pos short, add_zero]
    exact ih fun k above below => near k (by omega) (by omega)

variable (rise : ∀ i < last, c i ≤ c (i + 1))

include rise

theorem arc_mono {i j : ℕ} (order : i ≤ j) (below : j ≤ last) : c i ≤ c j := by
  induction j, order using Nat.le_induction with
  | base => exact le_rfl
  | succ j order ih => exact (ih (by omega)).trans (rise j (by omega))

/-- What the coarse arc length leaves out does not shrink. -/
theorem fine_mono {i j : ℕ} (order : i ≤ j) (below : j ≤ last) : c i - coarse c i ≤ c j - coarse c j := by
  induction j, order using Nat.le_induction with
  | base => exact le_rfl
  | succ j order ih =>
    have before := ih (by omega)
    have up := rise j (by omega)
    have part : wide c j ≤ c (j + 1) - c j := by
      unfold wide
      split
      · linarith
      · exact le_rfl
    rw [coarse]
    linarith

/-- A span that counts as none has no segment that counts. -/
theorem near_of_short {i j : ℕ} (order : i ≤ j) (below : j ≤ last) (short : c j - c i < 1e-12) : Near c i j := by
  intro k above less
  rw [min_eq_left order] at above
  rw [max_eq_right order] at less
  have left := arc_mono rise above (by omega)
  have right := arc_mono rise (show k + 1 ≤ j by omega) below
  unfold gap
  linarith

end Arc

/-- Nothing is left out where no segment is shorter than what counts, unless it has no length. -/
def Clear (c : ℕ → ℝ) (last : ℕ) : Prop := ∀ i < last, gap c i < 1e-12 → gap c i = 0

section Clear

variable {c : ℕ → ℝ} {last : ℕ}

theorem Clear.wide (clear : Clear c last) {i : ℕ} (inside : i < last) : wide c i = gap c i := by
  unfold Geometry.wide
  split
  · rename_i short
    exact (clear i inside short).symm
  · rfl

theorem Clear.coarse (clear : Clear c last) (zero : c 0 = 0) {i : ℕ} (inside : i ≤ last) : coarse c i = c i := by
  induction i with
  | zero => exact zero.symm
  | succ i ih =>
    rw [Geometry.coarse, ih (by omega), clear.wide (by omega), gap]
    ring

end Clear

/-! ### The places of the samples -/

section Spots

variable (c : ℕ → ℝ)

/-- The place that the code samples for the target `τ` in the segment `seg`. -/
def spotAt (seg : ℕ) (target : ℝ) : Sample :=
  if gap c seg < 1e-12 then .vertex seg else .between seg (max 0 (min 1 ((target - c seg) / gap c seg)))

/-- Its arc length and coarse arc length. -/
def arcOf (seg : ℕ) (target : ℝ) : ℝ := if gap c seg < 1e-12 then c seg else target

def coarseOf (seg : ℕ) (target : ℝ) : ℝ :=
  if gap c seg < 1e-12 then coarse c seg else coarse c seg + (target - c seg)

variable {c} {last : ℕ}

theorem spotAt_place {seg : ℕ} {target : ℝ} (above : c seg ≤ target) (below : target ≤ c (seg + 1)) :
    (spotAt c seg target).arc c = arcOf c seg target ∧ (spotAt c seg target).coarse c = coarseOf c seg target := by
  unfold spotAt arcOf coarseOf
  split
  · exact ⟨rfl, rfl⟩
  · rename_i counts
    have positive : 0 < gap c seg := by
      have : (0 : ℝ) < 1e-12 := by norm_num
      linarith [not_lt.mp counts]
    have high : (target - c seg) / gap c seg ≤ 1 := by
      rw [div_le_one positive]
      unfold gap
      linarith
    have low : 0 ≤ (target - c seg) / gap c seg := div_nonneg (by linarith) positive.le
    rw [min_eq_right high, max_eq_right low]
    simp only [Sample.arc, Sample.coarse, wide, if_neg counts]
    rw [div_mul_cancel₀ _ positive.ne']
    exact ⟨by ring, rfl⟩

theorem places_step (rise : ∀ i < last, c i ≤ c (i + 1)) {s t : ℕ} {target target' : ℝ} (order : s ≤ t) (inside : t ≤ last)
    (below : s < t → target ≤ c (s + 1)) (above' : c t ≤ target') (forward : target ≤ target') :
    arcOf c s target ≤ arcOf c t target' ∧ coarseOf c t target' ≤ coarseOf c s target + (target' - target) := by
  rcases order.eq_or_lt with rfl | before
  · unfold arcOf coarseOf
    split
    · exact ⟨le_rfl, by linarith⟩
    · exact ⟨forward, by linarith⟩
  · have next := below before
    have joint := arc_mono rise (show s + 1 ≤ t by omega) inside
    have fine := fine_mono rise (show s + 1 ≤ t by omega) inside
    have up := rise s (by omega)
    have first : arcOf c s target ≤ c (s + 1) ∧ target - (c (s + 1) - coarse c (s + 1)) ≤ coarseOf c s target := by
      unfold arcOf coarseOf
      rw [coarse, wide]
      split
      · exact ⟨up, by linarith⟩
      · exact ⟨next, by unfold gap; linarith⟩
    have second : c t ≤ arcOf c t target' ∧ coarseOf c t target' ≤ target' - (c t - coarse c t) := by
      unfold arcOf coarseOf
      split
      · exact ⟨le_rfl, by linarith⟩
      · exact ⟨above', by linarith⟩
    exact ⟨by linarith [first.1, second.1], by linarith [first.2, second.2]⟩

/-! ### One span -/

variable (c) in
/-- The target of the sample `j` of a span with `m` samples. -/
def target (k0 k1 m j : ℕ) : ℝ := c k0 + (j / (m - 1 : ℝ)) * (c k1 - c k0)

variable (cum : List ℝ)

/-- The places of the inner samples. -/
def innerSpots (k0 k1 m : ℕ) : List ℕ → ℕ → List Sample
  | [], _ => []
  | j :: js, seg =>
    let t := target (cum.getD · 0) k0 k1 m j
    let seg := advanceSeg cum k1 t seg
    spotAt (cum.getD · 0) seg t :: innerSpots k0 k1 m js seg

variable {cum}

theorem advanceSeg_place {k1 seg : ℕ} {t : ℝ} (before : seg < k1) (above : cum.getD seg 0 ≤ t) (below : t ≤ cum.getD k1 0) :
    seg ≤ advanceSeg cum k1 t seg ∧ advanceSeg cum k1 t seg < k1 ∧ cum.getD (advanceSeg cum k1 t seg) 0 ≤ t ∧
      t ≤ cum.getD (advanceSeg cum k1 t seg + 1) 0 := by
  fun_induction advanceSeg cum k1 t seg with
  | case1 seg more ih =>
    obtain ⟨order, rest⟩ := ih more.1 more.2.le
    exact ⟨by omega, rest⟩
  | case2 seg stop =>
    refine ⟨le_rfl, before, above, ?_⟩
    rcases Nat.lt_or_ge (seg + 1) k1 with inside | final
    · exact not_lt.mp fun less => stop ⟨inside, less⟩
    · rwa [show seg + 1 = k1 by omega]

/-- Consecutive targets are at most the spacing apart. -/
theorem target_step {c : ℕ → ℝ} {k0 k1 m j : ℕ} {spacing : ℝ} (close : (c k1 - c k0) / (m - 1 : ℝ) ≤ spacing) :
    target c k0 k1 m (j + 1) - target c k0 k1 m j ≤ spacing := by
  unfold target
  push_cast
  calc c k0 + ((j : ℝ) + 1) / (m - 1) * (c k1 - c k0) - (c k0 + j / (m - 1) * (c k1 - c k0))
      = (c k1 - c k0) / (m - 1 : ℝ) := by ring
    _ ≤ spacing := close

theorem target_mono {c : ℕ → ℝ} {k0 k1 m i j : ℕ} (long : 2 ≤ m) (up : c k0 ≤ c k1) (order : i ≤ j) :
    target c k0 k1 m i ≤ target c k0 k1 m j := by
  have parts : (0 : ℝ) < m - 1 := by
    have : (2 : ℝ) ≤ m := by exact_mod_cast long
    linarith
  have share : (i : ℝ) / (m - 1) ≤ j / (m - 1) := by
    have : (i : ℝ) ≤ j := by exact_mod_cast order
    gcongr
  unfold target
  have := mul_le_mul_of_nonneg_right share (sub_nonneg.mpr up)
  linarith

theorem target_first (c : ℕ → ℝ) (k0 k1 m : ℕ) : target c k0 k1 m 0 = c k0 := by simp [target]

theorem target_last {c : ℕ → ℝ} {k0 k1 m : ℕ} (long : 2 ≤ m) : target c k0 k1 m (m - 1) = c k1 := by
  have parts : (m - 1 : ℝ) ≠ 0 := by
    have : (2 : ℝ) ≤ m := by exact_mod_cast long
    linarith
  rw [target, Nat.cast_sub (by omega), Nat.cast_one, div_self parts]
  ring

theorem arcOf_vertex (c : ℕ → ℝ) (i : ℕ) : arcOf c i (c i) = c i := by
  unfold arcOf
  split <;> rfl

theorem coarseOf_vertex (c : ℕ → ℝ) (i : ℕ) : coarseOf c i (c i) = coarse c i := by
  unfold coarseOf
  split
  · rfl
  · ring

/-- What `x` has to say about the place `seg`, `t` for the samples after it. -/
structure Stands (c : ℕ → ℝ) (x : Sample) (seg : ℕ) (t : ℝ) : Prop where
  arc : x.arc c ≤ arcOf c seg t
  coarse : x.coarse c = coarseOf c seg t

variable {last : ℕ}

/-- From the sample before `j` on: the inner samples and the knot at the end of the span. -/
theorem innerSpots_chain (rise : ∀ i < last, cum.getD i 0 ≤ cum.getD (i + 1) 0) {k0 k1 m : ℕ} {spacing : ℝ} (long : 2 ≤ m)
    (order : k0 < k1) (inside : k1 ≤ last) (close : (cum.getD k1 0 - cum.getD k0 0) / (m - 1 : ℝ) ≤ spacing) {r : ℕ} {later : List Sample}
    (next : k1 ≤ r) (top : r ≤ last) (near : Near (cum.getD · 0) k1 r) (chain : (.vertex r :: later).IsChain (Step (cum.getD · 0) spacing))
    {n j seg : ℕ} {x : Sample} (count : j + n = m - 2) (front : seg < k1) (above : cum.getD seg 0 ≤ target (cum.getD · 0) k0 k1 m j)
    (below : target (cum.getD · 0) k0 k1 m j ≤ cum.getD (seg + 1) 0) (stands : Stands (cum.getD · 0) x seg (target (cum.getD · 0) k0 k1 m j)) :
    (x :: innerSpots cum k0 k1 m (List.range' (j + 1) n) seg ++ .vertex r :: later).IsChain (Step (cum.getD · 0) spacing) := by
  have up : cum.getD k0 0 ≤ cum.getD k1 0 := arc_mono rise order.le inside
  induction n generalizing j seg x with
  | zero =>
    refine .cons_cons ?_ chain
    have final : target (cum.getD · 0) k0 k1 m (j + 1) = cum.getD k1 0 := by
      rw [show j + 1 = m - 1 by omega]
      exact target_last long
    have forward := target_mono (c := (cum.getD · 0)) (i := j) (j := j + 1) long up (by omega)
    obtain ⟨arc, coarse⟩ := places_step rise (s := seg) (t := k1) (by omega) inside (fun _ => below) final.ge forward
    have small := target_step (c := (cum.getD · 0)) (j := j) close
    have reach : cum.getD k1 0 ≤ cum.getD r 0 := arc_mono rise next top
    rw [final, arcOf_vertex] at arc
    rw [final, coarseOf_vertex] at coarse
    rw [final] at small
    refine ⟨(stands.arc.trans arc).trans reach, ?_⟩
    rw [stands.coarse, show (Sample.vertex r).coarse (cum.getD · 0) = Geometry.coarse (cum.getD · 0) k1 from (near.coarse next).symm]
    linarith
  | succ n ih =>
    have forward := target_mono (c := (cum.getD · 0)) (i := j) (j := j + 1) long up (by omega)
    have under : target (cum.getD · 0) k0 k1 m (j + 1) ≤ cum.getD k1 0 := by
      have := target_mono (c := (cum.getD · 0)) (i := j + 1) (j := m - 1) long up (by omega)
      rwa [target_last long] at this
    obtain ⟨onward, stop, low, high⟩ := advanceSeg_place front (above.trans forward) under
    rw [List.range'_succ, innerSpots]
    generalize advanceSeg cum k1 (target (cum.getD · 0) k0 k1 m (j + 1)) seg = seg' at onward stop low high ⊢
    obtain ⟨arc, coarse⟩ := places_step rise (s := seg) (t := seg') onward (by omega) (fun _ => below) low forward
    obtain ⟨placed, placed'⟩ := spotAt_place (c := (cum.getD · 0)) low high
    have small := target_step (c := (cum.getD · 0)) (j := j) close
    refine .cons_cons ⟨?_, ?_⟩ (ih (by omega) stop low high ⟨placed.le, placed'⟩)
    · rw [placed]
      exact stands.arc.trans arc
    · rw [placed', stands.coarse]
      linarith

/-- On the polyline with the vertices up to `last`. -/
def Sample.Valid (last : ℕ) : Sample → Prop
  | .vertex i => i ≤ last
  | .between seg t => seg < last ∧ 0 ≤ t ∧ t ≤ 1

theorem Clear.coarse_sample {c : ℕ → ℝ} (clear : Clear c last) (zero : c 0 = 0) {x : Sample} (valid : x.Valid last) :
    x.coarse c = x.arc c := by
  cases x with
  | vertex i => exact clear.coarse zero valid
  | between seg t =>
    rw [Sample.coarse, Sample.arc, clear.coarse zero valid.1.le, clear.wide valid.1]

theorem innerSpots_valid {k0 k1 m seg : ℕ} {js : List ℕ} (before : seg < k1) (inside : k1 ≤ last) :
    ∀ x ∈ innerSpots cum k0 k1 m js seg, x.Valid last := by
  induction js generalizing seg with
  | nil => simp [innerSpots]
  | cons j js ih =>
    rw [innerSpots]
    have stop : advanceSeg cum k1 (target (cum.getD · 0) k0 k1 m j) seg < k1 := by
      generalize target (cum.getD · 0) k0 k1 m j = t
      fun_induction advanceSeg cum k1 t seg with
      | case1 seg more ih => exact ih more.1
      | case2 seg _ => exact before
    refine List.forall_mem_cons.mpr ⟨?_, ih stop⟩
    unfold spotAt
    split
    · exact (stop.trans_le inside).le
    · exact ⟨stop.trans_le inside, le_max_left _ _, max_le zero_le_one (min_le_left _ _)⟩

/-! ### All spans -/

variable (cum) in
/-- The samples from the vertex `r` on, which stands for the start of the first span. -/
def spotsFrom (spacing : ℝ) (spans last : ℕ) : ℕ → List (ℕ × ℕ) → List Sample
  | r, [] => [.vertex r]
  | r, (k0, k1) :: rest =>
    let m := spanCount spans spacing (cum.getD k1 0 - cum.getD k0 0)
    if m = 0 then spotsFrom spacing spans last (if k1 = last then k1 else r) rest
    else .vertex r :: innerSpots cum k0 k1 m (List.range' 1 (m - 2)) k0 ++ spotsFrom spacing spans last k1 rest

theorem spanCount_zero {spans : ℕ} {spacing span : ℝ} (zero : spanCount spans spacing span = 0) : 1 < spans ∧ span < 1e-12 := by
  unfold spanCount at zero
  split at zero
  · assumption
  · omega

theorem spanCount_close {spans : ℕ} {spacing span : ℝ} (positive : 0 < spacing) (some : spanCount spans spacing span ≠ 0) :
    2 ≤ spanCount spans spacing span ∧ span / ((spanCount spans spacing span : ℝ) - 1) ≤ spacing := by
  unfold spanCount at some ⊢
  split at some
  · exact absurd rfl some
  · rename_i counts
    rw [if_neg counts]
    refine ⟨le_max_left _ _, ?_⟩
    have high : (⌈span / spacing⌉ : ℝ) ≤ (max 2 (⌈span / spacing⌉.toNat + 1) : ℕ) - 1 := by
      have whole : ⌈span / spacing⌉ ≤ ((max 2 (⌈span / spacing⌉.toNat + 1) : ℕ) : ℤ) - 1 := by omega
      exact_mod_cast whole
    have parts : (0 : ℝ) < (max 2 (⌈span / spacing⌉.toNat + 1) : ℕ) - 1 := by
      have : (2 : ℝ) ≤ (max 2 (⌈span / spacing⌉.toNat + 1) : ℕ) := by exact_mod_cast le_max_left _ _
      linarith
    rw [div_le_iff₀ parts, mul_comm, ← div_le_iff₀ positive]
    exact (Int.le_ceil _).trans high

theorem chain_le_last {k : ℕ} {ks : List ℕ} (strict : (k :: ks).IsChain (· < ·)) : k ≤ ks.getLastD k := by
  induction ks generalizing k with
  | nil => exact le_rfl
  | cons l ks ih =>
    obtain ⟨less, more⟩ := List.isChain_cons_cons.mp strict
    rw [List.getLastD_cons]
    exact less.le.trans (ih more)

/-- What the samples from the vertex `r` on say about the knots `k0 :: ks`, where `r` is `k0` or coincides with it. -/
structure Sampled (cum : List ℝ) (spacing : ℝ) (last r k0 : ℕ) (ks : List ℕ) (samples : List Sample) : Prop where
  head : ∃ r' later, samples = .vertex r' :: later ∧ r ≤ r' ∧ r' ≤ last ∧ Near (cum.getD · 0) r r' ∧ (r' = r ∨ r' = last) ∧
    (r' = last → later = [])
  ends : samples.getLast? = some (.vertex last)
  chain : samples.IsChain (Step (cum.getD · 0) spacing)
  valid : ∀ x ∈ samples, x.Valid last
  knots : ∃ reps : List ℕ, (reps.map Sample.vertex).Sublist samples ∧ reps.Sublist (r :: ks) ∧
    ∀ k ∈ r :: k0 :: ks, ∃ k' ∈ reps, Near (cum.getD · 0) k' k

theorem spotsFrom_sampled (rise : ∀ i < last, cum.getD i 0 ≤ cum.getD (i + 1) 0) {spacing : ℝ} (positive : 0 < spacing) (spans : ℕ)
    {r k0 : ℕ} {ks : List ℕ} (strict : (k0 :: ks).IsChain (· < ·)) (final : ks.getLastD k0 = last) (order : r ≤ k0)
    (near : Near (cum.getD · 0) r k0) (stop : k0 = last → r = last) :
    Sampled cum spacing last r k0 ks (spotsFrom cum spacing spans last r ((k0 :: ks).zip ks)) := by
  induction ks generalizing r k0 with
  | nil =>
    obtain rfl : r = last := stop final
    refine ⟨⟨r, [], rfl, le_rfl, le_rfl, .refl r, .inl rfl, fun _ => rfl⟩, rfl, .singleton _, ?_, [r], .refl _, .refl _, ?_⟩
    · simp [spotsFrom, Sample.Valid]
    · simp only [List.mem_cons, List.not_mem_nil, or_false, forall_eq_or_imp, forall_eq, exists_eq_left]
      exact ⟨.refl r, near⟩
  | cons k1 ks ih =>
    obtain ⟨less, more⟩ := List.isChain_cons_cons.mp strict
    rw [List.getLastD_cons] at final
    have inside : k1 ≤ last := final ▸ chain_le_last more
    rw [List.zip_cons_cons, spotsFrom]
    by_cases zero : spanCount spans spacing (cum.getD k1 0 - cum.getD k0 0) = 0
    · simp only [if_pos zero]
      have coincide : Near (cum.getD · 0) k0 k1 := near_of_short rise less.le inside (spanCount_zero zero).2
      have along := near.trans coincide
      -- the vertex that stands for the next knot
      obtain ⟨r1, choice, split⟩ : ∃ r1, (if k1 = last then k1 else r) = r1 ∧ (r1 = r ∧ k1 ≠ last ∨ r1 = k1 ∧ k1 = last) := by
        by_cases here : k1 = last
        · exact ⟨k1, if_pos here, .inr ⟨rfl, here⟩⟩
        · exact ⟨r, if_neg here, .inl ⟨rfl, here⟩⟩
      rw [choice]
      have before : r ≤ r1 ∧ r1 ≤ k1 := by omega
      have same : Near (cum.getD · 0) r r1 := by
        rcases split with ⟨rfl, -⟩ | ⟨rfl, -⟩
        · exact .refl r1
        · exact along
      obtain ⟨⟨r', later, head, up, top, reach, choice', alone⟩, ends, chain, valid, reps, inside', sub, knots⟩ :=
        ih more final before.2 (same.symm.trans along) (by omega)
      refine ⟨⟨r', later, head, by omega, top, same.trans reach, ?_, alone⟩, ends, chain, valid, reps, inside', ?_, ?_⟩
      · omega
      · rcases split with ⟨rfl, -⟩ | ⟨rfl, -⟩
        · exact sub.trans ((List.sublist_cons_self k1 ks).cons_cons r1)
        · exact sub.trans (List.sublist_cons_self r (r1 :: ks))
      · simp only [List.mem_cons, forall_eq_or_imp] at knots ⊢
        obtain ⟨-, ⟨k', member, close⟩, others⟩ := knots
        exact ⟨⟨k', member, close.trans along.symm⟩, ⟨k', member, close.trans coincide.symm⟩, ⟨k', member, close⟩, others⟩
    · simp only [if_neg zero]
      obtain ⟨long, close⟩ := spanCount_close positive zero
      generalize spanCount spans spacing (cum.getD k1 0 - cum.getD k0 0) = m at long close ⊢
      obtain ⟨⟨r', later, head, up, top, reach, -, -⟩, ends, chain, valid, reps, inside', sub, knots⟩ :=
        ih more final le_rfl (.refl k1) id
      rw [head] at chain
      have start : Stands (cum.getD · 0) (.vertex r) k0 (target (cum.getD · 0) k0 k1 m 0) := by
        rw [target_first]
        refine ⟨?_, ?_⟩
        · rw [arcOf_vertex]
          exact arc_mono rise order (by omega)
        · rw [coarseOf_vertex]
          exact near.coarse order
      have joined := innerSpots_chain rise long less inside close up top reach chain (n := m - 2) (j := 0) (by omega) less
        (by rw [target_first]) (by rw [target_first]; exact rise k0 (by omega)) start
      rw [← head] at joined
      refine ⟨⟨r, _, rfl, le_rfl, by omega, .refl r, .inl rfl, by omega⟩, ?_, joined, ?_, r :: reps, ?_, ?_, ?_⟩
      · rw [List.getLast?_append, ends]
        rfl
      · rw [List.cons_append, List.forall_mem_cons, List.forall_mem_append]
        exact ⟨show r ≤ last by omega, innerSpots_valid less inside, valid⟩
      · exact (inside'.trans (List.sublist_append_right _ _)).cons_cons _
      · exact sub.cons_cons r
      · simp only [List.mem_cons, forall_eq_or_imp] at knots ⊢
        obtain ⟨at1, -, others⟩ := knots
        have keep : ∀ {k : ℕ}, (∃ k' ∈ reps, Near (cum.getD · 0) k' k) → ∃ k', (k' = r ∨ k' ∈ reps) ∧ Near (cum.getD · 0) k' k :=
          fun ⟨k', member, close⟩ => ⟨k', .inr member, close⟩
        exact ⟨⟨r, .inl rfl, .refl r⟩, ⟨r, .inl rfl, near⟩, keep at1, fun k member => keep (others k member)⟩

end Spots

end

end Dyx3.Geometry
