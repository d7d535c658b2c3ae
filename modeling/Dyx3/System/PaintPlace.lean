import Dyx3.Rpp.AutoRuns
import Dyx3.System.PlanPath
import Dyx3.Spray.PathModel

/-!
Where the paint goes: the boundaries and the flags of spray's path model against the runs of the plan
that was submitted.

An accepted plan is stored, conditioned and loaded. The vertices of the conditioned runs are numbered by
conditioning the stored path with numbered vertices, so that a stretch of the model can be traced to the
run it belongs to.
-/

namespace Dyx3.System

noncomputable section

open Geometry Rpp Backend Spray

/-! ### The plan -/

/-- A change between a mark run and a travel run. -/
structure Change where
  point : Point
  kind : BoundaryKind

def planChanges : List PlanRun → List Change
  | r :: r' :: rest =>
    (r.points.getLast?.map fun p => ⟨p.at, boundaryKind (r'.kind = .mark)⟩).toList ++ planChanges (r' :: rest)
  | _ => []

def pointAt (plan : List PlanRun) (at_ : ℕ × ℕ) : Option PlanPoint := plan[at_.1]?.bind (·.points[at_.2]?)

/-- The last point of a run and the first of the next. -/
def Shared (plan : List PlanRun) (x y : ℕ × ℕ) : Prop :=
  y.1 = x.1 + 1 ∧ y.2 = 0 ∧ plan[x.1]?.map (·.points.length) = some (x.2 + 1)

/-- The submitted points are more than a micrometre apart, except at shared boundaries. -/
def Separated (plan : List PlanRun) : Prop :=
  ∀ x y a b, pointAt plan x = some a → pointAt plan y = some b → x ≠ y → ¬Shared plan x y → ¬Shared plan y x →
    1e-6 < hypot a.at b.at

/-- What admission stores of the plan has no duplicate neighbours. -/
theorem storedRuns_noDuplicates {plan : List PlanRun} (stop : Option PlanPoint)
    (inside : ∀ r ∈ plan, NoDuplicates (r.points.map PlanPoint.at))
    (across : plan.IsChain fun r r' => ∀ p ∈ r.points.getLast?, ∀ q ∈ r'.points[1]?, 1e-6 ≤ hypot p.at q.at)
    (start : ∀ p ∈ stop, ∀ r ∈ plan.head?, ∀ q ∈ r.points[1]?, 1e-6 ≤ hypot p.at q.at)
    (ok : ∀ r ∈ plan, r.Ok) :
    ∀ r ∈ storedRuns stop plan, NoDuplicates (r.points.map PlanPoint.at) := by
  induction plan generalizing stop with
  | nil => simp [storedRuns]
  | cons r plan ih =>
    rw [List.forall_mem_cons] at inside ok
    rw [storedRuns, List.forall_mem_cons]
    refine ⟨densePoints_noDuplicates _ ?_, ih _ inside.2 across.tail ?_ ok.2⟩
    · have points := inside.1
      cases stop with
      | none => cases h : r.points <;> simpa [snapTo, h] using points
      | some p =>
        rcases h : r.points with _ | ⟨first, _ | ⟨q, rest⟩⟩
        · simp [snapTo, NoDuplicates]
        · simp [snapTo, NoDuplicates]
        · rw [h] at points
          simp only [NoDuplicates, snapTo, List.map_cons, List.isChain_cons_cons] at points ⊢
          exact ⟨start p rfl r rfl q (by simp [h]), points.2⟩
    · rw [snapTo_last _ ok.1.long]
      cases plan with
      | nil => simp
      | cons r' plan =>
        intro p hp r'' hr q hq
        obtain rfl : r' = r'' := by simpa using hr
        exact (List.isChain_cons_cons.mp across).1 p hp q hq

theorem noDuplicates_of_separated {plan : List PlanRun} (h : Separated plan) {r : PlanRun} (mem : r ∈ plan) :
    NoDuplicates (r.points.map PlanPoint.at) := by
  obtain ⟨k, hk, rfl⟩ := List.getElem_of_mem mem
  rw [NoDuplicates, List.isChain_map, List.isChain_iff_getElem]
  intro i hi
  refine (h (k, i) (k, i + 1) _ _ ?_ ?_ ?_ ?_ ?_).le
  · simp [pointAt, List.getElem?_eq_getElem hk, List.getElem?_eq_getElem (show i < plan[k].points.length by omega)]
  · simp [pointAt, List.getElem?_eq_getElem hk, List.getElem?_eq_getElem hi]
  · simp
  · simp [Shared]
  · simp [Shared]

theorem across_of_separated {plan : List PlanRun} (h : Separated plan) :
    plan.IsChain fun r r' => ∀ p ∈ r.points.getLast?, ∀ q ∈ r'.points[1]?, 1e-6 ≤ hypot p.at q.at := by
  rw [List.isChain_iff_getElem]
  intro k hk p hp q hq
  have last : plan[k].points[plan[k].points.length - 1]? = some p := by
    rw [← List.getLast?_eq_getElem?]
    exact hp
  refine (h (k, plan[k].points.length - 1) (k + 1, 1) p q ?_ ?_ ?_ ?_ ?_).le
  · simp [pointAt, List.getElem?_eq_getElem (show k < plan.length by omega), last]
  · simpa [pointAt, List.getElem?_eq_getElem hk] using hq
  · simp
  · simp [Shared]
  · rintro ⟨back, -⟩
    simp only at back
    omega

/-- Neighbours of the path that RPP reads are no duplicates. -/
theorem far_of_separated {plan : List PlanRun} (accepted : Accepted plan) (h : Separated plan) :
    ((rawPath (joinRuns [] (storedRuns none plan))).map RawPoint.vertex).IsChain Far := by
  rw [(stores_of_accepted accepted).vertices]
  refine stored_chain (drawn_of_accepted accepted) fun d mem => ?_
  obtain ⟨r, inside, rfl⟩ := List.mem_map.mp mem
  exact storedRuns_noDuplicates none (fun _ => noDuplicates_of_separated h) (across_of_separated h) (by simp)
    accepted.ok r inside

/-! ### The model against the plan -/

def numbersOf (runs : List (ConditionedRun (Point × ℕ))) : List ℕ := runs.flatMap fun r => r.pts.map Prod.snd

/-- Every boundary but the terminal one is a change of the plan, one for each, and inside a run the flag
of every stretch is that of the run it was drawn in; `numbers` are those of the vertices of the model. -/
structure PaintsAsDrawn (plan : List PlanRun) (m : PathModel) (numbers : List ℕ) : Prop where
  boundaries : List.Forall₂ (fun (b : Boundary) (c : Change) => b.kind = c.kind ∧ m.LiesAt b.s c.point)
    m.innerBoundaries (planChanges plan)
  stretches : ∀ (i a b : ℕ), numbers[i]? = some a → numbers[i + 1]? = some b → m.runIds[i]? = m.runIds[i + 1]? →
    ∀ t, 0 < t → t < 1 - 1e-12 → (m.flagAt i t = true ↔ OfMarkRun (drawnRuns plan) a b)

/-- The vertices of the model with their numbers; `k` is the number of the first run. -/
def numbered (k : ℕ) (runs : List (ConditionedRun (Point × ℕ))) : List (ℕ × PathVertex) :=
  (runs.zipIdx k).flatMap fun r =>
    (r.1.pts.zip r.1.flags).map fun v => (v.1.2, ⟨(pos v.1).n, (pos v.1).e, v.2, r.2⟩)

theorem numbered_vertices (runs : List (ConditionedRun (Point × ℕ))) :
    (numbered 0 runs).map Prod.snd = runVertices runs := by
  simp only [numbered, runVertices, List.map_flatMap, List.map_map]
  rfl

theorem numbered_numbers {runs : List (ConditionedRun (Point × ℕ))} (k : ℕ)
    (balanced : ∀ r ∈ runs, r.flags.length = r.pts.length) : (numbered k runs).map Prod.fst = numbersOf runs := by
  induction runs generalizing k with
  | nil => rfl
  | cons r runs ih =>
    rw [List.forall_mem_cons] at balanced
    have rest := ih (k + 1) balanced.2
    rw [numbered, numbersOf] at rest ⊢
    rw [List.zipIdx_cons, List.flatMap_cons, List.map_append, rest, List.flatMap_cons, List.map_map]
    congr 1
    have points : (r.pts.zip r.flags).map Prod.fst = r.pts := List.map_fst_zip balanced.1.ge
    conv_rhs => rw [← points, List.map_map]
    rfl

theorem run_of_mem_numbered {k : ℕ} {runs : List (ConditionedRun (Point × ℕ))} {v : ℕ × PathVertex}
    (mem : v ∈ numbered k runs) : k ≤ v.2.run := by
  obtain ⟨⟨r, i⟩, inside, mem⟩ := List.mem_flatMap.mp mem
  obtain ⟨w, -, rfl⟩ := List.mem_map.mp mem
  exact List.le_snd_of_mem_zipIdx inside

/-- A relation between neighbours of one run, over all runs. -/
theorem numbered_chain (rel : ℕ → Bool → ℕ → Prop) (k : ℕ) (runs : List (ConditionedRun (Point × ℕ))) :
    ((numbered k runs).IsChain fun v w => v.2.run = w.2.run → rel v.1 v.2.flag w.1) ↔
      ∀ r ∈ runs, (r.pts.zip r.flags).IsChain fun v w => rel v.1.2 v.2 w.1.2 := by
  induction runs generalizing k with
  | nil => simp [numbered]
  | cons r runs ih =>
    have rest := ih (k + 1)
    rw [numbered] at rest ⊢
    rw [List.zipIdx_cons, List.flatMap_cons, List.isChain_append, List.forall_mem_cons, rest, List.isChain_map]
    simp only [true_imp_iff, and_congr_right_iff, and_iff_left_iff_imp]
    -- the last vertex of this run and the first of the next are of different runs
    intro _ _ v last w first seam
    obtain ⟨u, -, rfl⟩ := List.mem_map.mp (List.mem_of_getLast? last)
    have := run_of_mem_numbered (k := k + 1) (List.mem_of_head? first)
    simp only at seam
    omega

/-- The stretches, run by run. -/
theorem stretches_iff {ds : List (DrawnRun Point)} {m : PathModel} {runs : List (ConditionedRun (Point × ℕ))}
    (model : ModelOf (runVertices runs) m) (balanced : ∀ r ∈ runs, r.flags.length = r.pts.length) :
    (∀ (i a b : ℕ), (numbersOf runs)[i]? = some a → (numbersOf runs)[i + 1]? = some b → m.runIds[i]? = m.runIds[i + 1]? →
      ∀ t, 0 < t → t < 1 - 1e-12 → (m.flagAt i t = true ↔ OfMarkRun ds a b)) ↔
      ∀ r ∈ runs, (r.pts.zip r.flags).IsChain fun v w => (v.2 = true ↔ OfMarkRun ds v.1.2 w.1.2) := by
  rw [← numbered_chain (fun a f b => (f = true ↔ OfMarkRun ds a b)) 0, List.isChain_iff_getElem]
  have numbers := numbered_numbers 0 balanced
  have vertices := numbered_vertices runs
  have flag : ∀ i (hi : i < (numbered 0 runs).length) t, t < 1 - 1e-12 → m.flagAt i t = (numbered 0 runs)[i].2.flag := by
    intro i hi t ht
    rw [PathModel.flagAt, if_neg (not_le.mpr ht), model.flags, ← vertices]
    simp [List.getD_eq_getElem?_getD, hi]
  have number : ∀ i (hi : i < (numbered 0 runs).length), (numbersOf runs)[i]? = some (numbered 0 runs)[i].1 := by
    intro i hi
    rw [← numbers, List.getElem?_map, List.getElem?_eq_getElem hi]
    rfl
  have run : ∀ i (hi : i < (numbered 0 runs).length), m.runIds[i]? = some (numbered 0 runs)[i].2.run := by
    intro i hi
    rw [model.runIds, ← vertices, List.getElem?_map, List.getElem?_map, List.getElem?_eq_getElem hi]
    rfl
  constructor
  · intro all i hi same
    have := all i _ _ (number i (by omega)) (number (i + 1) hi) (by rw [run i (by omega), run (i + 1) hi, same])
      (1 / 2) (by norm_num) (by norm_num)
    rwa [flag i (by omega) _ (by norm_num)] at this
  · intro chain i a b ha hb same t _ ht
    have hi : i + 1 < (numbered 0 runs).length := by
      have := (List.getElem?_eq_some_iff.mp hb).1
      rwa [← numbers, List.length_map] at this
    rw [number i (by omega), Option.some_inj] at ha
    rw [number (i + 1) hi, Option.some_inj] at hb
    rw [run i (by omega), run (i + 1) hi, Option.some_inj] at same
    rw [flag i (by omega) t ht, ← ha, ← hb]
    exact chain i hi same

/-! ### Where no two runs fuse -/

/-- Inside a run that lies in one drawn run the flags are right. -/
theorem stretch_of_within {ds : List (DrawnRun Point)} (long : ∀ d ∈ ds, 2 ≤ d.pts.length) {d : DrawnRun (Point × ℕ)}
    (mem : d ∈ labelRuns 0 ds) {r : ConditionedRun (Point × ℕ)} (within : Within d r) :
    (r.pts.zip r.flags).IsChain fun v w => (v.2 = true ↔ OfMarkRun ds v.1.2 w.1.2) := by
  have increasing : r.pts.Pairwise fun v w => v.2 < w.2 :=
    List.Pairwise.sublist within.sublist (labelRuns_increasing mem)
  have points : (r.pts.zip r.flags).map Prod.fst = r.pts := List.map_fst_zip (by simp [within.flags])
  have ordered : (r.pts.zip r.flags).IsChain fun v w => v.1.2 < w.1.2 := by
    have chain := increasing.isChain
    rwa [← points, List.isChain_map] at chain
  refine (List.IsChain.iff_mem.mp ordered).imp fun v w => ?_
  rintro ⟨hv, hw, order⟩
  have inside : ∀ u ∈ r.pts.zip r.flags, u.1 ∈ d.pts ∧ u.2 = d.mark := by
    rintro ⟨u, f⟩ mem
    obtain ⟨vertex, flag⟩ := List.of_mem_zip mem
    rw [within.flags] at flag
    exact ⟨within.sublist.subset vertex, List.eq_of_mem_replicate flag⟩
  rw [(inside v hv).2]
  exact (ofMarkRun_iff long mem (inside v hv).1 (inside w hw).1 order).symm

/-- The vertices of a run with their flags. -/
def runStamps (r : ConditionedRun (Point × ℕ)) : List (Point × Bool) :=
  (r.pts.zip r.flags).map fun v => (v.1.1, v.2)

theorem runVertices_stamps (runs : List (ConditionedRun (Point × ℕ))) :
    (runVertices runs).map (fun v => (v.point, v.flag)) = runs.flatMap runStamps := by
  have numbered : ∀ k, ((runs.zipIdx k).flatMap fun r => (r.1.pts.zip r.1.flags).map fun v =>
      (⟨(pos v.1).n, (pos v.1).e, v.2, r.2⟩ : PathVertex)).map (fun v => (v.point, v.flag)) =
      runs.flatMap runStamps := by
    induction runs with
    | nil => exact fun _ => rfl
    | cons r runs ih =>
      intro k
      rw [List.zipIdx_cons, List.flatMap_cons, List.map_append, ih, List.flatMap_cons, List.map_map]
      rfl
  exact numbered 0

/-- The block of one drawn run, of one flag, that starts at its first vertex. -/
theorem block_of_runs {p : ConditionParams} {must : KeySet} {d : DrawnRun (Point × ℕ)} (long : 2 ≤ d.pts.length)
    (segment : ∀ r ∈ runsOf p must d, r.profile = .segment) :
    ∃ v l, d.pts.head? = some v ∧
      (runsOf p must d).flatMap runStamps = (v.1, d.mark) :: l ∧
      ∀ u ∈ l, u.2 = d.mark := by
  obtain ⟨r, rs, same, head⟩ := runsOf_start long segment
  have flags : ∀ r ∈ runsOf p must d, ∀ v ∈ r.pts.zip r.flags, v.2 = d.mark := by
    intro r mem v hv
    have within := runsOf_within long mem (segment r mem)
    obtain ⟨-, flag⟩ := List.of_mem_zip (show (v.1, v.2) ∈ r.pts.zip r.flags from hv)
    rw [within.flags] at flag
    exact List.eq_of_mem_replicate flag
  rw [same, List.forall_mem_cons] at flags
  have memr : r ∈ runsOf p must d := by simp [same]
  have within := runsOf_within long memr (segment r memr)
  obtain ⟨v, pts, first⟩ := List.exists_cons_of_ne_nil within.some
  have zip : r.pts.zip r.flags = (v, d.mark) :: pts.zip (List.replicate pts.length d.mark) := by
    rw [within.flags, first]
    simp [List.replicate_succ]
  have stamped : ∀ r' ∈ r :: rs, ∀ u ∈ runStamps r', u.2 = d.mark := by
    intro r' mem u stamp
    obtain ⟨w, inside, rfl⟩ := List.mem_map.mp stamp
    rcases List.mem_cons.mp mem with rfl | mem
    · exact flags.1 w inside
    · exact flags.2 r' mem w inside
  obtain ⟨l, stamps⟩ : ∃ l, runStamps r = (v.1, d.mark) :: l := ⟨_, by rw [runStamps, zip, List.map_cons]⟩
  rw [List.forall_mem_cons, stamps, List.forall_mem_cons] at stamped
  refine ⟨v, l ++ rs.flatMap runStamps, by rw [← head, first]; rfl, ?_, ?_⟩
  · rw [same, List.flatMap_cons, stamps, List.cons_append]
  · rw [List.forall_mem_append]
    refine ⟨stamped.1.2, fun u mem => ?_⟩
    obtain ⟨r', memr, mem⟩ := List.mem_flatMap.mp mem
    exact stamped.2 r' memr u mem

/-- The flag changes exactly at the first vertex of every later drawn run. -/
theorem changes_of_runs {p : ConditionParams} {must : KeySet} {ds : List (DrawnRun (Point × ℕ))} (drawn : Drawn ds)
    (segment : ∀ d ∈ ds, ∀ r ∈ runsOf p must d, r.profile = .segment) :
    (Lib.changes Prod.snd ((ds.flatMap (runsOf p must)).flatMap runStamps)).map some =
      ds.tail.map fun d => d.pts.head?.map fun v => (v.1, d.mark) := by
  cases ds with
  | nil => rfl
  | cons d ds =>
    obtain ⟨v, l, -, block, flags⟩ := block_of_runs (drawn.long d List.mem_cons_self) (segment d List.mem_cons_self)
    rw [List.flatMap_cons, List.flatMap_append, block, List.cons_append, Lib.changes,
      Lib.changesFrom_append flags, List.tail_cons]
    clear block flags
    -- from the block of `d` on
    induction ds generalizing d with
    | nil => rfl
    | cons d' ds ih =>
      obtain ⟨v', l', head, block, flags⟩ := block_of_runs (drawn.long d' (by simp)) (segment d' (by simp))
      have other : d.mark ≠ d'.mark := (List.isChain_cons_cons.mp drawn.chain).1.1
      rw [List.flatMap_cons, List.flatMap_append, block, List.cons_append, Lib.changesFrom, if_pos other,
        Lib.changesFrom_append flags, List.map_cons, List.map_cons, head,
        ih d' drawn.tail fun e mem => segment e (List.mem_cons_of_mem _ mem)]
      rfl

/-- The changes of a plan are the first vertices of its later drawn runs. -/
theorem planChanges_stored {plan : List PlanRun} (stop : Option PlanPoint) (ok : ∀ r ∈ plan, r.Ok) :
    (planChanges plan).map some = (storedRuns stop plan).tail.map fun r =>
      (drawnRun r).pts.head?.map fun v => (⟨v, boundaryKind (drawnRun r).mark⟩ : Change) := by
  induction plan generalizing stop with
  | nil => rfl
  | cons r plan ih =>
    rw [List.forall_mem_cons] at ok
    cases plan with
    | nil => rfl
    | cons r' plan =>
      have rest := ih (snapTo stop r.points).getLast? ok.2
      have last : r.points ≠ [] := List.ne_nil_of_length_pos (by have := ok.1.long; omega)
      have first : r'.points ≠ [] := List.ne_nil_of_length_pos (by have := (ok.2 r' List.mem_cons_self).long; omega)
      have starts := snapTo_head (r.points.getLast last) first
      rw [snapTo_last stop ok.1.long, List.getLast?_eq_some_getLast last, storedRuns, List.tail_cons] at rest
      rw [storedRuns, List.tail_cons, snapTo_last stop ok.1.long, planChanges, List.getLast?_eq_some_getLast last,
        storedRuns, List.map_append, rest, List.map_cons]
      simp only [drawnRun, List.head?_map, densePoints_head, starts, Option.map_some, Option.toList_some,
        List.map_cons, List.map_nil, List.cons_append, List.nil_append]

theorem planChanges_changes {plan : List PlanRun} (accepted : Accepted plan) {stamps : List (Point × Bool)}
    (changes : stamps.map some = (labelRuns 0 (drawnRuns plan)).tail.map fun d =>
      d.pts.head?.map fun v => (v.1, d.mark)) :
    planChanges plan = stamps.map fun v => ⟨v.1, boundaryKind v.2⟩ := by
  refine List.map_injective_iff.mpr (Option.some_injective _) ?_
  calc (planChanges plan).map some
      = (drawnRuns plan).tail.map fun d => d.pts.head?.map fun v => (⟨v, boundaryKind d.mark⟩ : Change) := by
        rw [planChanges_stored none accepted.ok, drawnRuns, ← List.map_tail, List.map_map]
        rfl
    _ = (labelRuns 0 (drawnRuns plan)).tail.map fun d =>
          (d.pts.head?.map fun v => (v.1, d.mark)).map fun v => (⟨v.1, boundaryKind v.2⟩ : Change) := by
        conv_lhs => rw [← labelRuns_forget 0 (drawnRuns plan), ← List.map_tail, List.map_map]
        simp only [Function.comp_def, DrawnRun.map, List.head?_map, Option.map_map]
    _ = (stamps.map some).map (Option.map fun v => ⟨v.1, boundaryKind v.2⟩) := by rw [changes, List.map_map]; rfl
    _ = (stamps.map fun v => ⟨v.1, boundaryKind v.2⟩).map some := by
        rw [List.map_map, List.map_map]
        rfl

/-- The boundaries of the model, from the changes of flag along its vertices. -/
theorem boundaries_of_changes {plan : List PlanRun} {m : PathModel} {runs : List (ConditionedRun (Point × ℕ))}
    (model : ModelOf (runVertices runs) m)
    (changes : planChanges plan =
      (Lib.changes Prod.snd (runs.flatMap runStamps)).map fun v => ⟨v.1, boundaryKind v.2⟩) :
    List.Forall₂ (fun (b : Boundary) (c : Change) => b.kind = c.kind ∧ m.LiesAt b.s c.point)
      m.innerBoundaries (planChanges plan) := by
  have vertices : ((runVertices runs).zip (stations (runVertices runs))).map Prod.fst = runVertices runs :=
    List.map_fst_zip (stations_length _).ge
  have same : runs.flatMap runStamps =
      ((runVertices runs).zip (stations (runVertices runs))).map fun v => (v.1.point, v.1.flag) := by
    rw [← runVertices_stamps]
    conv_lhs => rw [← vertices, List.map_map]
    rfl
  rw [changes, same, Lib.changes_map, List.map_map, model.boundaries, flagBoundaries, List.forall₂_map_left_iff,
    List.forall₂_map_right_iff]
  exact List.forall₂_same.mpr fun v mem => ⟨rfl, model.liesAt (Lib.mem_of_mem_changes mem)⟩

theorem runVertices_map (runs : List (ConditionedRun (Point × ℕ))) :
    runVertices (runs.map (ConditionedRun.map Prod.fst)) = runVertices runs := by
  simp only [runVertices, List.zipIdx_map, List.flatMap_map]
  refine List.flatMap_congr fun r _ => ?_
  simp only [Prod.map, ConditionedRun.map, List.zip_map_left, List.map_map]
  rfl

theorem loadArtifact_map (runs : List (ConditionedRun (Point × ℕ))) :
    loadArtifact (runs.map (ConditionedRun.map Prod.fst)) = loadArtifact runs := by
  rw [loadArtifact, loadArtifact, runVertices_map]

/-! ### The stored path of a plan, with numbered vertices -/

section Conditioned

variable {p : ConditionParams} {raw : List (RawPoint Point)}
  (auto : normalizeTrackingProfile p.trackingProfile = .auto) (off : p.connectorAbsorb = 0)
include auto off

/-- Numbers on the vertices change nothing but the vertices. -/
theorem numbered_path (segment : ∀ r ∈ (conditionPath raw p).1, r.profile = .segment)
    (kept : (conditionPath raw p).2 = 0) :
    (∀ r ∈ conditionedRuns (labelRaw raw) p, r.profile = .segment) ∧
      (conditionPath (labelRaw raw) p).1 = conditionedRuns (labelRaw raw) p ∧
      (conditionPath raw p).1 = (conditionedRuns (labelRaw raw) p).map (ConditionedRun.map Prod.fst) := by
  have keeps : Keeps (Prod.fst : Point × ℕ → Point) := fun _ => rfl
  have profiles := keeps.profiles auto off.le (labelRaw raw)
  rw [labelRaw_forget, ← conditionPath_undropped kept] at profiles
  have segment' : ∀ r ∈ conditionedRuns (labelRaw raw) p, r.profile = .segment := by
    intro r mem
    have inside := List.mem_map_of_mem (f := ConditionedRun.profile) mem
    rw [← profiles] at inside
    obtain ⟨r', mem', same⟩ := List.mem_map.mp inside
    rw [← same, segment r' mem']
  have path := keeps.conditionPath auto off.le segment'
  rw [labelRaw_forget] at path
  have kept' : (conditionPath (labelRaw raw) p).2 = 0 := by rwa [path] at kept
  refine ⟨segment', conditionPath_undropped kept', ?_⟩
  rw [← conditionPath_undropped kept', path]

/-- A pair of fused runs leaves a stretch with the wrong flag. -/
theorem apart_of_stretches {ds : List (DrawnRun Point)} (h : Stores raw ds)
    (far : (raw.map RawPoint.vertex).IsChain Far)
    (segment : ∀ r ∈ conditionedRuns (labelRaw raw) p, r.profile = .segment)
    (stretches : ∀ r ∈ conditionedRuns (labelRaw raw) p,
      (r.pts.zip r.flags).IsChain fun v w => (v.2 = true ↔ OfMarkRun ds v.1.2 w.1.2)) :
    (labelRuns 0 ds).IsChain fun d d' => ¬Fuses p d d' := by
  by_contra fused
  have far' : ((labelRaw raw).map RawPoint.vertex).IsChain Far := by
    have same : raw.map RawPoint.vertex = ((labelRaw raw).map RawPoint.vertex).map Prod.fst := by
      conv_lhs => rw [← labelRaw_forget raw]
      simp [RawPoint.map]
    rw [same, List.isChain_map] at far
    exact far
  obtain ⟨before, d, d', after, same, r, mem, v, w, l, l', first, second, pts, flags⟩ :=
    h.labelled.fused auto off.le far' fused segment
  have chain := stretches r mem
  have vertices : r.pts.zip r.flags = l ++ (v, d.mark) :: (w, d'.mark) :: l' := by
    rw [pts, flags, List.zip_map', List.map_id']
  rw [vertices] at chain
  have wrong := (List.isChain_append_cons_cons.mp chain).2.1
  have inside : d' ∈ labelRuns 0 ds := by simp [same]
  have order : v.2 < w.2 := by
    have increasing := labelRuns_increasing inside
    obtain ⟨rest, starts⟩ : ∃ rest, d'.pts = v :: w :: rest := by
      rcases hp : d'.pts with _ | ⟨a, _ | ⟨b, rest⟩⟩
      · simp [hp] at second
      · simp [hp] at second
      · simp only [hp, List.head?_cons, Option.some_inj, List.getElem?_cons_succ, List.getElem?_cons_zero] at first second
        exact ⟨rest, by rw [first, second]⟩
    rw [starts] at increasing
    exact (List.pairwise_cons.mp increasing).1 w List.mem_cons_self
  have mark := ofMarkRun_iff h.drawn.long inside (List.mem_of_head? first) (List.mem_of_getElem? second) order
  have change : d.mark ≠ d'.mark := by
    have drawn := h.labelled.drawn.chain
    rw [same] at drawn
    exact (List.isChain_append_cons_cons.mp drawn).2.1.1
  exact change (Bool.eq_iff_iff.mpr (wrong.trans mark))

end Conditioned

/-- An accepted plan with its points apart, conditioned in profile auto without connector absorption, into
runs that are all of profile segment, none dropped. -/
structure Delivered (body : Json) (art : Artifact) (plan : List PlanRun) (p : ConditionParams) : Prop where
  compiled : compilePlan body = .ok art
  submitted : submittedPlan body = .ok plan
  separated : Separated plan
  auto : normalizeTrackingProfile p.trackingProfile = .auto
  off : p.connectorAbsorb = 0
  segment : ∀ r ∈ (conditionPath (rawPath art.points) p).1, r.profile = .segment
  kept : (conditionPath (rawPath art.points) p).2 = 0

/-- Spray's model of a delivered plan paints as drawn. -/
def PaintsPlan (art : Artifact) (plan : List PlanRun) (p : ConditionParams) : Prop :=
  ∃ m, loadArtifact (conditionPath (rawPath art.points) p).1 = some m ∧
    PaintsAsDrawn plan m (numbersOf (conditionPath (labelRaw (rawPath art.points)) p).1)

section Delivered

variable {body : Json} {art : Artifact} {plan : List PlanRun} {p : ConditionParams}

theorem Delivered.accepted (h : Delivered body art plan p) :
    Accepted plan ∧ art.points = joinRuns [] (storedRuns none plan) := by
  obtain ⟨plan', same, accepted, points⟩ := compilePlan_ok h.compiled
  obtain rfl : plan' = plan := Except.ok.inj (same.symm.trans h.submitted)
  exact ⟨accepted, points⟩

theorem Delivered.stores (h : Delivered body art plan p) : Stores (rawPath art.points) (drawnRuns plan) := by
  rw [h.accepted.2]
  exact stores_of_accepted h.accepted.1

theorem labelRuns_apart (ds : List (DrawnRun Point)) :
    ((labelRuns 0 ds).IsChain fun d d' => ¬Fuses p d d') ↔ ds.IsChain fun d d' => ¬Fuses p d d' := by
  conv_rhs => rw [← labelRuns_forget 0 ds, List.isChain_map]
  simp only [Keeps.fuses (f := (Prod.fst : Point × ℕ → Point)) fun _ => rfl]

theorem Delivered.apart (h : Delivered body art plan p) (paints : PaintsPlan art plan p) :
    (drawnRuns plan).IsChain fun d d' => ¬Fuses p d d' := by
  obtain ⟨segment, path, forget⟩ := numbered_path h.auto h.off h.segment h.kept
  have far := far_of_separated h.accepted.1 h.separated
  rw [← h.accepted.2] at far
  obtain ⟨m, loaded, paints⟩ := paints
  rw [forget, loadArtifact_map] at loaded
  rw [path] at paints
  obtain ⟨m', loaded', model⟩ := loadArtifact_modelOf (conditionedRuns (labelRaw (rawPath art.points)) p)
  obtain rfl : m = m' := Option.some_inj.mp (loaded.symm.trans loaded')
  rw [← labelRuns_apart]
  exact apart_of_stretches h.auto h.off h.stores far segment
    ((stretches_iff model fun r mem => conditionedRuns_balanced mem (segment r mem)).mp paints.stretches)

/-- Spray paints a plan as drawn exactly when no two of its runs fuse. -/
theorem paintsAsDrawn_iff (h : Delivered body art plan p) :
    PaintsPlan art plan p ↔ (drawnRuns plan).IsChain fun d d' => ¬Fuses p d d' := by
  refine ⟨h.apart, fun apart => ?_⟩
  obtain ⟨segment, path, forget⟩ := numbered_path h.auto h.off h.segment h.kept
  rw [PaintsPlan, forget, path, loadArtifact_map]
  obtain ⟨m, loaded, model⟩ := loadArtifact_modelOf (conditionedRuns (labelRaw (rawPath art.points)) p)
  have labelled := h.stores.labelled
  have runs := labelled.apart h.auto h.off.le ((labelRuns_apart _).mpr apart)
  have inside : ∀ d ∈ labelRuns 0 (drawnRuns plan),
      ∀ r ∈ runsOf p (mustHitKeys (labelRaw (rawPath art.points))) d, r.profile = .segment := by
    intro d mem r mem'
    exact segment r (runs ▸ List.mem_flatMap_of_mem mem mem')
  refine ⟨m, loaded, boundaries_of_changes model ?_, ?_⟩
  · rw [runs]
    exact planChanges_changes h.accepted.1 (changes_of_runs labelled.drawn inside)
  · refine (stretches_iff model fun r mem => conditionedRuns_balanced mem (segment r mem)).mpr fun r mem => ?_
    rw [runs, List.mem_flatMap] at mem
    obtain ⟨d, memd, memr⟩ := mem
    exact stretch_of_within h.stores.drawn.long memd
      (runsOf_within (labelled.drawn.long d memd) memr (inside d memd r memr))

end Delivered

/-! ### A line and a drive from its end -/

/-- A line of paint one metre north, and a drive from its end. -/
def lineAndDrive (n e : ℝ) : Json :=
  .obj [("client", .str "app"), ("client_version", .str "1"), ("frame", .str "ekf_local_ned"),
    ("runs", .arr [
      .obj [("type", .str "mark"),
        ("points", .arr [.arr [.float 0, .float 0, .int 1], .arr [.float 1, .float 0, .int 1]])],
      .obj [("type", .str "travel"),
        ("points", .arr [.arr [.float 1, .float 0, .int 0], .arr [.float n, .float e, .int 0]])]])]

def lineAndDrivePlan (n e : ℝ) : List PlanRun :=
  [⟨.mark, [⟨0, 0, 1⟩, ⟨1, 0, 1⟩]⟩, ⟨.travel, [⟨1, 0, 0⟩, ⟨n, e, 0⟩]⟩]

/-- The shipped defaults, without connector absorption. -/
def plainParams : ConditionParams where
  segmentCornerThresholdDeg := 45.0
  connectorAbsorb := 0
  connectorMinCornerDeg := 20.0
  transitMergeMaxLen := 2.0
  segmentSimplifyMaxOffset := 0.01
  cornerSmoothRadius := 0.5
  cornerSmoothArcPts := 6
  pathResampleSpacing := 0.08
  closeLoopThreshold := 0.15
  closeLoopMinLen := 1

theorem coordinate_float {x : ℝ} (h : |x| ≤ envelope) (label : String) : coordinate (.float x) label = .ok x := by
  simp only [coordinate, Json.number?, given, refuseIf, if_neg (not_lt.mpr h), bind, Except.bind, pure, Except.pure]

theorem readPoint_float {ri k : ℕ} {kind : RunType} {n e : ℝ} (flags : ℕ) (hn : |n| ≤ envelope) (he : |e| ≤ envelope)
    (small : flags ≤ 3) (bit : flags &&& flagSpray = kind.spray) :
    readPoint ri k kind (.arr [.float n, .float e, .int flags]) = .ok ⟨n, e, flags⟩ := by
  have range : (0 : ℤ) ≤ flags ∧ (flags : ℤ) ≤ 3 := by omega
  simp only [readPoint, coordinate_float hn, coordinate_float he, if_pos range, Int.toNat_natCast, given, refuseIf, bit,
    ne_eq, not_true_eq_false, if_false, bind, Except.bind, pure, Except.pure]

section LineAndDrive

variable {n e : ℝ} (hn : |n| ≤ envelope) (he : |e| ≤ envelope)
include hn he

theorem lineAndDrive_read (ri : ℕ) :
    readPoints ri .mark 0 [.arr [.float 0, .float 0, .int 1], .arr [.float 1, .float 0, .int 1]] =
        .ok [⟨0, 0, 1⟩, ⟨1, 0, 1⟩] ∧
      readPoints ri .travel 0 [.arr [.float 1, .float 0, .int 0], .arr [.float n, .float e, .int 0]] =
        .ok [⟨1, 0, 0⟩, ⟨n, e, 0⟩] := by
  have zero : |(0 : ℝ)| ≤ envelope := by norm_num [envelope]
  have one : |(1 : ℝ)| ≤ envelope := by norm_num [envelope]
  have mark : ∀ (k : ℕ) {x y : ℝ}, |x| ≤ envelope → |y| ≤ envelope →
      readPoint ri k .mark (.arr [.float x, .float y, .int 1]) = .ok ⟨x, y, 1⟩ :=
    fun k _ _ hx hy => readPoint_float 1 hx hy (by decide) rfl
  have travel : ∀ (k : ℕ) {x y : ℝ}, |x| ≤ envelope → |y| ≤ envelope →
      readPoint ri k .travel (.arr [.float x, .float y, .int 0]) = .ok ⟨x, y, 0⟩ :=
    fun k _ _ hx hy => readPoint_float 0 hx hy (by decide) rfl
  simp only [readPoints, mark _ zero zero, mark _ one zero, travel _ one zero, travel _ hn he, bind, Except.bind, pure,
    Except.pure, and_self]

theorem lineAndDrive_submitted : submittedPlan (lineAndDrive n e) = .ok (lineAndDrivePlan n e) := by
  simp [submittedPlan, lineAndDrive, Json.get?, Json.arr?, List.lookup_cons, given, submittedRuns, submittedRun, readType,
    pointList, refuseIf, (lineAndDrive_read hn he 0).1, (lineAndDrive_read hn he 1).2, lineAndDrivePlan,
    bind, Except.bind, pure, Except.pure]

theorem lineAndDrive_compiled (near : hypot (⟨1, 0⟩ : Point) ⟨n, e⟩ ≤ maxStep) :
    ∃ art, compilePlan (lineAndDrive n e) = .ok art := by
  have line : ¬maxStep < hypot (⟨0, 0⟩ : Point) ⟨1, 0⟩ := by norm_num [maxStep, hypot]
  have snapped : ¬boundarySnap < 0 := by norm_num [boundarySnap]
  have zero : |(0 : ℝ)| ≤ envelope := by norm_num [envelope]
  simp [compilePlan, lineAndDrive, Json.get?, Json.arr?, List.lookup_cons, given, addRuns, addRun, readType,
    pointList, refuseIf, (lineAndDrive_read hn he 0).1, (lineAndDrive_read hn he 1).2, frameOf, clientOf,
    anchorOf, missionName, Json.truthy, originOf, coordinate_float zero, snap, densify, densifyFrom, PlanPoint.at,
    appendRun, bind, Except.bind, pure, Except.pure, snapped, line, not_lt.mpr near, maxPoints,
    maxStoredPoints, hypot_self]

end LineAndDrive

theorem lineAndDrive_drawn {n e : ℝ} (near : hypot (⟨1, 0⟩ : Point) ⟨n, e⟩ ≤ maxStep) :
    drawnRuns (lineAndDrivePlan n e) = [⟨true, [⟨0, 0⟩, ⟨1, 0⟩]⟩, ⟨false, [⟨1, 0⟩, ⟨n, e⟩]⟩] := by
  have line : ¬maxStep < hypot (⟨0, 0⟩ : Point) ⟨1, 0⟩ := by norm_num [maxStep, hypot]
  simp [drawnRuns, drawnRun, lineAndDrivePlan, storedRuns, snapTo, densePoints, stepPoints, PlanPoint.at, line,
    not_lt.mpr near]

/-- The points are apart when the drive ends away from the line. -/
theorem lineAndDrive_separated {n e : ℝ} (apart : 1e-6 < hypot (⟨0, 0⟩ : Point) ⟨n, e⟩)
    (long : 1e-6 < hypot (⟨1, 0⟩ : Point) ⟨n, e⟩) : Separated (lineAndDrivePlan n e) := by
  have comm : ∀ a b : Point, hypot a b = hypot b a := fun a b => by
    rw [hypot, hypot, sub_sq_comm (pos b).n, sub_sq_comm (pos b).e]
  have line : (1e-6 : ℝ) < hypot (⟨0, 0⟩ : Point) ⟨1, 0⟩ := by norm_num [hypot]
  have points : ∀ {x : ℕ × ℕ} {a : PlanPoint}, pointAt (lineAndDrivePlan n e) x = some a →
      (x = (0, 0) ∧ a.at = ⟨0, 0⟩) ∨ (x = (0, 1) ∧ a.at = ⟨1, 0⟩) ∨ (x = (1, 0) ∧ a.at = ⟨1, 0⟩) ∨
        (x = (1, 1) ∧ a.at = ⟨n, e⟩) := by
    rintro ⟨i, j⟩ a ha
    rcases i with _ | _ | i
    · rcases j with _ | _ | j
      · obtain rfl := Option.some_inj.mp ha
        simp [PlanPoint.at]
      · obtain rfl := Option.some_inj.mp ha
        simp [PlanPoint.at]
      · simp [pointAt, lineAndDrivePlan] at ha
    · rcases j with _ | _ | j
      · obtain rfl := Option.some_inj.mp ha
        simp [PlanPoint.at]
      · obtain rfl := Option.some_inj.mp ha
        simp [PlanPoint.at]
      · simp [pointAt, lineAndDrivePlan] at ha
    · simp [pointAt, lineAndDrivePlan] at ha
  intro x y a b hx hy other forth back
  rcases points hx with ⟨rfl, ha⟩ | ⟨rfl, ha⟩ | ⟨rfl, ha⟩ | ⟨rfl, ha⟩ <;>
    rcases points hy with ⟨rfl, hb⟩ | ⟨rfl, hb⟩ | ⟨rfl, hb⟩ | ⟨rfl, hb⟩ <;>
    rw [ha, hb]
  all_goals first
    | exact absurd rfl other
    | exact absurd ⟨rfl, rfl, rfl⟩ forth
    | exact absurd ⟨rfl, rfl, rfl⟩ back
    | assumption
    | rw [comm]; assumption

section Pair

variable {V : Type*} [Vertex V] {a b c : V}

theorem fuses_pair {p : ConditionParams} (far : Far a b) (far' : Far b c) (m m' : Bool) :
    Fuses p ⟨m, [a, b]⟩ ⟨m', [b, c]⟩ ↔
      degrees (headingDelta (segmentHeading a b) (segmentHeading b c)) < p.segmentCornerThresholdDeg := by
  have pieces : mergedPieces p ⟨m, [a, b]⟩ = [] ++ [⟨[a, b], [m, m]⟩] := by
    rw [mergedPieces, cornerPieces, splitRunAtCorners_pair far]
    rfl
  have next : cornerPieces p ⟨m', [b, c]⟩ = [⟨[b, c], [m', m']⟩] := by
    rw [cornerPieces, splitRunAtCorners_pair far']
    rfl
  rw [fuses_iff pieces next, mergeable_pair far far', decide_eq_true_iff]

/-- A vertex between two others on a line is left out. -/
theorem classifyAutoProfile_straight (far : Far a b) (far' : Far b c)
    (straight : headingDelta (segmentHeading a b) (segmentHeading b c) = 0) (threshold : ℝ) :
    classifyAutoProfile [a, b, c] threshold = .segment := by
  have tol : (0 : ℝ) ≤ radians 5.0 := by
    rw [radians]
    positivity
  have simple : (simplifyForProfile [a, b, c] none).pts = [a, c] := by
    have zip : [a, b, c].zip (flagsFor [a, b, c] none) = [(a, false), (b, false), (c, false)] := rfl
    simp [simplifyForProfile, zip, dropDuplicates, if_neg (not_lt.mpr far), if_neg (not_lt.mpr far'), keepMarks, straight,
      tol, kept]
  simp [classifyAutoProfile, simple]

end Pair

section LineAndDrive

variable {n e : ℝ} {art : Artifact} (hn : |n| ≤ envelope) (he : |e| ≤ envelope)
  (compiled : compilePlan (lineAndDrive n e) = .ok art) (long : 0.05 ≤ hypot (⟨1, 0⟩ : Point) ⟨n, e⟩)
  (near : hypot (⟨1, 0⟩ : Point) ⟨n, e⟩ ≤ maxStep)
include hn he compiled long near

theorem lineAndDrive_runs :
    conditionedRuns (rawPath art.points) plainParams =
      (mergeFrom 45.0 2.0 (⟨[⟨0, 0⟩, ⟨1, 0⟩], [true, true]⟩ : PointRun Point) [⟨[⟨1, 0⟩, ⟨n, e⟩], [false, false]⟩]).map
        (conditionRun plainParams (mustHitKeys (rawPath art.points))) := by
  have line : Far (⟨0, 0⟩ : Point) ⟨1, 0⟩ := by norm_num [Far, hypot]
  have drive : Far (⟨1, 0⟩ : Point) ⟨n, e⟩ := le_trans (by norm_num) long
  have stores : Stores (rawPath art.points) (drawnRuns (lineAndDrivePlan n e)) := by
    obtain ⟨plan, same, accepted, points⟩ := compilePlan_ok compiled
    obtain rfl : plan = lineAndDrivePlan n e := Except.ok.inj (same.symm.trans (lineAndDrive_submitted hn he))
    rw [points]
    exact stores_of_accepted accepted
  rw [stores.conditionedRuns (by decide) le_rfl, lineAndDrive_drawn near]
  simp only [List.flatMap_cons, List.flatMap_nil, cornerPieces, List.length_cons, List.length_nil,
    splitRunAtCorners_pair line, splitRunAtCorners_pair drive]
  rfl

end LineAndDrive

theorem heading_line : segmentHeading (⟨0, 0⟩ : Point) ⟨1, 0⟩ = 0 :=
  segmentHeading_north rfl (by norm_num)

/-- A drive straight on is merged with the line. -/
theorem straight_delivered :
    ∃ art, Delivered (lineAndDrive 2 0) art (lineAndDrivePlan 2 0) plainParams ∧
      ¬(drawnRuns (lineAndDrivePlan 2 0)).IsChain fun d d' => ¬Fuses plainParams d d' := by
  have hn : |(2 : ℝ)| ≤ envelope := by norm_num [envelope]
  have he : |(0 : ℝ)| ≤ envelope := by norm_num [envelope]
  have step : hypot (⟨1, 0⟩ : Point) ⟨2, 0⟩ = 1 := by norm_num [hypot]
  have whole : hypot (⟨0, 0⟩ : Point) ⟨2, 0⟩ = 2 := by simp [hypot]
  have near : hypot (⟨1, 0⟩ : Point) ⟨2, 0⟩ ≤ maxStep := by norm_num [step, maxStep]
  have line : Far (⟨0, 0⟩ : Point) ⟨1, 0⟩ := by norm_num [Far, hypot]
  have drive : Far (⟨1, 0⟩ : Point) ⟨2, 0⟩ := by norm_num [Far, step]
  have straight : headingDelta (segmentHeading (⟨0, 0⟩ : Point) ⟨1, 0⟩) (segmentHeading (⟨1, 0⟩ : Point) ⟨2, 0⟩) = 0 := by
    have on : segmentHeading (⟨1, 0⟩ : Point) ⟨2, 0⟩ = 0 := segmentHeading_north rfl (by norm_num)
    rw [heading_line, on, headingDelta_self]
  have less : degrees (headingDelta (segmentHeading (⟨0, 0⟩ : Point) ⟨1, 0⟩) (segmentHeading (⟨1, 0⟩ : Point) ⟨2, 0⟩)) <
      45.0 := by
    rw [straight]
    norm_num [degrees]
  obtain ⟨art, compiled⟩ := lineAndDrive_compiled hn he near
  have runs := lineAndDrive_runs hn he compiled (by norm_num [step]) near
  rw [mergeFrom, mergeable_pair line drive, if_pos (decide_eq_true less), mergeFrom] at runs
  have path : conditionPath (rawPath art.points) plainParams = (conditionedRuns (rawPath art.points) plainParams, 0) := by
    rw [conditionPath, runs]
    simp
  refine ⟨art, ⟨compiled, lineAndDrive_submitted hn he, ?_, by decide, rfl, ?_, by rw [path]⟩, ?_⟩
  · exact lineAndDrive_separated (by norm_num [whole]) (by norm_num [step])
  · rw [path, runs]
    have joined : ((⟨[⟨0, 0⟩, ⟨1, 0⟩], [true, true]⟩ : PointRun Point).extend ⟨[⟨1, 0⟩, ⟨2, 0⟩], [false, false]⟩).pts =
        [⟨0, 0⟩, ⟨1, 0⟩, ⟨2, 0⟩] := by
      norm_num [PointRun.extend, hypot_self]
    simp only [List.map_cons, List.map_nil, List.mem_singleton, forall_eq, conditionRun_profile, joined]
    exact classifyAutoProfile_straight line drive straight 45.0
  · rw [lineAndDrive_drawn near, List.isChain_cons_cons, fuses_pair line drive]
    rintro ⟨apart, -⟩
    exact apart less

/-- A drive to the side is not. -/
theorem turn_delivered :
    ∃ art, Delivered (lineAndDrive 1 1) art (lineAndDrivePlan 1 1) plainParams ∧
      (drawnRuns (lineAndDrivePlan 1 1)).IsChain fun d d' => ¬Fuses plainParams d d' := by
  have hn : |(1 : ℝ)| ≤ envelope := by norm_num [envelope]
  have step : hypot (⟨1, 0⟩ : Point) ⟨1, 1⟩ = 1 := by norm_num [hypot]
  have whole : hypot (⟨0, 0⟩ : Point) ⟨1, 1⟩ = √2 := by norm_num [hypot]
  have near : hypot (⟨1, 0⟩ : Point) ⟨1, 1⟩ ≤ maxStep := by norm_num [step, maxStep]
  have line : Far (⟨0, 0⟩ : Point) ⟨1, 0⟩ := by norm_num [Far, hypot]
  have drive : Far (⟨1, 0⟩ : Point) ⟨1, 1⟩ := by norm_num [Far, step]
  have turn : headingDelta (segmentHeading (⟨0, 0⟩ : Point) ⟨1, 0⟩) (segmentHeading (⟨1, 0⟩ : Point) ⟨1, 1⟩) =
      Real.pi / 2 := by
    have side : segmentHeading (⟨1, 0⟩ : Point) ⟨1, 1⟩ = Real.pi / 2 := segmentHeading_east rfl (by norm_num)
    have half := Real.pi_pos
    rw [heading_line, side, headingDelta_of_abs_lt] <;> rw [sub_zero, abs_of_pos (by linarith)]
    linarith
  have right : ¬degrees (headingDelta (segmentHeading (⟨0, 0⟩ : Point) ⟨1, 0⟩) (segmentHeading (⟨1, 0⟩ : Point) ⟨1, 1⟩)) <
      45.0 := by
    have degrees : degrees (Real.pi / 2) = 90 := by
      rw [degrees]
      field_simp
      norm_num
    rw [turn, degrees]
    norm_num
  obtain ⟨art, compiled⟩ := lineAndDrive_compiled hn hn near
  have runs := lineAndDrive_runs hn hn compiled (by norm_num [step]) near
  rw [mergeFrom, mergeable_pair line drive, if_neg (by simpa using right), mergeFrom] at runs
  have segment : ∀ r ∈ conditionedRuns (rawPath art.points) plainParams, r.profile = .segment ∧ 0.05 ≤ r.length := by
    rw [runs]
    have alone : ∀ (a b : Point) (flags : List Bool), Far a b → hypot a b = 1 →
        ∀ must, (conditionRun plainParams must ⟨[a, b], flags⟩).profile = .segment ∧
          0.05 ≤ (conditionRun plainParams must ⟨[a, b], flags⟩).length := by
      intro a b flags far one must
      have profile : (conditionRun plainParams must ⟨[a, b], flags⟩).profile = .segment := by
        rw [conditionRun_profile]
        exact classifyAutoProfile_pair far 45.0
      refine ⟨profile, ?_⟩
      have points := simplifyForProfile_pair far (some flags) 5.0 plainParams.segmentSimplifyMaxOffset must
      simp only [conditionRun, conditionVerts_segment profile, points]
      norm_num [pathLength, one]
    simp only [List.map_cons, List.map_nil, List.mem_cons, List.not_mem_nil, or_false, forall_eq_or_imp, forall_eq]
    exact ⟨alone _ _ _ line (by norm_num [hypot]) _, alone _ _ _ drive step _⟩
  have path : conditionPath (rawPath art.points) plainParams = (conditionedRuns (rawPath art.points) plainParams, 0) := by
    have all : (conditionedRuns (rawPath art.points) plainParams).filter (fun r => 0.05 ≤ r.length) =
        conditionedRuns (rawPath art.points) plainParams :=
      List.filter_eq_self.mpr fun r mem => decide_eq_true (segment r mem).2
    simp [conditionPath, all]
  refine ⟨art, ⟨compiled, lineAndDrive_submitted hn hn, ?_, by decide, rfl, ?_, by rw [path]⟩, ?_⟩
  · refine lineAndDrive_separated ?_ (by norm_num [step])
    rw [whole]
    exact lt_trans (by norm_num) Real.one_lt_sqrt_two
  · rw [path]
    exact fun r mem => (segment r mem).1
  · rw [lineAndDrive_drawn near, List.isChain_cons_cons, fuses_pair line drive]
    exact ⟨right, .singleton _⟩

theorem turn_paints :
    ∃ art, Delivered (lineAndDrive 1 1) art (lineAndDrivePlan 1 1) plainParams ∧
      PaintsPlan art (lineAndDrivePlan 1 1) plainParams := by
  obtain ⟨art, delivered, apart⟩ := turn_delivered
  exact ⟨art, delivered, (paintsAsDrawn_iff delivered).mpr apart⟩

theorem straight_mispaints :
    ∃ art, Delivered (lineAndDrive 2 0) art (lineAndDrivePlan 2 0) plainParams ∧
      ¬PaintsPlan art (lineAndDrivePlan 2 0) plainParams := by
  obtain ⟨art, delivered, fused⟩ := straight_delivered
  exact ⟨art, delivered, fun paints => fused (delivered.apart paints)⟩

end

end Dyx3.System
