import Dyx3.Spray.Boundaries

/-!
`next_boundary` looks for one kind only: from inside a segment it is the next boundary of any kind.
-/

namespace Dyx3.Spray

noncomputable section

open Lib Geometry

/-- The boundaries of a model in their order. -/
structure WellOrdered (m : PathModel) : Prop where
  sorted : m.boundaries.Pairwise fun b c => b.s ≤ c.s
  alternate : m.boundaries.IsChain fun b c => b.kind ≠ c.kind
  first : ∀ b ∈ m.boundaries.head?, (b.kind = .markToTransit ↔ m.flags.head? = some true)
  last : true ∈ m.flags → ∃ b ∈ m.boundaries.getLast?, b.kind = .markToTransit

theorem PathOf.wellOrdered {vs : List PathVertex} {m : PathModel} (path : PathOf vs m) : WellOrdered m := by
  cases vs with
  | nil =>
    have none : m.boundaries = [] := path.boundaries
    have flags : m.flags = [] := path.flags
    refine ⟨?_, ?_, ?_, ?_⟩ <;> simp [none, flags]
  | cons v rest =>
    have boundaries : m.boundaries = boundariesFrom 0 v rest := path.boundaries
    refine ⟨?_, ?_, fun b head => ?_, fun mark => ?_⟩
    · rw [boundaries]
      exact boundariesFrom_sorted 0 v rest
    · rw [boundaries]
      exact boundariesFrom_alternate 0 v rest
    · rw [boundaries] at head
      rw [boundariesFrom_head b head, path.flags]
      cases flag : v.flag <;> simp [boundaryKind, flag]
    · rw [path.flags, List.mem_map] at mark
      obtain ⟨w, member, on⟩ := mark
      have mark : v.flag = true ∨ ∃ w ∈ rest, w.flag = true := by
        rcases List.mem_cons.mp member with rfl | later
        · exact .inl on
        · exact .inr ⟨w, later, on⟩
      rw [boundaries]
      refine ⟨_, List.getLast?_eq_getLast_of_ne_nil (boundariesFrom_ne_nil 0 mark), ?_⟩
      exact boundariesFrom_last 0 v rest _ (List.getLast?_eq_getLast_of_ne_nil (boundariesFrom_ne_nil 0 mark))

open Classical in
/-- The first boundary of any kind after the station `s`. -/
def nextOfAnyKind (m : PathModel) (s : ℝ) : Option Boundary := m.boundaries.find? fun b => s < b.s

theorem find_of_split {early later : List Boundary} {p : Boundary → Bool} (passed : ∀ b ∈ early, p b = false)
    (first : ∀ b ∈ later.head?, p b = true) : (early ++ later).find? p = later.head? := by
  rw [List.find?_append, List.find?_eq_none.mpr fun b member => by simp [passed b member], Option.none_or]
  cases later with
  | nil => rfl
  | cons b later => rw [List.find?_cons_of_pos (first b rfl), List.head?_cons]

theorem boundaryKind_not (flag : Bool) :
    boundaryKind (!flag) = if flag then BoundaryKind.markToTransit else BoundaryKind.transitToMark := by
  cases flag <;> rfl

/-- What `next_boundary` finds from the projection `p`. -/
structure RightNext (m : PathModel) (p : Projection) : Prop where
  first : nextBoundary m p.s p.currentFlag = nextOfAnyKind m p.s
  found : p.currentFlag = true → (nextBoundary m p.s p.currentFlag).isSome
  between : ∀ b ∈ nextBoundary m p.s p.currentFlag, ∀ (i : ℕ) (flag : Bool) (s : ℝ), m.flags[i]? = some flag →
    m.cumulativeS[i]? = some s → p.s < s → s < b.s → flag = p.currentFlag

/-- The projection `p` lies on the segment from `a` at `total` to `b`. -/
structure OnSegment (m : PathModel) (vs : List PathVertex) (p : Projection) (a b : PathVertex) (total : ℝ) : Prop where
  first : vs[p.segmentIndex]? = some a
  second : vs[p.segmentIndex + 1]? = some b
  station : m.cumulativeS[p.segmentIndex]? = some total
  flag : p.currentFlag = if 1 - 1e-12 ≤ p.t then b.flag else a.flag
  low : total ≤ p.s
  high : p.s ≤ stationOf total a b
  inner : 0 < p.t → p.t < 1 → total < p.s ∧ p.s < stationOf total a b

theorem PathOf.onSegment {vs : List PathVertex} {m : PathModel} (path : PathOf vs m) {pn pe : ℝ} {p : Projection}
    (foot : FootOf m pn pe p) : ∃ a b total, OnSegment m vs p a b total := by
  obtain ⟨inside, joined, same⟩ := foot
  have size : m.size = vs.length := by rw [PathModel.size, path.north, List.length_map]
  obtain ⟨a, first⟩ : ∃ a, vs[p.segmentIndex]? = some a := ⟨_, List.getElem?_eq_getElem (by omega)⟩
  obtain ⟨b, second⟩ : ∃ b, vs[p.segmentIndex + 1]? = some b := ⟨_, List.getElem?_eq_getElem (by omega)⟩
  obtain ⟨total, station⟩ : ∃ total, m.cumulativeS[p.segmentIndex]? = some total := by
    refine ⟨_, List.getElem?_eq_getElem ?_⟩
    rw [path.stations, stations_length]
    omega
  have next : stationOf total a b = total + hypot a.point b.point := if_pos (path.seam _ a b first second joined)
  have start : m.cumulativeS.getD p.segmentIndex 0 = total := by rw [List.getD_eq_getElem?_getD, station]; rfl
  have an : m.north.getD p.segmentIndex 0 = a.n := by rw [path.north, List.getD_eq_getElem?_getD, List.getElem?_map, first]; rfl
  have ae : m.east.getD p.segmentIndex 0 = a.e := by rw [path.east, List.getD_eq_getElem?_getD, List.getElem?_map, first]; rfl
  have af : m.flags.getD p.segmentIndex false = a.flag := by rw [path.flags, List.getD_eq_getElem?_getD, List.getElem?_map, first]; rfl
  have bn : m.north.getD (p.segmentIndex + 1) 0 = b.n := by rw [path.north, List.getD_eq_getElem?_getD, List.getElem?_map, second]; rfl
  have be : m.east.getD (p.segmentIndex + 1) 0 = b.e := by rw [path.east, List.getD_eq_getElem?_getD, List.getElem?_map, second]; rfl
  have bf : m.flags.getD (p.segmentIndex + 1) false = b.flag := by rw [path.flags, List.getD_eq_getElem?_getD, List.getElem?_map, second]; rfl
  have length : √((b.n - a.n) * (b.n - a.n) + (b.e - a.e) * (b.e - a.e)) = hypot a.point b.point := by
    simp only [hypot, PathVertex.point, pos_point, pow_two]
  have nonneg := hypot_nonneg a.point b.point
  have t : p.t = if (b.n - a.n) * (b.n - a.n) + (b.e - a.e) * (b.e - a.e) ≤ 1e-12 then 0
      else max 0 (min 1 (((pn - a.n) * (b.n - a.n) + (pe - a.e) * (b.e - a.e)) /
        ((b.n - a.n) * (b.n - a.n) + (b.e - a.e) * (b.e - a.e)))) := by
    have foot := congrArg Projection.t same
    simp only [footOn, an, ae, bn, be] at foot
    exact foot
  have s : p.s = total + p.t * if (b.n - a.n) * (b.n - a.n) + (b.e - a.e) * (b.e - a.e) ≤ 1e-12 then 0 else hypot a.point b.point := by
    have foot := congrArg Projection.s same
    simp only [footOn, start, an, ae, bn, be, length] at foot
    rw [foot, ← t]
  have flag : p.currentFlag = if 1 - 1e-12 ≤ p.t then b.flag else a.flag := by
    have foot : p.currentFlag = m.flagAt p.segmentIndex (footOn m p.segmentIndex pn pe).t := congrArg Projection.currentFlag same
    rw [foot, ← congrArg Projection.t same, PathModel.flagAt, af, bf]
  have unit : 0 ≤ p.t ∧ p.t ≤ 1 := by
    rw [t]
    split
    · exact ⟨le_rfl, zero_le_one⟩
    · exact ⟨le_max_left _ _, max_le zero_le_one (min_le_left _ _)⟩
  refine ⟨a, b, total, first, second, station, flag, ?_, ?_, fun above below => ?_⟩
  · rw [s]
    split
    · linarith
    · linarith [mul_nonneg unit.1 nonneg]
  · rw [s, next]
    split
    · linarith
    · linarith [mul_le_of_le_one_left nonneg unit.2]
  · split at t
    · rw [t] at above
      exact absurd above (lt_irrefl 0)
    · rename_i counts
      have positive : 0 < hypot a.point b.point := by
        rw [← length]
        apply Real.sqrt_pos.mpr
        linarith [not_le.mp counts, show (0 : ℝ) < 1e-12 by norm_num]
      rw [s, next, if_neg counts]
      exact ⟨by linarith [mul_pos above positive], by linarith [mul_lt_of_lt_one_left positive below]⟩

theorem PathOf.station_le {vs : List PathVertex} {m : PathModel} (path : PathOf vs m) {i j : ℕ} (order : i ≤ j) {s t : ℝ}
    (first : m.cumulativeS[i]? = some s) (second : m.cumulativeS[j]? = some t) : s ≤ t := by
  have sorted : m.cumulativeS.Pairwise (· ≤ ·) := by
    rw [path.stations]
    cases vs with
    | nil => exact .nil
    | cons v rest => exact stationsFrom_sorted 0 v rest
  rcases order.eq_or_lt with rfl | before
  · obtain rfl := Option.some.inj (first.symm.trans second)
    exact le_rfl
  · obtain ⟨_, rfl⟩ := List.getElem?_eq_some_iff.mp first
    obtain ⟨_, rfl⟩ := List.getElem?_eq_some_iff.mp second
    exact List.pairwise_iff_getElem.mp sorted i j _ _ before

/-- A vertex after the cut with the other flag has a boundary at or before it. -/
theorem CutAt.change {m : PathModel} {vs : List PathVertex} {i : ℕ} {a b : PathVertex} {total : ℝ} {early : List Boundary}
    {more : List PathVertex} (cut : CutAt m vs i a b total early more) (path : PathOf vs m) {j : ℕ} (later : i < j) {flag : Bool} {s : ℝ}
    (marks : m.flags[j]? = some flag) (station : m.cumulativeS[j]? = some s) (other : flag ≠ a.flag) :
    ∃ c ∈ (boundariesFrom total a (b :: more)).head?, c.s ≤ s := by
  obtain ⟨k, rfl⟩ : ∃ k, j = i + 1 + k := ⟨j - (i + 1), by omega⟩
  rw [← List.getElem?_drop, cut.stations] at station
  rw [path.flags, List.getElem?_map, ← List.getElem?_drop, cut.vertices] at marks
  obtain ⟨w, vertex, rfl⟩ := Option.map_eq_some_iff.mp marks
  have member : (w, s) ∈ (b :: more).zip (stationsFrom total a (b :: more)) :=
    List.mem_of_getElem? (List.getElem?_zip_eq_some.mpr ⟨vertex, station⟩)
  exact boundariesFrom_before (w, s) member other

theorem rightNext {vs : List PathVertex} {m : PathModel} (path : PathOf vs m) {pn pe : ℝ} {p : Projection} (foot : FootOf m pn pe p)
    (above : 0 < p.t) (below : p.t < 1 - 1e-12) (apart : ∀ b ∈ m.boundaries, ¬(p.s < b.s ∧ b.s ≤ p.s + 1e-9)) : RightNext m p := by
  obtain ⟨a, b, total, seg⟩ := path.onSegment foot
  obtain ⟨_, early, more, cut⟩ := path.cutAt seg.first seg.second
  obtain rfl := Option.some.inj (seg.station.symm.trans cut.here)
  obtain ⟨low, high⟩ := seg.inner above (below.trans (by norm_num))
  have flag : p.currentFlag = a.flag := by rw [seg.flag, if_neg (not_le.mpr below)]
  have behind : ∀ c ∈ early, ¬p.s < c.s := fun c member => not_lt.mpr ((cut.passed c member).trans low.le)
  have ahead : ∀ c ∈ boundariesFrom total a (b :: more), p.s + 1e-9 < c.s := by
    intro c member
    have beyond : p.s < c.s := high.trans_le (boundariesFrom_cons_ge c member)
    exact not_le.mp fun close => apart c (by rw [cut.boundaries]; exact List.mem_append_right _ member) ⟨beyond, close⟩
  have wanted : nextBoundary m p.s p.currentFlag = (boundariesFrom total a (b :: more)).head? := by
    rw [nextBoundary, cut.boundaries]
    refine find_of_split (fun c member => ?_) fun c head => ?_
    · have := behind c member
      rw [decide_eq_false_iff_not]
      rintro ⟨-, far⟩
      linarith
    · rw [decide_eq_true_iff, ← boundaryKind_not, flag]
      exact ⟨boundariesFrom_head c head, ahead c (List.mem_of_mem_head? head)⟩
  have any : nextOfAnyKind m p.s = (boundariesFrom total a (b :: more)).head? := by
    rw [nextOfAnyKind, cut.boundaries]
    refine find_of_split (fun c member => by simpa using behind c member) fun c head => ?_
    rw [decide_eq_true_iff]
    linarith [ahead c (List.mem_of_mem_head? head)]
  refine ⟨wanted.trans any.symm, fun on => ?_, fun c next i f s flags station after before => ?_⟩
  · rw [wanted, List.isSome_head?]
    simpa using boundariesFrom_ne_nil total (l := b :: more) (.inl (flag ▸ on))
  · rw [wanted] at next
    rw [flag]
    by_contra other
    rcases Nat.lt_or_ge p.segmentIndex i with later | earlier
    · obtain ⟨d, head, near⟩ := cut.change path later flags station other
      obtain rfl := Option.some.inj (Eq.trans (Eq.symm head) next)
      linarith
    · have back := path.station_le earlier station seg.station
      linarith

/-- The boundaries of every accepted path, and the next one from every projection inside a segment. -/
theorem buildPathModel_boundaries {north east : List ℝ} {flags : List Bool} {runIds : List ℕ} {m : PathModel}
    (built : buildPathModel north east flags runIds = some m) :
    WellOrdered m ∧ ∀ pn pe cfg p, projectOntoPath m pn pe cfg = some p → 0 < p.t → p.t < 1 - 1e-12 →
      (∀ b ∈ m.boundaries, ¬(p.s < b.s ∧ b.s ≤ p.s + 1e-9)) → RightNext m p := by
  obtain ⟨vs, path⟩ := buildPathModel_pathOf built
  refine ⟨path.wellOrdered, fun pn pe cfg p projects above below apart => ?_⟩
  have long : 1 < m.size := by
    by_contra short
    rw [projectOntoPath] at projects
    split at projects
    · cases projects
    · split at projects
      · obtain rfl := Option.some.inj projects
        exact absurd above (lt_irrefl 0)
      · omega
  exact rightNext path (projectOntoPath_footOf long projects) above below apart

theorem buildPathModel_boundaries_stroke :
    ∃ m p, buildPathModel [0, 1] [0, 0] [true, true] [] = some m ∧ projectOntoPath m 0.5 0 ⟨none, 0, 0, 0, none, 0⟩ = some p ∧
      WellOrdered m ∧ RightNext m p := by
  have built : buildPathModel [0, 1] [0, 0] [true, true] [] =
      some ⟨[0, 1], [0, 0], [true, true], [], [0, 1], [⟨1, .markToTransit⟩]⟩ := by
    simp [buildPathModel, pathVertices, flagBoundaries, changes, changesFrom, stations, stationsFrom, hypot, PathVertex.point]
  have projects : projectOntoPath ⟨[0, 1], [0, 0], [true, true], [], [0, 1], [⟨1, .markToTransit⟩]⟩ 0.5 0 ⟨none, 0, 0, 0, none, 0⟩ =
      some ⟨0, 0.5, 0.5, 0, 0.5, 0, true⟩ := by
    simp [projectOntoPath, PathModel.size, ProjectionConfig.gated, ProjectionConfig.gate, ProjectionConfig.window, ProjectionConfig.trusted,
      scan, scanStep, skips, closer, footOn, PathModel.flagAt]
    norm_num
  obtain ⟨ordered, right⟩ := buildPathModel_boundaries built
  refine ⟨_, _, built, projects, ordered, right _ _ _ _ projects ?_ ?_ ?_⟩
  · norm_num
  · norm_num
  · norm_num

end

end Dyx3.Spray
