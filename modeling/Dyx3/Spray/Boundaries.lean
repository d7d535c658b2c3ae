import Dyx3.Spray.Decision

/-!
The boundaries of a path model: their order and kinds, and which of them `next_boundary` finds from inside a segment.
-/

namespace Dyx3.Spray

noncomputable section

open Lib Geometry

/-- The station of `v` after `prev`, which lies at `total`. -/
def stationOf (total : ℝ) (prev v : PathVertex) : ℝ := if v.run = prev.run then total + hypot prev.point v.point else total

/-- The boundaries after `prev`, which lies at `total`; a path that ends on MARK has the terminal one. -/
def boundariesFrom (total : ℝ) (prev : PathVertex) : List PathVertex → List Boundary
  | [] => if prev.flag then [⟨total, .markToTransit⟩] else []
  | v :: rest =>
    if prev.flag ≠ v.flag then
      ⟨stationOf total prev v, boundaryKind v.flag⟩ :: boundariesFrom (stationOf total prev v) v rest
    else boundariesFrom (stationOf total prev v) v rest

def pathBoundaries : List PathVertex → List Boundary
  | [] => []
  | v :: rest => boundariesFrom 0 v rest

/-- The model `m` is the path of the vertices `vs`. -/
structure PathOf (vs : List PathVertex) (m : PathModel) : Prop where
  north : m.north = vs.map PathVertex.n
  east : m.east = vs.map PathVertex.e
  flags : m.flags = vs.map PathVertex.flag
  stations : m.cumulativeS = stations vs
  boundaries : m.boundaries = pathBoundaries vs
  seam : ∀ (i : ℕ) (a b : PathVertex), vs[i]? = some a → vs[i + 1]? = some b → ¬Seam m i → b.run = a.run

/-! ### Order and kinds -/

theorem stationOf_ge (total : ℝ) (prev v : PathVertex) : total ≤ stationOf total prev v := by
  unfold stationOf
  split
  · linarith [hypot_nonneg prev.point v.point]
  · exact le_rfl

theorem boundariesFrom_ge {total : ℝ} {prev : PathVertex} {l : List PathVertex} :
    ∀ b ∈ boundariesFrom total prev l, total ≤ b.s := by
  induction l generalizing total prev with
  | nil =>
    intro b member
    rw [boundariesFrom] at member
    split at member
    · rw [List.mem_singleton.mp member]
    · simp at member
  | cons v rest ih =>
    intro b member
    have up := stationOf_ge total prev v
    rw [boundariesFrom] at member
    split at member
    · rcases List.mem_cons.mp member with rfl | later
      · exact up
      · exact up.trans (ih b later)
    · exact up.trans (ih b member)

theorem boundariesFrom_sorted (total : ℝ) (prev : PathVertex) (l : List PathVertex) :
    (boundariesFrom total prev l).Pairwise fun b c => b.s ≤ c.s := by
  induction l generalizing total prev with
  | nil =>
    rw [boundariesFrom]
    split <;> simp
  | cons v rest ih =>
    rw [boundariesFrom]
    split
    · exact .cons (fun c later => boundariesFrom_ge c later) (ih _ v)
    · exact ih _ v

theorem boundariesFrom_head {total : ℝ} {prev : PathVertex} {l : List PathVertex} :
    ∀ b ∈ (boundariesFrom total prev l).head?, b.kind = boundaryKind (!prev.flag) := by
  induction l generalizing total prev with
  | nil =>
    intro b member
    rw [boundariesFrom] at member
    split at member
    · rename_i mark
      obtain rfl := Option.some.inj member
      simp [boundaryKind, mark]
    · cases member
  | cons v rest ih =>
    intro b member
    rw [boundariesFrom] at member
    split at member
    · rename_i change
      obtain rfl := Option.some.inj member
      cases first : prev.flag <;> cases second : v.flag <;> simp_all
    · rename_i same
      rw [not_not.mp same]
      exact ih b member

theorem boundariesFrom_alternate (total : ℝ) (prev : PathVertex) (l : List PathVertex) :
    (boundariesFrom total prev l).IsChain fun b c => b.kind ≠ c.kind := by
  induction l generalizing total prev with
  | nil =>
    rw [boundariesFrom]
    split
    · exact .singleton _
    · exact .nil
  | cons v rest ih =>
    rw [boundariesFrom]
    split
    · refine List.isChain_cons.mpr ⟨fun c head => ?_, ih _ v⟩
      rw [boundariesFrom_head c head]
      cases v.flag <;> simp [boundaryKind]
    · exact ih _ v

theorem boundariesFrom_ne_nil (total : ℝ) {prev : PathVertex} {l : List PathVertex} (mark : prev.flag = true ∨ ∃ v ∈ l, v.flag = true) :
    boundariesFrom total prev l ≠ [] := by
  induction l generalizing total prev with
  | nil => simpa [boundariesFrom] using mark
  | cons v rest ih =>
    rw [boundariesFrom]
    split
    · exact List.cons_ne_nil _ _
    · rename_i same
      apply ih
      rw [not_not.mp same] at mark
      simpa using mark

/-- The last boundary closes: one that opens has another after it. -/
theorem boundariesFrom_last (total : ℝ) (prev : PathVertex) (l : List PathVertex) :
    ∀ b ∈ (boundariesFrom total prev l).getLast?, b.kind = .markToTransit := by
  induction l generalizing total prev with
  | nil =>
    intro b last
    rw [boundariesFrom] at last
    split at last
    · obtain rfl := Option.some.inj last
      rfl
    · cases last
  | cons v rest ih =>
    intro b last
    rw [boundariesFrom] at last
    split at last
    · cases more : boundariesFrom (stationOf total prev v) v rest with
      | nil =>
        rw [more] at last
        obtain rfl := Option.some.inj last
        have off : v.flag = false := by
          by_contra on
          exact boundariesFrom_ne_nil _ (.inl (by simpa using on)) more
        simp [boundaryKind, off]
      | cons c later =>
        have final : ∀ b ∈ (c :: later).getLast?, b.kind = .markToTransit := more ▸ ih (stationOf total prev v) v
        rw [more, List.getLast?_cons_cons] at last
        exact final b last
    · exact ih _ v b last

/-! ### Where a boundary lies -/

/-- The station and the vertex that `l` leads to. -/
def endOf (total : ℝ) (prev : PathVertex) : List PathVertex → ℝ × PathVertex
  | [] => (total, prev)
  | v :: rest => endOf (stationOf total prev v) v rest

theorem endOf_ge (total : ℝ) (prev : PathVertex) (l : List PathVertex) : total ≤ (endOf total prev l).1 := by
  induction l generalizing total prev with
  | nil => exact le_rfl
  | cons v rest ih => exact (stationOf_ge total prev v).trans (ih _ v)

theorem stationsFrom_append (total : ℝ) (prev : PathVertex) (l more : List PathVertex) :
    stationsFrom total prev (l ++ more) =
      stationsFrom total prev l ++ stationsFrom (endOf total prev l).1 (endOf total prev l).2 more := by
  induction l generalizing total prev with
  | nil => rfl
  | cons v rest ih =>
    rw [List.cons_append, stationsFrom, stationsFrom, List.cons_append]
    exact congrArg _ (ih _ v)

/-- The boundaries up to a vertex are not beyond it. -/
theorem boundariesFrom_append (total : ℝ) (prev : PathVertex) (l more : List PathVertex) :
    ∃ early, (∀ b ∈ early, b.s ≤ (endOf total prev l).1) ∧
      boundariesFrom total prev (l ++ more) = early ++ boundariesFrom (endOf total prev l).1 (endOf total prev l).2 more := by
  induction l generalizing total prev with
  | nil => exact ⟨[], by simp, rfl⟩
  | cons v rest ih =>
    obtain ⟨early, below, split⟩ := ih (stationOf total prev v) v
    rw [List.cons_append, boundariesFrom, endOf]
    split
    · refine ⟨⟨stationOf total prev v, boundaryKind v.flag⟩ :: early, ?_, by rw [split, List.cons_append]⟩
      exact List.forall_mem_cons.mpr ⟨endOf_ge _ v rest, below⟩
    · exact ⟨early, below, split⟩

theorem stationsFrom_ge {total : ℝ} {prev : PathVertex} {l : List PathVertex} : ∀ s ∈ stationsFrom total prev l, total ≤ s := by
  induction l generalizing total prev with
  | nil => simp [stationsFrom]
  | cons v rest ih =>
    have up := stationOf_ge total prev v
    refine List.forall_mem_cons.mpr ⟨up, fun s later => up.trans (ih s later)⟩

/-- A vertex with the other flag is not before the first boundary. -/
theorem boundariesFrom_before {total : ℝ} {prev : PathVertex} {l : List PathVertex} :
    ∀ w ∈ l.zip (stationsFrom total prev l), w.1.flag ≠ prev.flag →
      ∃ b ∈ (boundariesFrom total prev l).head?, b.s ≤ w.2 := by
  induction l generalizing total prev with
  | nil => simp
  | cons v rest ih =>
    intro w member differ
    rw [stationsFrom, List.zip_cons_cons] at member
    rw [boundariesFrom]
    split
    · refine ⟨_, rfl, ?_⟩
      rcases List.mem_cons.mp member with rfl | later
      · exact le_rfl
      · exact stationsFrom_ge w.2 (List.of_mem_zip later).2
    · rename_i same
      rcases List.mem_cons.mp member with rfl | later
      · exact absurd (not_not.mp same).symm differ
      · exact ih w later (by rwa [← not_not.mp same])

/-! ### The model of a path -/

theorem boundariesFrom_changes (total : ℝ) (prev : PathVertex) (l : List PathVertex) :
    boundariesFrom total prev l =
      (changesFrom (fun v : PathVertex × ℝ => v.1.flag) prev.flag (l.zip (stationsFrom total prev l))).map
          (fun v => ⟨v.2, boundaryKind v.1.flag⟩) ++
        if (l.getLastD prev).flag then [⟨(stationsFrom total prev l).getLastD total, .markToTransit⟩] else [] := by
  induction l generalizing total prev with
  | nil => rfl
  | cons v rest ih =>
    rw [boundariesFrom, stationsFrom, List.zip_cons_cons, changesFrom, List.getLastD_cons, List.getLastD_cons]
    split
    · rw [List.map_cons, List.cons_append, ih]
      rfl
    · rw [ih]
      rfl

theorem pathBoundaries_eq (vs : List PathVertex) :
    pathBoundaries vs = flagBoundaries vs ++
      match (vs.map PathVertex.flag).getLast?, (stations vs).getLast? with
      | some true, some s => [⟨s, .markToTransit⟩]
      | _, _ => [] := by
  cases vs with
  | nil => rfl
  | cons v rest =>
    rw [pathBoundaries, boundariesFrom_changes, flagBoundaries, stations, List.zip_cons_cons, changes]
    congr 1
    rw [List.getLast?_map, List.getLast?_cons, List.getLast?_cons, Option.map_some]
    rw [← List.getLastD_eq_getLast?, ← List.getLastD_eq_getLast?]
    cases (rest.getLastD v).flag <;> rfl

theorem pathVertices_fields {north east : List ℝ} {flags : List Bool} {ids : List ℕ} (first : north.length = east.length)
    (second : north.length = flags.length) (third : north.length = ids.length) :
    (pathVertices north east flags ids).map PathVertex.n = north ∧ (pathVertices north east flags ids).map PathVertex.e = east ∧
      (pathVertices north east flags ids).map PathVertex.flag = flags ∧ (pathVertices north east flags ids).map PathVertex.run = ids := by
  have left : (((north.zip east).zip (flags.zip ids)).map Prod.fst) = north.zip east :=
    List.map_fst_zip (by simp only [List.length_zip]; omega)
  have right : (((north.zip east).zip (flags.zip ids)).map Prod.snd) = flags.zip ids :=
    List.map_snd_zip (by simp only [List.length_zip]; omega)
  refine ⟨?_, ?_, ?_, ?_⟩
  · calc (pathVertices north east flags ids).map PathVertex.n
        = (((north.zip east).zip (flags.zip ids)).map Prod.fst).map Prod.fst := by simp [pathVertices, Function.comp_def]
      _ = north := by rw [left, List.map_fst_zip first.le]
  · calc (pathVertices north east flags ids).map PathVertex.e
        = (((north.zip east).zip (flags.zip ids)).map Prod.fst).map Prod.snd := by simp [pathVertices, Function.comp_def]
      _ = east := by rw [left, List.map_snd_zip first.ge]
  · calc (pathVertices north east flags ids).map PathVertex.flag
        = (((north.zip east).zip (flags.zip ids)).map Prod.snd).map Prod.fst := by simp [pathVertices, Function.comp_def]
      _ = flags := by rw [right, List.map_fst_zip (by omega)]
  · calc (pathVertices north east flags ids).map PathVertex.run
        = (((north.zip east).zip (flags.zip ids)).map Prod.snd).map Prod.snd := by simp [pathVertices, Function.comp_def]
      _ = ids := by rw [right, List.map_snd_zip (by omega)]

theorem buildPathModel_pathOf {north east : List ℝ} {flags : List Bool} {runIds : List ℕ} {m : PathModel}
    (built : buildPathModel north east flags runIds = some m) : ∃ vs, PathOf vs m := by
  unfold buildPathModel at built
  split at built
  · cases built
  · rename_i sizes
    split at built
    · cases built
    · rename_i known
      obtain ⟨first, second⟩ := not_or.mp sizes
      have counts : north.length = (if runIds = [] then List.replicate north.length 0 else runIds).length := by
        split
        · simp
        · rename_i some
          by_contra other
          exact known ⟨some, fun same => other same.symm⟩
      obtain ⟨norths, easts, marks, runs⟩ := pathVertices_fields (not_not.mp first) (not_not.mp second) counts
      have choice : (runIds = [] ∧ (if runIds = [] then List.replicate north.length 0 else runIds) = List.replicate north.length 0) ∨
          (if runIds = [] then List.replicate north.length 0 else runIds) = runIds := by
        by_cases none : runIds = []
        · exact .inl ⟨none, if_pos none⟩
        · exact .inr (if_neg none)
      generalize (if runIds = [] then List.replicate north.length 0 else runIds) = ids at *
      have same := Option.some.inj built
      refine ⟨pathVertices north east flags ids, ?_, ?_, ?_, ?_, ?_, ?_⟩
      · rw [← same, norths]
      · rw [← same, easts]
      · rw [← same, marks]
      · rw [← same]
      · have boundaries := pathBoundaries_eq (pathVertices north east flags ids)
        rw [marks] at boundaries
        rw [← same]
        exact boundaries.symm
      · intro i a b left right joined
        have runOf : ∀ {j : ℕ} {v : PathVertex}, (pathVertices north east flags ids)[j]? = some v → ids[j]? = some v.run := by
          intro j v vertex
          rw [← runs, List.getElem?_map, vertex]
          rfl
        have leftRun := runOf left
        have rightRun := runOf right
        rcases choice with ⟨-, zero⟩ | given
        · rw [zero] at leftRun rightRun
          rw [List.eq_of_mem_replicate (List.mem_of_getElem? leftRun), List.eq_of_mem_replicate (List.mem_of_getElem? rightRun)]
        · rw [Seam, ← same] at joined
          simp only [PathModel.size] at joined
          rw [← given, List.getD_eq_getElem?_getD, List.getD_eq_getElem?_getD, leftRun, rightRun] at joined
          by_contra other
          exact joined ⟨counts.symm, fun equal => other equal.symm⟩

/-! ### Inside a segment -/

theorem stationsFrom_sorted (total : ℝ) (prev : PathVertex) (l : List PathVertex) :
    (total :: stationsFrom total prev l).Pairwise (· ≤ ·) := by
  induction l generalizing total prev with
  | nil => simp [stationsFrom]
  | cons v rest ih => exact .cons (fun s member => stationsFrom_ge s member) (ih _ v)

theorem endOf_take (total : ℝ) (prev : PathVertex) {l : List PathVertex} {i : ℕ} (inside : i ≤ l.length) :
    (prev :: l)[i]? = some (endOf total prev (l.take i)).2 ∧
      (total :: stationsFrom total prev l)[i]? = some (endOf total prev (l.take i)).1 := by
  induction l generalizing total prev i with
  | nil =>
    obtain rfl : i = 0 := by simpa using inside
    exact ⟨rfl, rfl⟩
  | cons v rest ih =>
    cases i with
    | zero => exact ⟨rfl, rfl⟩
    | succ i => exact ih (stationOf total prev v) v (by simpa using inside)

/-- The path cut at the segment from `a` at `total` to `b`. -/
structure CutAt (m : PathModel) (vs : List PathVertex) (i : ℕ) (a b : PathVertex) (total : ℝ) (early : List Boundary)
    (more : List PathVertex) : Prop where
  here : m.cumulativeS[i]? = some total
  next : m.cumulativeS[i + 1]? = some (stationOf total a b)
  boundaries : m.boundaries = early ++ boundariesFrom total a (b :: more)
  passed : ∀ c ∈ early, c.s ≤ total
  vertices : vs.drop (i + 1) = b :: more
  stations : m.cumulativeS.drop (i + 1) = stationsFrom total a (b :: more)

theorem PathOf.cutAt {vs : List PathVertex} {m : PathModel} (path : PathOf vs m) {i : ℕ} {a b : PathVertex}
    (first : vs[i]? = some a) (second : vs[i + 1]? = some b) : ∃ total early more, CutAt m vs i a b total early more := by
  cases vs with
  | nil => simp at first
  | cons v rest =>
    have inside : i < rest.length := by
      rw [List.getElem?_cons_succ] at second
      exact (List.getElem?_eq_some_iff.mp second).1
    have split : rest = rest.take i ++ b :: rest.drop (i + 1) := by
      rw [List.getElem?_cons_succ] at second
      obtain ⟨_, rfl⟩ := List.getElem?_eq_some_iff.mp second
      rw [← List.drop_eq_getElem_cons, List.take_append_drop]
    obtain ⟨vertex, station⟩ := endOf_take 0 v inside.le
    rw [first, Option.some.injEq] at vertex
    obtain ⟨early, passed, boundaries⟩ := boundariesFrom_append 0 v (rest.take i) (b :: rest.drop (i + 1))
    have stations := stationsFrom_append 0 v (rest.take i) (b :: rest.drop (i + 1))
    rw [← split, ← vertex] at boundaries stations
    have size : (stationsFrom 0 v (rest.take i)).length = i := by
      rw [stationsFrom_length, List.length_take]
      omega
    have dropped : m.cumulativeS.drop (i + 1) = stationsFrom (endOf 0 v (rest.take i)).1 a (b :: rest.drop (i + 1)) := by
      rw [path.stations, Spray.stations, List.drop_succ_cons, stations, List.drop_left' size]
    refine ⟨(endOf 0 v (rest.take i)).1, early, rest.drop (i + 1), ?_, ?_, ?_, passed, ?_, dropped⟩
    · rw [path.stations]
      exact station
    · have head := congrArg List.head? dropped
      rwa [List.head?_drop] at head
    · rw [path.boundaries]
      exact boundaries
    · rw [List.drop_succ_cons]
      conv_lhs => rw [split]
      exact List.drop_left' (by rw [List.length_take]; omega)

theorem boundariesFrom_cons_ge {total : ℝ} {prev v : PathVertex} {rest : List PathVertex} :
    ∀ c ∈ boundariesFrom total prev (v :: rest), stationOf total prev v ≤ c.s := by
  intro c member
  rw [boundariesFrom] at member
  split at member
  · rcases List.mem_cons.mp member with rfl | later
    · exact le_rfl
    · exact boundariesFrom_ge c later
  · exact boundariesFrom_ge c member

end

end Dyx3.Spray
