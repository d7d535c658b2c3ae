import Dyx3.System.PaintPlace

/-!
What RPP rebuilds of an accepted plan: `split_runs_by_flag` gives back its runs, in number, order and type, each with its
submitted points and must-hit bits, begun where the run before it ended, and between them only points on the straight steps.
-/

namespace Dyx3.System

noncomputable section

open Geometry Rpp Backend

/-! ### The runs to be rebuilt -/

def mustHit (p : PlanPoint) : Bool := decide (p.flags &&& flagMustHit ≠ 0)

/-- A place, and whether it must be hit. -/
abbrev Place := Point × Bool

def placeOf (p : PlanPoint) : Place := (p.at, mustHit p)

def onLast {α : Type*} (f : α → α) : List α → List α
  | [] => []
  | [p] => [f p]
  | p :: q :: rest => p :: onLast f (q :: rest)

/-- The first point of a run lies where the run before it ended; either copy may make it must-hit. -/
def meetBefore (stop : Option PlanPoint) (places : List Place) : List Place :=
  match stop with
  | some q => places.modifyHead fun p => (q.at, mustHit q || p.2)
  | none => places

/-- The next run begins with a must-hit point. -/
def mustNext (next : Option PlanRun) : Bool := (next.bind (·.points.head?)).any mustHit

def orMust (must : Bool) (p : Place) : Place := (p.1, p.2 || must)

/-- The runs as they were submitted, each with the boundary points it shares with its neighbours. -/
def sharedRuns : Option PlanPoint → List PlanRun → List (DrawnRun Place)
  | _, [] => []
  | stop, r :: rest =>
    ⟨r.kind = .mark, onLast (orMust (mustNext rest.head?)) (meetBefore stop (r.points.map placeOf))⟩ :: sharedRuns r.points.getLast? rest

/-- Points in order on the straight line from `a` to `b`, no two neighbours further apart than the step limit. -/
structure StraightStep (a b : Point) (between : List Point) : Prop where
  straight : ∃ ts : List ℝ, ts.Pairwise (· < ·) ∧ (∀ t ∈ ts, 0 < t ∧ t < 1) ∧
    between = ts.map fun t => ⟨a.n + (b.n - a.n) * t, a.e + (b.e - a.e) * t⟩
  short : (a :: between ++ [b]).IsChain fun p q => hypot p q ≤ maxStep

/-- The same points in the same order, with further points, none of them must-hit, on the steps between them. -/
inductive Refines : List Place → List Place → Prop
  | point (p : Place) : Refines [p] [p]
  | step {p q : Place} {rest dense : List Place} (between : List Point) (straight : StraightStep p.1 q.1 between)
      (more : Refines (q :: rest) (q :: dense)) : Refines (p :: q :: rest) (p :: (between.map (·, false) ++ q :: dense))

/-- A rebuilt run: all its points under the flag of its type, and the submitted points refined. -/
structure Rebuilt (submitted : DrawnRun Place) (run : PointRun Place) : Prop where
  flags : run.flags = List.replicate run.pts.length submitted.mark
  points : Refines submitted.pts run.pts

/-! ### Changing the ends of a list -/

section Ends

variable {α β : Type*} (f : α → α)

theorem onLast_length (l : List α) : (onLast f l).length = l.length := by
  induction l with
  | nil => rfl
  | cons p l ih =>
    cases l with
    | nil => rfl
    | cons q l => rw [onLast, List.length_cons, ih, List.length_cons, List.length_cons, List.length_cons]

theorem onLast_append (l : List α) {m : List α} (some : m ≠ []) : onLast f (l ++ m) = l ++ onLast f m := by
  induction l with
  | nil => rfl
  | cons p l ih =>
    obtain ⟨q, rest, same⟩ := List.exists_cons_of_ne_nil (List.append_ne_nil_of_right_ne_nil l some)
    rw [List.cons_append, same, onLast, ← same, ih, List.cons_append]

theorem onLast_concat (l : List α) (p : α) : onLast f (l ++ [p]) = l ++ [f p] :=
  onLast_append f l (List.cons_ne_nil _ _)

theorem onLast_map {g : β → β} {h : α → β} (commutes : ∀ p, g (h p) = h (f p)) (l : List α) :
    onLast g (l.map h) = (onLast f l).map h := by
  induction l with
  | nil => rfl
  | cons p l ih =>
    cases l with
    | nil => simp only [List.map_cons, List.map_nil, onLast, commutes]
    | cons q l =>
      rw [List.map_cons] at ih
      rw [List.map_cons, List.map_cons, onLast, onLast, ih, List.map_cons]

theorem onLast_id {l : List α} (fixed : ∀ p, f p = p) : onLast f l = l := by
  induction l with
  | nil => rfl
  | cons p l ih =>
    cases l with
    | nil => rw [onLast, fixed]
    | cons q l => rw [onLast, ih]

theorem onLast_head {l : List α} (long : 2 ≤ l.length) : (onLast f l).head? = l.head? := by
  match l with
  | p :: q :: l => rfl
  | [_] | [] => simp at long

theorem onLast_tail {l : List α} (long : 2 ≤ l.length) : (onLast f l).tail = onLast f l.tail := by
  match l with
  | p :: q :: l => rfl
  | [_] | [] => simp at long

theorem onLast_last (l : List α) : (onLast f l).getLast? = l.getLast?.map f := by
  induction l with
  | nil => rfl
  | cons p l ih =>
    cases l with
    | nil => rfl
    | cons q l =>
      obtain ⟨r, rest, same⟩ := List.exists_cons_of_length_pos
        (show 0 < (onLast f (q :: l)).length by rw [onLast_length, List.length_cons]; omega)
      rw [onLast, same, List.getLast?_cons_cons, ← same, ih, List.getLast?_cons_cons]

end Ends

theorem meetBefore_length (stop : Option PlanPoint) (places : List Place) : (meetBefore stop places).length = places.length := by
  cases stop with
  | none => rfl
  | some q => exact List.length_modifyHead

theorem meetBefore_tail (stop : Option PlanPoint) (places : List Place) : (meetBefore stop places).tail = places.tail := by
  cases stop with
  | none => rfl
  | some q => exact List.tail_modifyHead

theorem meetBefore_last (stop : Option PlanPoint) {places : List Place} (long : 2 ≤ places.length) :
    (meetBefore stop places).getLast? = places.getLast? := by
  match places with
  | p :: q :: rest =>
    cases stop with
    | none => rfl
    | some s => rw [meetBefore, List.modifyHead_cons, List.getLast?_cons_cons, List.getLast?_cons_cons]
  | [_] | [] => simp at long

/-! ### The stored points encode the shared runs -/

/-- A stored point with its must-hit bit, and its spray bit. -/
def fullStamp (p : PlanPoint) : Place × Bool := (placeOf p, sprayBit p)

def orBit (must : Bool) (v : Place × Bool) : Place × Bool := (orMust must v.1, v.2)

theorem fullStamp_or (last first : PlanPoint) :
    fullStamp { last with flags := last.flags ||| (first.flags &&& flagMustHit) } = orBit (mustHit first) (fullStamp last) := by
  have spray : (last.flags ||| (first.flags &&& flagMustHit)) &&& flagSpray = last.flags &&& flagSpray := by
    rw [Nat.and_or_distrib_right, Nat.and_assoc, show flagMustHit &&& flagSpray = 0 from rfl, Nat.and_zero, Nat.or_zero]
  have must : (last.flags ||| (first.flags &&& flagMustHit)) &&& flagMustHit =
      (last.flags &&& flagMustHit) ||| (first.flags &&& flagMustHit) := by
    rw [Nat.and_or_distrib_right, Nat.and_assoc, Nat.and_self]
  simp only [fullStamp, placeOf, sprayBit, mustHit, PlanPoint.at, orBit, orMust, spray, must, ne_eq, Nat.or_eq_zero_iff]
  rw [← Bool.decide_or]
  simp only [not_and_or]

theorem appendRun_full {flat dense : List PlanPoint} (some : flat ≠ []) {first : PlanPoint} {rest : List PlanPoint}
    (begins : dense = first :: rest) :
    (appendRun flat dense).map fullStamp = onLast (orBit (mustHit first)) (flat.map fullStamp) ++ rest.map fullStamp := by
  have last := List.getLast?_eq_some_getLast some
  have parts : flat.map fullStamp = flat.dropLast.map fullStamp ++ [fullStamp (flat.getLast some)] := by
    conv_lhs => rw [← List.dropLast_append_getLast some]
    rw [List.map_append, List.map_singleton]
  simp only [appendRun, begins, last, List.map_append, List.map_cons, fullStamp_or]
  rw [parts, onLast_concat, List.append_assoc, List.singleton_append]

theorem full_points {r : PlanRun} (h : StoredOk r) : r.points.map fullStamp = (r.points.map placeOf).map (·, decide (r.kind = .mark)) := by
  rw [List.map_map]
  exact List.map_congr_left fun p mem => by simp only [fullStamp, Function.comp_apply, h.spray p mem]

theorem orBit_false (v : Place × Bool) : orBit false v = v := by
  simp only [orBit, orMust, Bool.or_false]

theorem onLast_mark (must mark : Bool) (places : List Place) :
    onLast (orBit must) (places.map (·, mark)) = (onLast (orMust must) places).map (·, mark) :=
  onLast_map (h := (·, mark)) (orMust must) (fun _ => rfl) places

theorem joinRuns_full (stop : Option PlanPoint) {flat : List PlanPoint} {rs : List PlanRun} (some : flat ≠ []) (ok : ∀ r ∈ rs, StoredOk r) :
    (joinRuns flat rs).map fullStamp = onLast (orBit (mustNext rs.head?)) (flat.map fullStamp) ++ later (sharedRuns stop rs) := by
  induction rs generalizing flat stop with
  | nil =>
    rw [List.head?_nil, onLast_id (orBit (mustNext none)) orBit_false]
    simp [joinRuns, later, sharedRuns]
  | cons r rs ih =>
    rw [List.forall_mem_cons] at ok
    obtain ⟨first, rest, points⟩ := List.exists_cons_of_length_pos (show 0 < r.points.length by have := ok.1.long; omega)
    have long := ok.1.long
    rw [points, List.length_cons] at long
    have appended := appendRun_full some points
    have next : appendRun flat r.points ≠ [] := by
      intro none
      rw [none] at appended
      have lengths := congrArg List.length appended
      rw [List.length_append, List.length_map, List.length_map] at lengths
      simp only [List.length_nil] at lengths
      omega
    have more : rest.map fullStamp ≠ [] := by
      apply List.ne_nil_of_length_pos
      rw [List.length_map]
      omega
    have stamped := full_points ok.1
    rw [points, List.map_cons, List.map_cons, List.map_cons] at stamped
    have tail := (List.cons.inj stamped).2
    have shared : (onLast (orMust (mustNext rs.head?)) (meetBefore stop (r.points.map placeOf))).tail =
        onLast (orMust (mustNext rs.head?)) (rest.map placeOf) := by
      rw [onLast_tail, meetBefore_tail, points, List.map_cons, List.tail_cons]
      rw [meetBefore_length, List.length_map, points, List.length_cons]
      exact long
    have here := ih r.points.getLast? next ok.2
    rw [joinRuns] at here ⊢
    rw [List.foldl_cons, here, appended, onLast_append _ _ more, sharedRuns, later_cons, shared, tail, List.append_assoc,
      onLast_mark]
    simp only [mustNext, List.head?_cons, Option.bind_some, points, Option.any_some]

theorem joinRuns_shared {rs : List PlanRun} (some : rs ≠ []) (ok : ∀ r ∈ rs, StoredOk r) :
    (joinRuns [] rs).map fullStamp = stored (sharedRuns none rs) := by
  obtain ⟨r, rs, rfl⟩ := List.exists_cons_of_ne_nil some
  rw [List.forall_mem_cons] at ok
  have somed : r.points ≠ [] := List.ne_nil_of_length_pos (by have := ok.1.long; omega)
  have first : appendRun [] r.points = r.points := rfl
  have rest := joinRuns_full r.points.getLast? somed ok.2
  rw [joinRuns] at rest ⊢
  rw [List.foldl_cons, first, rest, sharedRuns, stored, full_points ok.1, meetBefore, onLast_mark]

theorem drawn_shared (stop : Option PlanPoint) {rs : List PlanRun} (long : ∀ r ∈ rs, 2 ≤ r.points.length)
    (kinds : (rs.map PlanRun.kind).IsChain (· ≠ ·)) : Drawn (sharedRuns stop rs) := by
  induction rs generalizing stop with
  | nil => exact ⟨by simp [sharedRuns], .nil⟩
  | cons r rs ih =>
    rw [List.forall_mem_cons] at long
    have size : ∀ (places : List Place) (must : Bool) (stop : Option PlanPoint),
        (onLast (orMust must) (meetBefore stop places)).length = places.length := by
      intro places must stop
      rw [onLast_length, meetBefore_length]
    have rest := ih r.points.getLast? long.2 kinds.tail
    rw [sharedRuns]
    refine ⟨List.forall_mem_cons.mpr ⟨?_, rest.long⟩, ?_⟩
    · rw [size, List.length_map]
      exact long.1
    · cases rs with
      | nil => exact .singleton _
      | cons r' rs =>
        rw [List.forall_mem_cons] at long
        have chain := rest.chain
        rw [sharedRuns] at chain ⊢
        refine List.isChain_cons_cons.mpr ⟨⟨?_, ?_⟩, chain⟩
        · have other := (List.isChain_cons_cons.mp kinds).1
          simp only [ne_eq, decide_eq_decide]
          cases kind : r.kind <;> cases kind' : r'.kind <;> simp_all
        · have some : r.points ≠ [] := List.ne_nil_of_length_pos (by omega)
          obtain ⟨first, rest', points⟩ := List.exists_cons_of_length_pos (show 0 < r'.points.length by omega)
          have last := List.getLast?_eq_some_getLast some
          rw [onLast_last, meetBefore_last, List.getLast?_map, last, onLast_head, meetBefore]
          · simp only [points, List.map_cons, List.modifyHead_cons, List.head?_cons, Option.map_some, mustNext, Option.bind_some,
              Option.any_some, placeOf, orMust]
          · rw [meetBefore_length, List.length_map]
            exact long.2.1
          · rw [List.length_map]
            exact long.1

/-! ### The stored runs refine the shared ones -/

theorem straight_inserted (spray : ℕ) {p q : PlanPoint} (far : maxStep < hypot p.at q.at) :
    StraightStep p.at q.at ((insertedPoints spray (partsOf p q) p q).map PlanPoint.at) := by
  have parts := partsOf_pos far
  have positive : (0 : ℝ) < partsOf p q := by exact_mod_cast (show 0 < partsOf p q by omega)
  constructor
  · refine ⟨(List.range' 1 (partsOf p q - 1)).map fun j : ℕ => (j : ℝ) / partsOf p q, ?_, ?_, ?_⟩
    · rw [List.pairwise_map]
      refine (List.pairwise_lt_range' 1 Nat.one_pos).imp fun {i j} less => ?_
      exact div_lt_div_of_pos_right (by exact_mod_cast less) positive
    · intro t mem
      obtain ⟨j, inside, rfl⟩ := List.mem_map.mp mem
      rw [List.mem_range'_1] at inside
      constructor
      · exact div_pos (by exact_mod_cast (show 0 < j by omega)) positive
      · rw [div_lt_one positive]
        exact_mod_cast (show j < partsOf p q by omega)
    · rw [insertedPoints_at, List.map_map]
      apply List.map_congr_left
      intro j _
      simp only [along, Function.comp_apply, mul_div_assoc, PlanPoint.at]
  · rw [step_at (by omega), List.isChain_map]
    refine (List.isChain_range' 0 (partsOf p q + 1) 1).imp fun i j next => ?_
    have limit : (0 : ℝ) < maxStep := by norm_num [maxStep]
    have ceiling : hypot p.at q.at / maxStep ≤ partsOf p q := by
      have nonneg : 0 ≤ hypot p.at q.at / maxStep := div_nonneg (hypot_nonneg _ _) limit.le
      have cast : ((partsOf p q : ℤ) : ℝ) = ⌈hypot p.at q.at / maxStep⌉ := by
        rw [partsOf, Int.toNat_of_nonneg (Int.ceil_nonneg nonneg)]
      have above := Int.le_ceil (hypot p.at q.at / maxStep)
      push_cast at cast
      rw [cast]
      exact above
    rw [next, hypot_along i (by omega), div_le_iff₀ positive, mul_comm, ← div_le_iff₀ limit]
    exact ceiling

theorem straight_near {p q : PlanPoint} (near : ¬ maxStep < hypot p.at q.at) : StraightStep p.at q.at [] where
  straight := ⟨[], .nil, by simp, rfl⟩
  short := List.isChain_pair.mpr (not_lt.mp near)

theorem stepPoints_straight (spray : ℕ) (p q : PlanPoint) : StraightStep p.at q.at ((stepPoints spray p q).map PlanPoint.at) := by
  rw [stepPoints]
  by_cases far : maxStep < hypot p.at q.at
  · rw [if_pos far]
    exact straight_inserted spray far
  · rw [if_neg far]
    exact straight_near far

theorem stepPoints_places {kind : RunType} (p q : PlanPoint) :
    (stepPoints kind.spray p q).map placeOf = ((stepPoints kind.spray p q).map PlanPoint.at).map (·, false) := by
  rw [List.map_map]
  refine List.map_congr_left fun r mem => ?_
  have free : mustHit r = false := by
    rw [mustHit, stepPoints_flags mem]
    cases kind <;> rfl
  simp only [placeOf, free, Function.comp_apply]

theorem densePoints_refines {kind : RunType} {points : List PlanPoint} (some : points ≠ []) :
    Refines (points.map placeOf) ((densePoints kind.spray points).map placeOf) := by
  induction points with
  | nil => exact absurd rfl some
  | cons p rest ih =>
    cases rest with
    | nil => exact .point _
    | cons q rest =>
      have more := ih (List.cons_ne_nil _ _)
      obtain ⟨q', dense, same⟩ := List.exists_cons_of_ne_nil (densePoints_ne_nil kind.spray q rest)
      have head := densePoints_head kind.spray (q :: rest)
      obtain rfl : q' = q := by simpa [same] using head
      rw [same] at more
      rw [densePoints, same, List.map_cons, List.map_cons, List.map_cons, List.map_append, List.map_cons, stepPoints_places]
      exact .step _ (stepPoints_straight kind.spray p q') more

theorem Refines.onHead {h : Place → Place} {sparse dense : List Place} (refines : Refines sparse dense)
    (stays : ∀ p ∈ sparse.head?, (h p).1 = p.1) : Refines (sparse.modifyHead h) (dense.modifyHead h) := by
  cases refines with
  | point p => exact .point _
  | @step p q rest dense between straight more =>
    rw [List.modifyHead_cons, List.modifyHead_cons]
    refine .step between ?_ more
    rw [stays p rfl]
    exact straight

theorem Refines.onLast {g : Place → Place} {sparse dense : List Place} (refines : Refines sparse dense)
    (stays : ∀ p, (g p).1 = p.1) : Refines (onLast g sparse) (onLast g dense) := by
  induction refines with
  | point p => exact .point _
  | @step p q rest dense between straight more ih =>
    have whole : System.onLast g (p :: (between.map (·, false) ++ q :: dense)) =
        p :: (between.map (·, false) ++ System.onLast g (q :: dense)) :=
      onLast_append g (p :: between.map (·, false)) (List.cons_ne_nil q dense)
    rw [System.onLast, whole]
    cases more with
    | point =>
      refine .step between ?_ ih
      rw [stays q]
      exact straight
    | @step _ q' rest' dense' between' straight' more' =>
      have inner : System.onLast g (q :: (between'.map (·, false) ++ q' :: dense')) =
          q :: (between'.map (·, false) ++ System.onLast g (q' :: dense')) :=
        onLast_append g (q :: between'.map (·, false)) (List.cons_ne_nil q' dense')
      rw [System.onLast, inner] at ih
      rw [System.onLast, inner]
      exact .step between straight ih

theorem snapTo_places (stop : Option PlanPoint) (points : List PlanPoint) :
    meetBefore stop ((snapTo stop points).map placeOf) = meetBefore stop (points.map placeOf) := by
  cases stop with
  | none => rfl
  | some q =>
    cases points with
    | nil => rfl
    | cons p rest => rfl

theorem snapTo_mustNext (stop : Option PlanPoint) (rest : List PlanRun) :
    mustNext (storedRuns stop rest).head? = mustNext rest.head? := by
  cases rest with
  | nil => rfl
  | cons r rest =>
    have flags := snapTo_flags stop r.points
    simp only [storedRuns, List.head?_cons, mustNext, Option.bind_some, densePoints_head]
    cases snapped : snapTo stop r.points with
    | nil =>
      rw [snapped, List.map_nil] at flags
      rw [List.map_eq_nil_iff.mp flags.symm]
    | cons p ps =>
      obtain ⟨p', ps', points⟩ := List.exists_cons_of_length_pos
        (show 0 < r.points.length by rw [← snapTo_length stop, snapped, List.length_cons]; omega)
      rw [snapped, points, List.map_cons, List.map_cons] at flags
      rw [points, List.head?_cons, List.head?_cons, Option.any_some, Option.any_some, mustHit, mustHit, (List.cons.inj flags).1]

theorem storedRuns_refine (stop : Option PlanPoint) {plan : List PlanRun} (ok : ∀ r ∈ plan, r.Ok) :
    List.Forall₂ (fun d d' : DrawnRun Place => d'.mark = d.mark ∧ Refines d.pts d'.pts) (sharedRuns stop plan)
      (sharedRuns stop (storedRuns stop plan)) := by
  induction plan generalizing stop with
  | nil => exact .nil
  | cons r plan ih =>
    rw [List.forall_mem_cons] at ok
    have long := ok.1.long
    have clean : snapTo stop r.points ≠ [] := by
      apply List.ne_nil_of_length_pos
      rw [snapTo_length]
      omega
    have last : (snapTo stop r.points).getLast? = r.points.getLast? := snapTo_last stop long
    rw [storedRuns, sharedRuns, sharedRuns]
    simp only [densePoints_last, last, snapTo_mustNext]
    refine .cons ⟨rfl, ?_⟩ (ih _ ok.2)
    apply Refines.onLast
    · have base := @densePoints_refines r.kind _ clean
      rw [← snapTo_places]
      cases stop with
      | none => exact base
      | some q =>
        refine base.onHead fun p head => ?_
        have moved := snapTo_head q (List.ne_nil_of_length_pos (show 0 < r.points.length by omega))
        rw [List.head?_map, Option.mem_def, Option.map_eq_some_iff] at head
        obtain ⟨p', first, rfl⟩ := head
        rw [first, Option.map_some, Option.some_inj] at moved
        exact moved.symm
    · exact fun p => rfl

/-! ### `split_runs_by_flag` of the stored points -/

theorem must_ofNat (p : Point) (flags : ℕ) : RawPoint.must ⟨p, BitVec.ofNat 32 flags⟩ = decide (flags &&& flagMustHit ≠ 0) := by
  have bit : (BitVec.ofNat 32 flags &&& 2).toNat = flags &&& 2 := by
    rw [BitVec.toNat_and, BitVec.toNat_ofNat]
    apply Nat.eq_of_testBit_eq
    intro i
    show (flags % 2 ^ 32 &&& 2).testBit i = _
    rw [Nat.testBit_and, Nat.testBit_and, Nat.testBit_mod_two_pow]
    by_cases high : i < 32
    · simp [high]
    · have zero : (2 : ℕ).testBit i = false := by
        apply Nat.testBit_lt_two_pow
        calc 2 < 2 ^ 32 := by decide
          _ ≤ 2 ^ i := Nat.pow_le_pow_right (by decide) (by omega)
      simp [zero]
  rw [RawPoint.must, decide_eq_decide, flagMustHit, ne_eq, ne_eq, ← bit, ← BitVec.toNat_inj]
  simp

theorem rawPath_places (points : List PlanPoint) :
    (rawPath points).map (fun r => (r.vertex, r.must)) = points.map placeOf := by
  simp only [rawPath, List.map_map, Function.comp_def, must_ofNat]
  rfl

/-- For every accepted plan, RPP's split of the stored points is the submitted plan, run by run. -/
theorem compilePlan_rebuilt {body : Json} {art : Artifact} (accepted : compilePlan body = .ok art) :
    ∃ plan runs, submittedPlan body = .ok plan ∧ List.Forall₂ Rebuilt (sharedRuns none plan) runs ∧
      splitRunsByFlag ((rawPath art.points).map fun r => (r.vertex, r.must)) ((rawPath art.points).map RawPoint.spray) = runs ∧
      splitRunsByFlag ((rawPath art.points).map RawPoint.vertex) ((rawPath art.points).map RawPoint.spray) =
        runs.map (PointRun.map Prod.fst) := by
  obtain ⟨plan, submitted, admitted, points⟩ := compilePlan_ok accepted
  have ok := storedRuns_ok none admitted.ok
  have some : storedRuns none plan ≠ [] := by
    obtain ⟨r, rest, rfl⟩ := List.exists_cons_of_ne_nil admitted.some
    exact List.cons_ne_nil _ _
  have shared : sharedRuns none (storedRuns none plan) ≠ [] := by
    obtain ⟨r, rest, same⟩ := List.exists_cons_of_ne_nil some
    rw [same]
    exact List.cons_ne_nil _ _
  have drawn : Drawn (sharedRuns none (storedRuns none plan)) := by
    refine drawn_shared none (fun r mem => (ok r mem).long) ?_
    rw [storedRuns_kinds]
    exact admitted.alternate
  have stamps := joinRuns_shared some ok
  have split : splitRunsByFlag ((rawPath art.points).map fun r => (r.vertex, r.must)) ((rawPath art.points).map RawPoint.spray) =
      (sharedRuns none (storedRuns none plan)).map DrawnRun.run := by
    rw [← splitRunsByFlag_stored drawn shared, ← stamps, rawPath_places, rawPath_flags, points, List.map_map, List.map_map]
    rfl
  refine ⟨plan, _, submitted, ?_, split, ?_⟩
  · rw [List.forall₂_map_right_iff]
    refine (storedRuns_refine none admitted.ok).imp fun d d' same => ⟨?_, same.2⟩
    rw [← same.1]
    rfl
  · rw [← split, ← splitRunsByFlag_map, List.map_map]
    rfl

theorem compilePlan_rebuilt_line : ∃ art plan runs, compilePlan (lineAndDrive 1 3) = .ok art ∧
    submittedPlan (lineAndDrive 1 3) = .ok plan ∧ List.Forall₂ Rebuilt (sharedRuns none plan) runs ∧
      splitRunsByFlag ((rawPath art.points).map RawPoint.vertex) ((rawPath art.points).map RawPoint.spray) =
        runs.map (PointRun.map Prod.fst) := by
  have north : |(1 : ℝ)| ≤ envelope := by norm_num [envelope]
  have east : |(3 : ℝ)| ≤ envelope := by norm_num [envelope]
  have near : hypot (⟨1, 0⟩ : Point) ⟨1, 3⟩ ≤ maxStep := by
    rw [hypot, Real.sqrt_le_left (by norm_num [maxStep])]
    norm_num [maxStep]
  obtain ⟨art, accepted⟩ := lineAndDrive_compiled north east near
  obtain ⟨plan, runs, submitted, rebuilt, -, split⟩ := compilePlan_rebuilt accepted
  exact ⟨art, plan, runs, accepted, submitted, rebuilt, split⟩

end

end Dyx3.System
