import Dyx3.Backend.AppPlan

/-!
What `compile_plan` stores of an accepted plan: the submitted runs, each snapped onto the end of the one
before and densified, joined with one point at each shared boundary.
-/

namespace Dyx3.Backend

noncomputable section

open Geometry

/-! ### The submitted plan -/

def submittedRun (ri : ℕ) (run : Json) : Check PlanRun := do
  let (kind, points) ← readType ri run
  let items ← pointList ri points
  let points ← readPoints ri kind 0 items
  return ⟨kind, points⟩

def submittedRuns : ℕ → List Json → Check (List PlanRun)
  | _, [] => return []
  | ri, run :: rest => do
    let r ← submittedRun ri run
    let rs ← submittedRuns (ri + 1) rest
    return r :: rs

/-- The runs of a body as they were submitted. -/
def submittedPlan (body : Json) : Check (List PlanRun) := do
  let runs ← given ((body.get? "runs").bind Json.arr?) .invalidPayload "runs must be an array"
  submittedRuns 0 runs

/-! ### What is stored of it -/

def snapTo (stop : Option PlanPoint) (points : List PlanPoint) : List PlanPoint :=
  match stop, points with
  | some q, p :: rest => ⟨q.n, q.e, p.flags⟩ :: rest
  | _, points => points

/-- The points inserted into the step from `p` to `q`. -/
def stepPoints (spray : ℕ) (p q : PlanPoint) : List PlanPoint :=
  if maxStep < hypot p.at q.at then insertedPoints spray (partsOf p q) p q else []

def densePoints (spray : ℕ) : List PlanPoint → List PlanPoint
  | p :: q :: rest => p :: (stepPoints spray p q ++ densePoints spray (q :: rest))
  | points => points

/-- Each run with all its stored points, the shared boundary points included. -/
def storedRuns : Option PlanPoint → List PlanRun → List PlanRun
  | _, [] => []
  | stop, r :: rest =>
    let clean := snapTo stop r.points
    ⟨r.kind, densePoints r.kind.spray clean⟩ :: storedRuns clean.getLast? rest

def joinRuns (flat : List PlanPoint) (runs : List PlanRun) : List PlanPoint :=
  runs.foldl (fun flat r => appendRun flat r.points) flat

/-- What admission checks of each run by itself. -/
structure PlanRun.Ok (r : PlanRun) : Prop where
  long : 2 ≤ r.points.length
  spray : ∀ p ∈ r.points, p.flags &&& flagSpray = r.kind.spray

/-! ### Inversion of the checks -/

section Checks

variable {α β : Type}

theorem bind_ok {x : Check α} {f : α → Check β} {b : β} (h : (x >>= f) = .ok b) : ∃ a, x = .ok a ∧ f a = .ok b := by
  cases x with
  | error err => cases h
  | ok a => exact ⟨a, rfl, h⟩

theorem refuseIf_ok {c : Prop} [Decidable c] {code : Code} {reason : String} {u : Unit}
    (h : refuseIf c code reason = .ok u) : ¬c := by
  intro hc
  rw [refuseIf, if_pos hc] at h
  cases h

theorem given_ok {v : Option α} {code : Code} {reason : String} {a : α} (h : given v code reason = .ok a) :
    v = some a := by
  cases v with
  | none => cases h
  | some b =>
    cases h
    rfl

end Checks

theorem pointList_ok {ri : ℕ} {points : Json} {items : List Json} (h : pointList ri points = .ok items) :
    2 ≤ items.length := by
  obtain ⟨items', -, h⟩ := bind_ok h
  obtain ⟨_, long, h⟩ := bind_ok h
  have long := refuseIf_ok long
  cases h
  omega

theorem readPoint_ok {ri k : ℕ} {kind : RunType} {point : Json} {p : PlanPoint} (h : readPoint ri k kind point = .ok p) :
    p.flags &&& flagSpray = kind.spray := by
  unfold readPoint at h
  simp only at h
  split at h
  · obtain ⟨n, -, h⟩ := bind_ok h
    obtain ⟨e, -, h⟩ := bind_ok h
    obtain ⟨flags, -, h⟩ := bind_ok h
    obtain ⟨_, bit, h⟩ := bind_ok h
    have bit := refuseIf_ok bit
    cases h
    simpa using bit
  · cases h

theorem readPoints_ok {ri k : ℕ} {kind : RunType} {items : List Json} {points : List PlanPoint}
    (h : readPoints ri kind k items = .ok points) :
    points.length = items.length ∧ ∀ p ∈ points, p.flags &&& flagSpray = kind.spray := by
  induction items generalizing k points with
  | nil =>
    cases h
    simp
  | cons item items ih =>
    obtain ⟨q, first, h⟩ := bind_ok h
    obtain ⟨qs, rest, h⟩ := bind_ok h
    cases h
    obtain ⟨len, spray⟩ := ih rest
    exact ⟨by simp [len], List.forall_mem_cons.mpr ⟨readPoint_ok first, spray⟩⟩

theorem densifyFrom_ok {spray split split' : ℕ} {budget : ℤ} {out dense : List PlanPoint} {p : PlanPoint}
    {rest : List PlanPoint} (h : densifyFrom spray budget (out ++ [p]) split p rest = .ok (dense, split')) :
    dense = out ++ densePoints spray (p :: rest) := by
  induction rest generalizing out p split with
  | nil =>
    cases h
    rfl
  | cons q rest ih =>
    rw [densifyFrom] at h
    rw [densePoints, stepPoints]
    split at h
    case isTrue far =>
      obtain ⟨_, -, h⟩ := bind_ok h
      rw [ih h, if_pos far]
      simp
    case isFalse near =>
      rw [ih h, if_neg near]
      simp

theorem densify_ok {run dense : List PlanPoint} {spray split : ℕ} {budget : ℤ}
    (h : densify run spray budget = .ok (dense, split)) : dense = densePoints spray run := by
  cases run with
  | nil =>
    cases h
    rfl
  | cons p rest =>
    have loop : densifyFrom spray budget ([] ++ [p]) 0 p rest = .ok (dense, split) := h
    exact densifyFrom_ok loop

theorem snap_ok {ri : ℕ} {previous : Option (RunType × PlanPoint)} {points clean : List PlanPoint} {gap : ℝ}
    (h : snap ri previous points = .ok (clean, gap)) : clean = snapTo (previous.map Prod.snd) points := by
  unfold snap at h
  split at h
  · obtain ⟨_, -, h⟩ := bind_ok h
    cases h
    rfl
  case h_2 other =>
    cases h
    cases previous with
    | none => rfl
    | some q =>
      cases points with
      | nil => rfl
      | cons p rest => exact absurd rfl (other q.1 q.2 p rest rfl)

/-- One accepted run: it was well formed, of the other type, and is stored behind the runs before it. -/
theorem addRun_ok {s s' : Compiled} {ri : ℕ} {run : Json} (h : addRun s ri run = .ok s') :
    ∃ r, submittedRun ri run = .ok r ∧ r.Ok ∧ s.previous.map Prod.fst ≠ some r.kind ∧
      s'.flat = appendRun s.flat (densePoints r.kind.spray (snapTo (s.previous.map Prod.snd) r.points)) ∧
      s'.previous = (snapTo (s.previous.map Prod.snd) r.points).getLast?.map (r.kind, ·) := by
  obtain ⟨⟨kind, points⟩, typed, h⟩ := bind_ok h
  obtain ⟨_, other, h⟩ := bind_ok h
  obtain ⟨items, listed, h⟩ := bind_ok h
  obtain ⟨_, -, h⟩ := bind_ok h
  obtain ⟨submitted, read, h⟩ := bind_ok h
  obtain ⟨⟨clean, gap⟩, snapped, h⟩ := bind_ok h
  obtain ⟨⟨dense, split⟩, densified, h⟩ := bind_ok h
  have clean_eq := snap_ok snapped
  have dense_eq := densify_ok densified
  obtain ⟨len, spray⟩ := readPoints_ok read
  cases h
  refine ⟨⟨kind, submitted⟩, ?_, ⟨?_, spray⟩, refuseIf_ok other, ?_, ?_⟩
  · simp only [submittedRun, typed, listed, read, bind, Except.bind, pure, Except.pure]
  · have := pointList_ok listed
    show 2 ≤ submitted.length
    omega
  · simp only [dense_eq, clean_eq]
  · simp only [clean_eq]

theorem addRuns_ok {s s' : Compiled} {ri : ℕ} {runs : List Json} (h : addRuns s ri runs = .ok s') :
    ∃ plan, submittedRuns ri runs = .ok plan ∧ plan.length = runs.length ∧ (∀ r ∈ plan, r.Ok) ∧
      ((s.previous.map Prod.fst).toList ++ plan.map PlanRun.kind).IsChain (· ≠ ·) ∧
      s'.flat = joinRuns s.flat (storedRuns (s.previous.map Prod.snd) plan) := by
  induction runs generalizing s ri with
  | nil =>
    cases h
    refine ⟨[], rfl, rfl, by simp, ?_, rfl⟩
    cases s'.previous <;> simp
  | cons run runs ih =>
    obtain ⟨s₁, first, h⟩ := bind_ok h
    obtain ⟨r, submitted, ok, other, flat, previous⟩ := addRun_ok first
    obtain ⟨plan, rest, len, all, kinds, joined⟩ := ih h
    have some : ∃ last, (snapTo (s.previous.map Prod.snd) r.points).getLast? = .some last := by
      have long := ok.long
      cases points : r.points with
      | nil => simp [points] at long
      | cons p ps =>
        refine ⟨_, List.getLast?_eq_some_getLast ?_⟩
        cases s.previous <;> simp [snapTo]
    obtain ⟨last, some⟩ := some
    rw [previous, some] at kinds joined
    refine ⟨r :: plan, ?_, by simp [len], List.forall_mem_cons.mpr ⟨ok, all⟩, ?_, ?_⟩
    · simp only [submittedRuns, submitted, rest, bind, Except.bind, pure, Except.pure]
    · cases prev : s.previous with
      | none => simpa using kinds
      | some q =>
        rw [prev] at other
        simp only [Option.map_some, Option.toList_some, List.map_cons, List.singleton_append,
          List.isChain_cons_cons] at kinds other ⊢
        exact ⟨fun same => other (by rw [same]), kinds⟩
    · rw [joined, flat]
      simp only [Option.map_some, storedRuns, joinRuns, List.foldl_cons, some]

/-- What admission promises of a plan it accepts. -/
structure Accepted (plan : List PlanRun) : Prop where
  some : plan ≠ []
  ok : ∀ r ∈ plan, r.Ok
  alternate : (plan.map PlanRun.kind).IsChain (· ≠ ·)

theorem compilePlan_ok {body : Json} {art : Artifact} (h : compilePlan body = .ok art) :
    ∃ plan, submittedPlan body = .ok plan ∧ Accepted plan ∧ art.points = joinRuns [] (storedRuns none plan) := by
  unfold compilePlan at h
  obtain ⟨client, -, h⟩ := bind_ok h
  obtain ⟨version, -, h⟩ := bind_ok h
  obtain ⟨frame, -, h⟩ := bind_ok h
  obtain ⟨value, found, h⟩ := bind_ok h
  obtain ⟨frame, -, h⟩ := bind_ok h
  obtain ⟨⟨client, version⟩, -, h⟩ := bind_ok h
  obtain ⟨anchor, -, h⟩ := bind_ok h
  obtain ⟨name, -, h⟩ := bind_ok h
  obtain ⟨origin, -, h⟩ := bind_ok h
  obtain ⟨_, -, h⟩ := bind_ok h
  obtain ⟨runs, listed, h⟩ := bind_ok h
  obtain ⟨_, some, h⟩ := bind_ok h
  obtain ⟨s, added, h⟩ := bind_ok h
  obtain ⟨_, -, h⟩ := bind_ok h
  cases h
  obtain ⟨plan, submitted, len, ok, kinds, flat⟩ := addRuns_ok added
  refine ⟨plan, ?_, ⟨?_, ok, by simpa using kinds⟩, flat⟩
  · have value : (body.get? "runs").bind Json.arr? = .some runs := by
      rw [given_ok found]
      exact given_ok listed
    simp only [submittedPlan, value, given, bind, Except.bind, pure, Except.pure, submitted]
  · have := refuseIf_ok some
    rintro rfl
    exact this (List.length_eq_zero_iff.mp len.symm)

/-! ### The points of a stored run -/

theorem snapTo_length (stop : Option PlanPoint) (points : List PlanPoint) :
    (snapTo stop points).length = points.length := by
  cases stop <;> cases points <;> simp [snapTo]

theorem snapTo_flags (stop : Option PlanPoint) (points : List PlanPoint) :
    (snapTo stop points).map PlanPoint.flags = points.map PlanPoint.flags := by
  cases stop <;> cases points <;> simp [snapTo]

theorem snapTo_tail (stop : Option PlanPoint) (points : List PlanPoint) : (snapTo stop points).tail = points.tail := by
  cases stop <;> cases points <;> simp [snapTo]

theorem snapTo_head (stop : PlanPoint) {points : List PlanPoint} (some : points ≠ []) :
    (snapTo (.some stop) points).head?.map PlanPoint.at = .some stop.at := by
  obtain ⟨p, rest, rfl⟩ := List.exists_cons_of_ne_nil some
  rfl

/-- The last point of a run is not moved. -/
theorem snapTo_last (stop : Option PlanPoint) {points : List PlanPoint} (long : 2 ≤ points.length) :
    (snapTo stop points).getLast? = points.getLast? := by
  match points with
  | p :: q :: rest => cases stop <;> simp [snapTo]
  | [_] | [] => simp at long

theorem densePoints_head (spray : ℕ) (points : List PlanPoint) : (densePoints spray points).head? = points.head? := by
  match points with
  | p :: q :: rest => simp [densePoints]
  | [_] | [] => rfl

theorem densePoints_ne_nil (spray : ℕ) (p : PlanPoint) (rest : List PlanPoint) : densePoints spray (p :: rest) ≠ [] := by
  intro none
  have := densePoints_head spray (p :: rest)
  simp [none] at this

theorem densePoints_last (spray : ℕ) (points : List PlanPoint) :
    (densePoints spray points).getLast? = points.getLast? := by
  induction points with
  | nil => rfl
  | cons p rest ih =>
    cases rest with
    | nil => rfl
    | cons q rest =>
      rw [densePoints, ← List.cons_append, List.getLast?_append_of_ne_nil _ (densePoints_ne_nil _ _ _), ih,
        List.getLast?_cons_cons]

theorem densePoints_length (spray : ℕ) (points : List PlanPoint) :
    points.length ≤ (densePoints spray points).length := by
  induction points with
  | nil => simp
  | cons p rest ih =>
    cases rest with
    | nil => simp [densePoints]
    | cons q rest =>
      simp only [densePoints, List.length_cons, List.length_append] at ih ⊢
      omega

theorem stepPoints_flags {spray : ℕ} {p q r : PlanPoint} (mem : r ∈ stepPoints spray p q) : r.flags = spray := by
  unfold stepPoints at mem
  split at mem
  · obtain ⟨j, -, rfl⟩ := List.mem_map.mp mem
    rfl
  · simp at mem

/-- A property of the submitted points and of every inserted one. -/
theorem forall_densePoints {ok : PlanPoint → Prop} {spray : ℕ} {points : List PlanPoint} (given : ∀ p ∈ points, ok p)
    (inserted : ∀ r : PlanPoint, r.flags = spray → ok r) : ∀ p ∈ densePoints spray points, ok p := by
  induction points with
  | nil => simp [densePoints]
  | cons p rest ih =>
    cases rest with
    | nil => exact given
    | cons q rest =>
      rw [List.forall_mem_cons] at given
      rw [densePoints, List.forall_mem_cons, List.forall_mem_append]
      exact ⟨given.1, fun r mem => inserted r (stepPoints_flags mem), ih given.2⟩

/-- The point at `j` of `parts` equal parts of the step from `p` to `q`. -/
def along (p q : PlanPoint) (parts j : ℕ) : Point :=
  ⟨p.n + (q.n - p.n) * j / parts, p.e + (q.e - p.e) * j / parts⟩

theorem insertedPoints_at (spray parts : ℕ) (p q : PlanPoint) :
    (insertedPoints spray parts p q).map PlanPoint.at = (List.range' 1 (parts - 1)).map (along p q parts) := by
  simp [insertedPoints, PlanPoint.at, along, Function.comp_def]

/-- Both ends of a step and what is inserted between them. -/
theorem step_at {spray parts : ℕ} {p q : PlanPoint} (split : 0 < parts) :
    p.at :: (insertedPoints spray parts p q).map PlanPoint.at ++ [q.at] =
      (List.range' 0 (parts + 1)).map (along p q parts) := by
  have first : p.at = along p q parts 0 := by simp [PlanPoint.at, along]
  have last : q.at = along p q parts parts := by
    have : (parts : ℝ) ≠ 0 := by exact_mod_cast split.ne'
    simp only [PlanPoint.at, along, mul_div_assoc, div_self this, mul_one, add_sub_cancel]
  obtain ⟨k, rfl⟩ := Nat.exists_eq_add_of_lt split
  rw [insertedPoints_at, List.range'_succ, List.map_cons, ← first, List.cons_append]
  congr 1
  rw [show 0 + k + 1 - 1 = k by omega, show 0 + k + 1 = k + 1 by omega, List.range'_concat, List.map_append]
  simp only [List.map_cons, List.map_nil]
  rw [show (0 + 1 : ℕ) = 1 from rfl, show 1 + 1 * k = k + 1 by omega]
  congr 2
  rw [show 0 + k + 1 = k + 1 by omega] at last
  exact last

theorem hypot_along {p q : PlanPoint} {parts : ℕ} (j : ℕ) (split : 0 < parts) :
    hypot (along p q parts j) (along p q parts (j + 1)) = hypot p.at q.at / parts := by
  have pos : (0 : ℝ) < parts := by exact_mod_cast split
  have scaled : ∀ x y : ℝ, √((x / parts) ^ 2 + (y / parts) ^ 2) = √(x ^ 2 + y ^ 2) / parts := by
    intro x y
    rw [div_pow, div_pow, ← add_div, Real.sqrt_div (by positivity), Real.sqrt_sq pos.le]
  simp only [hypot, pos_point, along, PlanPoint.at]
  rw [← scaled]
  push_cast
  congr 3 <;> ring

theorem partsOf_le {p q : PlanPoint} : (partsOf p q : ℝ) ≤ hypot p.at q.at / maxStep + 1 := by
  have positive : 0 ≤ hypot p.at q.at / maxStep := div_nonneg (hypot_nonneg _ _) (by norm_num [maxStep])
  have cast : ((partsOf p q : ℤ) : ℝ) = ⌈hypot p.at q.at / maxStep⌉ := by
    rw [partsOf, Int.toNat_of_nonneg (Int.ceil_nonneg positive)]
  have := Int.ceil_lt_add_one (hypot p.at q.at / maxStep)
  push_cast at cast
  linarith

theorem partsOf_pos {p q : PlanPoint} (long : maxStep < hypot p.at q.at) : 1 < partsOf p q := by
  have step : (0 : ℝ) < maxStep := by norm_num [maxStep]
  have : (1 : ℤ) < ⌈hypot p.at q.at / maxStep⌉ := by
    rw [Int.lt_ceil, Int.cast_one, one_lt_div step]
    exact long
  rw [partsOf]
  omega

/-- No two neighbouring vertices are duplicates. -/
def NoDuplicates (pts : List Point) : Prop := pts.IsChain fun a b => 1e-6 ≤ hypot a b

theorem stepPoints_noDuplicates (spray : ℕ) {p q : PlanPoint} (far : 1e-6 ≤ hypot p.at q.at) :
    NoDuplicates (p.at :: (stepPoints spray p q).map PlanPoint.at ++ [q.at]) := by
  unfold stepPoints
  split
  case isFalse => simpa [NoDuplicates] using far
  case isTrue long =>
    have parts := partsOf_pos long
    have split : (0 : ℝ) < partsOf p q := by exact_mod_cast (show 0 < partsOf p q by omega)
    rw [step_at (by omega), NoDuplicates, List.isChain_map]
    refine (List.isChain_range' 0 (partsOf p q + 1) 1).imp fun i j next => ?_
    rw [next, hypot_along i (by omega), le_div_iff₀ split]
    -- a part is longer than half the step limit
    have bound := partsOf_le (p := p) (q := q)
    norm_num [maxStep] at long bound ⊢
    linarith

theorem densePoints_noDuplicates (spray : ℕ) {points : List PlanPoint}
    (far : NoDuplicates (points.map PlanPoint.at)) : NoDuplicates ((densePoints spray points).map PlanPoint.at) := by
  induction points with
  | nil => exact far
  | cons p rest ih =>
    cases rest with
    | nil => exact far
    | cons q rest =>
      rw [NoDuplicates, List.map_cons, List.map_cons, List.isChain_cons_cons] at far
      have tail := ih far.2
      have head := densePoints_head spray (q :: rest)
      obtain ⟨q', more, dense⟩ := List.exists_cons_of_ne_nil (densePoints_ne_nil spray q rest)
      obtain rfl : q' = q := by simpa [dense] using head
      rw [dense] at tail
      rw [densePoints, dense, List.map_cons, List.map_append, List.map_cons, ← List.cons_append]
      exact List.isChain_split.mpr ⟨stepPoints_noDuplicates spray far.1, tail⟩

end

end Dyx3.Backend
