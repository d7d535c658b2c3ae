import Dyx3.Backend.StoredRuns

/-!
Which plans `compile_plan` accepts, and what it makes of them, without its running sums and budgets: those that pass the checks
of the header and of each run by itself, whose runs alternate and meet, and that stay within the two limits on points.
-/

namespace Dyx3.Backend

noncomputable section

open Geometry

/-! ### The header -/

/-- What `compile_plan` does before its runs: the runs, and the artifact once they are compiled. -/
def planHeader (body : Json) : Check (List Json × (Compiled → Artifact)) := do
  let required := "client, client_version, frame and runs are required"
  let client ← given (body.get? "client") .invalidPayload required
  let version ← given (body.get? "client_version") .invalidPayload required
  let frame ← given (body.get? "frame") .invalidPayload required
  let runs ← given (body.get? "runs") .invalidPayload required
  let frame ← given (frameOf frame) .invalidFrame
    "frame must be \"local_ned\" (with an anchor) or \"ekf_local_ned\" (no anchor)"
  let (client, version) ← clientOf client version
  let anchor ← anchorOf body frame
  let name ← missionName body
  let origin ← originOf body
  refuseIf (anchor.isSome ∧ origin ≠ (0, 0)) .originWithAnchor
    "with an anchor, origin_ne_m must be absent or [0, 0]: points are metres from the anchor"
  let runs ← given runs.arr? .invalidPayload "runs must be an array"
  refuseIf (runs = []) .emptyMission "mission must have at least one run"
  return (runs, fun s =>
    { points := s.flat
      info :=
        { originNe := origin
          totalMarkLength := s.markLength
          totalTransitLength := s.transitLength
          numWaypoints := s.flat.length
          source := { client, clientVersion := version, name, numRuns := runs.length }
          frame
          anchor
          densifiedSteps := s.densifiedSteps
          maxBoundarySnap := s.maxSnap } })

theorem compilePlan_eq (body : Json) : compilePlan body = do
    let (runs, artifact) ← planHeader body
    let s ← addRuns {} 0 runs
    refuseIf (maxStoredPoints < s.flat.length) .pointsLimitExceeded "densifying long steps exceeds 200000 stored points"
    return artifact s := by
  simp only [compilePlan, planHeader, bind_assoc, pure_bind]

/-! ### The runs, stored without a limit -/

/-- How far a run begins from the end of the one before. -/
def gapTo (stop : Option PlanPoint) (points : List PlanPoint) : ℝ :=
  match stop, points with
  | some q, p :: _ => hypot q.at p.at
  | _, _ => 0

def longSteps : List PlanPoint → ℕ
  | p :: q :: rest => (if maxStep < hypot p.at q.at then 1 else 0) + longSteps (q :: rest)
  | _ => 0

/-- A run stored behind the ones before it. -/
def storeRun (s : Compiled) (r : PlanRun) : Compiled :=
  let clean := snapTo (s.previous.map Prod.snd) r.points
  { flat := appendRun s.flat (densePoints r.kind.spray clean)
    markLength := if r.kind = .mark then s.markLength + drawnLength clean else s.markLength
    transitLength := if r.kind = .mark then s.transitLength else s.transitLength + drawnLength clean
    total := s.total + r.points.length
    densifiedSteps := s.densifiedSteps + longSteps clean
    maxSnap := max s.maxSnap (gapTo (s.previous.map Prod.snd) r.points)
    previous := clean.getLast?.map (r.kind, ·) }

def storePlan (s : Compiled) (plan : List PlanRun) : Compiled := plan.foldl storeRun s

/-- A run follows what is stored: it is of the other type and begins within the snap limit of its end. -/
structure RunFollows (s : Compiled) (r : PlanRun) : Prop where
  other : s.previous.map Prod.fst ≠ some r.kind
  near : gapTo (s.previous.map Prod.snd) r.points ≤ boundarySnap

def FollowOn : Compiled → List PlanRun → Prop
  | _, [] => True
  | s, r :: rest => RunFollows s r ∧ FollowOn (storeRun s r) rest

/-! ### The densified points and their budget -/

/-- Done with this result, or refused for the limit on points. -/
def DoneOrLimited {α : Type} (x : Check α) (done : α) (much : Prop) : Prop :=
  (x = .ok done ∧ ¬much) ∨ ∃ reason, x = .error ⟨.pointsLimitExceeded, reason⟩ ∧ much

theorem densePoints_length_cons (spray : ℕ) (p q : PlanPoint) (rest : List PlanPoint) :
    (densePoints spray (p :: q :: rest)).length = 1 + (stepPoints spray p q).length + (densePoints spray (q :: rest)).length := by
  rw [densePoints, List.length_cons, List.length_append]
  omega

theorem stepPoints_length {spray : ℕ} {p q : PlanPoint} (far : maxStep < hypot p.at q.at) :
    (stepPoints spray p q).length + 1 = partsOf p q := by
  have parts := partsOf_pos far
  rw [stepPoints, if_pos far, insertedPoints, List.length_map, List.length_range']
  omega

/-- The budget is looked at in long steps only; a run without one always fits. -/
theorem densifyFrom_limits (spray : ℕ) (budget : ℤ) (rest : List PlanPoint) (out : List PlanPoint) (split : ℕ) (p : PlanPoint) :
    ∃ much, DoneOrLimited (densifyFrom spray budget (out ++ [p]) split p rest)
        (out ++ densePoints spray (p :: rest), split + longSteps (p :: rest)) much ∧
      (much → budget < out.length + (densePoints spray (p :: rest)).length) := by
  induction rest generalizing out split p with
  | nil => exact ⟨False, .inl ⟨rfl, id⟩, False.elim⟩
  | cons q rest ih =>
    have grows := densePoints_length spray (q :: rest)
    rw [List.length_cons] at grows
    rw [densifyFrom, densePoints_length_cons, longSteps]
    by_cases far : maxStep < hypot p.at q.at
    · have inserted := @stepPoints_length spray _ _ far
      rw [if_pos far, if_pos far]
      by_cases much : budget < (out ++ [p]).length + partsOf p q
      · refine ⟨True, .inr ⟨"densifying long steps exceeds 200000 stored points", ?_, trivial⟩, fun _ => ?_⟩
        · rw [refuseIf, if_pos much]
          rfl
        · rw [List.length_append, List.length_singleton] at much
          omega
      · rw [refuseIf, if_neg much]
        obtain ⟨limit, loop, exceeds⟩ := ih (out ++ [p] ++ insertedPoints spray (partsOf p q) p q) (split + 1) q
        refine ⟨limit, ?_, fun here => ?_⟩
        · rw [densePoints, stepPoints, if_pos far]
          rw [Nat.add_assoc] at loop
          simpa using loop
        · have more := exceeds here
          rw [stepPoints, if_pos far]
          rw [List.length_append, List.length_append, List.length_singleton] at more
          omega
    · rw [if_neg far, if_neg far]
      obtain ⟨limit, loop, exceeds⟩ := ih (out ++ [p]) split q
      refine ⟨limit, ?_, fun here => ?_⟩
      · rw [densePoints, stepPoints, if_neg far, Nat.zero_add]
        simpa using loop
      · have more := exceeds here
        rw [stepPoints, if_neg far, List.length_nil]
        rw [List.length_append, List.length_singleton] at more
        omega

theorem densify_limits (spray : ℕ) (budget : ℤ) {run : List PlanPoint} (some : run ≠ []) :
    ∃ much, DoneOrLimited (densify run spray budget) (densePoints spray run, longSteps run) much ∧
      (much → budget < (densePoints spray run).length) := by
  obtain ⟨p, rest, rfl⟩ := List.exists_cons_of_ne_nil some
  have loop := densifyFrom_limits spray budget rest [] 0 p
  rw [List.nil_append, List.length_nil] at loop
  simpa [densify] using loop

/-! ### What is stored only grows -/

theorem appendRun_length {flat dense : List PlanPoint} (some : dense ≠ []) :
    (appendRun flat dense).length + (if flat = [] then 0 else 1) = flat.length + dense.length := by
  obtain ⟨first, rest, rfl⟩ := List.exists_cons_of_ne_nil some
  cases ends : flat.getLast? with
  | none =>
    obtain rfl := List.getLast?_eq_none_iff.mp ends
    simp [appendRun]
  | some last =>
    have inside : flat ≠ [] := by
      rintro rfl
      cases ends
    have positive := List.length_pos_of_ne_nil inside
    rw [if_neg inside]
    simp only [appendRun, ends, List.length_append, List.length_dropLast, List.length_cons]
    omega

theorem snapTo_ne_nil (stop : Option PlanPoint) {r : PlanRun} (ok : r.Ok) : snapTo stop r.points ≠ [] := by
  have long := ok.long
  apply List.ne_nil_of_length_pos
  rw [snapTo_length]
  omega

theorem densePoints_ne_nil' (spray : ℕ) {points : List PlanPoint} (some : points ≠ []) : densePoints spray points ≠ [] := by
  obtain ⟨p, rest, rfl⟩ := List.exists_cons_of_ne_nil some
  exact densePoints_ne_nil spray p rest

theorem storeRun_grows (s : Compiled) {r : PlanRun} (ok : r.Ok) : s.flat.length ≤ (storeRun s r).flat.length := by
  have dense := densePoints_ne_nil' r.kind.spray (snapTo_ne_nil (s.previous.map Prod.snd) ok)
  have stored := @appendRun_length s.flat _ dense
  have positive := List.length_pos_of_ne_nil dense
  simp only [storeRun]
  split at stored <;> omega

theorem storePlan_grows (s : Compiled) {plan : List PlanRun} (ok : ∀ r ∈ plan, r.Ok) :
    s.flat.length ≤ (storePlan s plan).flat.length ∧ s.total ≤ (storePlan s plan).total := by
  induction plan generalizing s with
  | nil => exact ⟨le_rfl, le_rfl⟩
  | cons r plan ih =>
    rw [List.forall_mem_cons] at ok
    have here := storeRun_grows s ok.1
    have later := ih (storeRun s r) ok.2
    have counted : s.total ≤ (storeRun s r).total := Nat.le_add_right _ _
    rw [storePlan, List.foldl_cons, ← storePlan]
    omega

/-! ### One run -/

theorem snap_near {ri : ℕ} {previous : Option (RunType × PlanPoint)} {points : List PlanPoint}
    (near : gapTo (previous.map Prod.snd) points ≤ boundarySnap) :
    snap ri previous points = .ok (snapTo (previous.map Prod.snd) points, gapTo (previous.map Prod.snd) points) := by
  cases previous with
  | none => rfl
  | some q =>
    cases points with
    | nil => rfl
    | cons p rest =>
      have close : ¬ boundarySnap < hypot q.2.at p.at := not_lt.mpr near
      simp only [snap, refuseIf, if_neg close]
      rfl

theorem snap_ok_near {ri : ℕ} {previous : Option (RunType × PlanPoint)} {points clean : List PlanPoint} {gap : ℝ}
    (snapped : snap ri previous points = .ok (clean, gap)) : gapTo (previous.map Prod.snd) points ≤ boundarySnap := by
  have positive : (0 : ℝ) ≤ boundarySnap := by norm_num [boundarySnap]
  cases previous with
  | none => exact positive
  | some q =>
    cases points with
    | nil => exact positive
    | cons p rest =>
      obtain ⟨_, passed, _⟩ := bind_ok snapped
      exact not_lt.mp (refuseIf_ok passed)

/-- The parts of a run that was read. -/
theorem submittedRun_ok {ri : ℕ} {run : Json} {r : PlanRun} (submitted : submittedRun ri run = .ok r) :
    ∃ points items, readType ri run = .ok (r.kind, points) ∧ pointList ri points = .ok items ∧
      readPoints ri r.kind 0 items = .ok r.points ∧ r.points.length = items.length ∧ r.Ok := by
  obtain ⟨⟨kind, points⟩, typed, submitted⟩ := bind_ok submitted
  obtain ⟨items, listed, submitted⟩ := bind_ok submitted
  obtain ⟨read, reading, submitted⟩ := bind_ok submitted
  cases submitted
  obtain ⟨length, spray⟩ := readPoints_ok reading
  have long := pointList_ok listed
  exact ⟨points, items, typed, listed, reading, length, by rw [length]; exact long, spray⟩

/-- A run that follows is stored, unless there are too many points by then. -/
theorem addRun_limits {s : Compiled} {ri : ℕ} {run : Json} {r : PlanRun} (submitted : submittedRun ri run = .ok r)
    (follows : RunFollows s r) :
    ∃ much, DoneOrLimited (addRun s ri run) (storeRun s r) much ∧
      (maxPoints < (storeRun s r).total → much) ∧
      (much → maxPoints < (storeRun s r).total ∨ maxStoredPoints < (storeRun s r).flat.length) := by
  obtain ⟨points, items, typed, listed, read, length, ok⟩ := submittedRun_ok submitted
  have clean := snapTo_ne_nil (s.previous.map Prod.snd) ok
  have stored := @appendRun_length s.flat _ (densePoints_ne_nil' r.kind.spray clean)
  have snapped := @snap_near ri _ _ follows.near
  simp only [addRun, typed, listed, read, snapped, bind, Except.bind]
  rw [refuseIf, if_neg follows.other]
  simp only [pure, Except.pure]
  by_cases many : maxPoints < s.total + items.length
  · rw [← length] at many
    refine ⟨True, .inr ⟨"mission exceeds 50000 points", ?_, trivial⟩, fun _ => trivial, fun _ => .inl many⟩
    rw [length] at many
    rw [refuseIf, if_pos many]
    rfl
  · rw [refuseIf, if_neg many]
    simp only [pure, Except.pure]
    rw [← length] at many
    obtain ⟨much, densified, exceeds⟩ :=
      densify_limits r.kind.spray (maxStoredPoints - s.flat.length + if s.flat = [] then 0 else 1) clean
    refine ⟨much, ?_, fun more => absurd more many, fun here => .inr ?_⟩
    · rcases densified with ⟨done, fits⟩ | ⟨reason, refused, here⟩
      · rw [done]
        refine .inl ⟨?_, fits⟩
        rw [storeRun, length]
      · rw [refused]
        exact .inr ⟨reason, rfl, here⟩
    · have more := exceeds here
      simp only [storeRun]
      by_cases first : s.flat = []
      · rw [if_pos first] at more stored
        omega
      · rw [if_neg first] at more stored
        omega

/-- An accepted run follows, and is stored as it is. -/
theorem addRun_follows {s s' : Compiled} {ri : ℕ} {run : Json} (added : addRun s ri run = .ok s') :
    ∃ r, submittedRun ri run = .ok r ∧ RunFollows s r ∧ s' = storeRun s r := by
  obtain ⟨r, submitted, _, other, _⟩ := addRun_ok added
  obtain ⟨points, items, typed, listed, read, length, _⟩ := submittedRun_ok submitted
  have near : gapTo (s.previous.map Prod.snd) r.points ≤ boundarySnap := by
    obtain ⟨⟨kind, points'⟩, typed', later⟩ := bind_ok added
    obtain ⟨_, _, later⟩ := bind_ok later
    obtain ⟨items', listed', later⟩ := bind_ok later
    obtain ⟨_, _, later⟩ := bind_ok later
    obtain ⟨points'', read', later⟩ := bind_ok later
    obtain ⟨⟨clean, gap⟩, snapped, _⟩ := bind_ok later
    cases typed.symm.trans typed'
    cases listed.symm.trans listed'
    cases read.symm.trans read'
    exact snap_ok_near snapped
  obtain ⟨_, ⟨done, _⟩ | ⟨_, refused, _⟩, _⟩ := addRun_limits submitted ⟨other, near⟩
  · cases added.symm.trans done
    exact ⟨r, submitted, ⟨other, near⟩, rfl⟩
  · cases added.symm.trans refused

/-! ### All runs -/

theorem submittedRuns_cons_ok {ri : ℕ} {run : Json} {rest : List Json} {plan : List PlanRun}
    (submitted : submittedRuns ri (run :: rest) = .ok plan) :
    ∃ r later, submittedRun ri run = .ok r ∧ submittedRuns (ri + 1) rest = .ok later ∧ plan = r :: later := by
  obtain ⟨r, first, submitted⟩ := bind_ok submitted
  obtain ⟨later, others, submitted⟩ := bind_ok submitted
  cases submitted
  exact ⟨r, later, first, others, rfl⟩

theorem submittedRuns_Ok {ri : ℕ} {runs : List Json} {plan : List PlanRun} (submitted : submittedRuns ri runs = .ok plan) :
    ∀ r ∈ plan, r.Ok := by
  induction runs generalizing ri plan with
  | nil =>
    cases submitted
    simp
  | cons run runs ih =>
    obtain ⟨r, later, first, others, rfl⟩ := submittedRuns_cons_ok submitted
    obtain ⟨_, _, _, _, _, _, ok⟩ := submittedRun_ok first
    exact List.forall_mem_cons.mpr ⟨ok, ih others⟩

theorem storePlan_total (s : Compiled) (plan : List PlanRun) :
    (storePlan s plan).total = s.total + (plan.map fun r => r.points.length).sum := by
  induction plan generalizing s with
  | nil => rfl
  | cons r plan ih =>
    rw [storePlan, List.foldl_cons, ← storePlan, ih, storeRun, List.map_cons, List.sum_cons, Nat.add_assoc]

theorem storePlan_flat (s : Compiled) (plan : List PlanRun) :
    (storePlan s plan).flat = joinRuns s.flat (storedRuns (s.previous.map Prod.snd) plan) := by
  induction plan generalizing s with
  | nil => rfl
  | cons r plan ih =>
    have stop : (storeRun s r).previous.map Prod.snd = (snapTo (s.previous.map Prod.snd) r.points).getLast? := by
      rw [storeRun, Option.map_map]
      exact Option.map_id'
    rw [storePlan, List.foldl_cons, ← storePlan, ih, stop, storedRuns, joinRuns, joinRuns, List.foldl_cons]
    rfl

/-- Too many points were submitted behind what is stored, or are stored in the end. -/
def Exceeds (s : Compiled) (plan : List PlanRun) : Prop :=
  maxPoints < (storePlan s plan).total ∨ maxStoredPoints < (storePlan s plan).flat.length

theorem addRuns_limits {s : Compiled} {ri : ℕ} {runs : List Json} {plan : List PlanRun}
    (submitted : submittedRuns ri runs = .ok plan) (follow : FollowOn s plan) :
    (addRuns s ri runs = .ok (storePlan s plan) ∧ ((storePlan s plan).total ≤ maxPoints ∨ plan = [])) ∨
      ∃ reason, addRuns s ri runs = .error ⟨.pointsLimitExceeded, reason⟩ ∧ Exceeds s plan := by
  induction runs generalizing s ri plan with
  | nil =>
    cases submitted
    exact .inl ⟨rfl, .inr rfl⟩
  | cons run runs ih =>
    obtain ⟨r, later, first, others, rfl⟩ := submittedRuns_cons_ok submitted
    have grows := storePlan_grows (storeRun s r) (submittedRuns_Ok others)
    obtain ⟨much, one, many, exceeds⟩ := addRun_limits first follow.1
    rw [addRuns, storePlan, List.foldl_cons, ← storePlan]
    rcases one with ⟨done, fits⟩ | ⟨reason, refused, here⟩
    · rw [done]
      rcases ih others follow.2 with ⟨stored, within⟩ | ⟨reason, refused, over'⟩
      · refine .inl ⟨stored, .inl ?_⟩
        rcases within with within | rfl
        · exact within
        · exact not_lt.mp (mt many fits)
      · exact .inr ⟨reason, refused, over'⟩
    · rw [refused]
      refine .inr ⟨reason, rfl, ?_⟩
      rcases exceeds here with more | more
      · exact .inl (more.trans_le grows.2)
      · exact .inr (more.trans_le grows.1)

theorem addRuns_follow {s s' : Compiled} {ri : ℕ} {runs : List Json} (added : addRuns s ri runs = .ok s') :
    ∃ plan, submittedRuns ri runs = .ok plan ∧ FollowOn s plan := by
  induction runs generalizing s ri with
  | nil => exact ⟨[], rfl, trivial⟩
  | cons run runs ih =>
    obtain ⟨s₁, first, added⟩ := bind_ok added
    obtain ⟨r, submitted, follows, rfl⟩ := addRun_follows first
    obtain ⟨later, others, follow⟩ := ih added
    refine ⟨r :: later, ?_, follows, follow⟩
    simp only [submittedRuns, submitted, others, bind, Except.bind, pure, Except.pure]

/-! ### The whole plan -/

/-- The checks of the header, of each run by itself and of the places where two runs meet. -/
structure Checked (body : Json) (runs : List Json) (artifact : Compiled → Artifact) (plan : List PlanRun) : Prop where
  header : planHeader body = .ok (runs, artifact)
  submitted : submittedRuns 0 runs = .ok plan
  follow : FollowOn {} plan

/-- More points than the limits allow, as they were submitted or as they are stored. -/
def TooMany (plan : List PlanRun) : Prop :=
  maxPoints < (plan.map fun r => r.points.length).sum ∨ maxStoredPoints < (joinRuns [] (storedRuns none plan)).length

theorem exceeds_start (plan : List PlanRun) : Exceeds {} plan ↔ TooMany plan := by
  rw [Exceeds, TooMany, storePlan_total, storePlan_flat, Nat.zero_add]
  rfl

theorem Checked.compiled {body : Json} {runs : List Json} {artifact : Compiled → Artifact} {plan : List PlanRun}
    (checked : Checked body runs artifact plan) :
    (compilePlan body = .ok (artifact (storePlan {} plan)) ∧ ¬TooMany plan) ∨
      ∃ reason, compilePlan body = .error ⟨.pointsLimitExceeded, reason⟩ ∧ TooMany plan := by
  rw [compilePlan_eq, checked.header, ← exceeds_start]
  rcases addRuns_limits checked.submitted checked.follow with ⟨added, small⟩ | ⟨reason, refused, much⟩
  · have points : ¬ maxPoints < (storePlan {} plan).total := by
      rcases small with small | rfl
      · exact not_lt.mpr small
      · exact Nat.not_lt_zero _
    simp only [bind, Except.bind, added]
    by_cases much : maxStoredPoints < (storePlan {} plan).flat.length
    · refine .inr ⟨"densifying long steps exceeds 200000 stored points", ?_, .inr much⟩
      rw [refuseIf, if_pos much]
      rfl
    · refine .inl ⟨?_, fun exceeds => exceeds.elim points much⟩
      rw [refuseIf, if_neg much]
      rfl
  · refine .inr ⟨reason, ?_, much⟩
    simp only [bind, Except.bind, refused]

/-- `compile_plan` accepts a plan exactly when it passes all checks but those of the two limits, and stays within these. -/
theorem compilePlan_accepts (body : Json) :
    (∀ art, compilePlan body = .ok art ↔ ∃ runs artifact plan, Checked body runs artifact plan ∧ ¬TooMany plan ∧
      art = artifact (storePlan {} plan)) ∧
    ∀ runs artifact plan, Checked body runs artifact plan →
      ((∃ reason, compilePlan body = .error ⟨.pointsLimitExceeded, reason⟩) ↔ TooMany plan) := by
  refine ⟨fun art => ⟨fun accepted => ?_, ?_⟩, fun runs artifact plan checked => ?_⟩
  · have whole := accepted
    rw [compilePlan_eq] at accepted
    obtain ⟨⟨runs, artifact⟩, header, accepted⟩ := bind_ok accepted
    obtain ⟨s, added, _⟩ := bind_ok accepted
    obtain ⟨plan, submitted, follow⟩ := addRuns_follow added
    have checked : Checked body runs artifact plan := ⟨header, submitted, follow⟩
    rcases checked.compiled with ⟨done, small⟩ | ⟨reason, refused, _⟩
    · exact ⟨runs, artifact, plan, checked, small, Except.ok.inj (whole.symm.trans done)⟩
    · cases whole.symm.trans refused
  · rintro ⟨runs, artifact, plan, checked, small, rfl⟩
    rcases checked.compiled with ⟨done, _⟩ | ⟨_, _, much⟩
    · exact done
    · exact absurd much small
  · rcases checked.compiled with ⟨done, small⟩ | ⟨reason, refused, much⟩
    · refine ⟨fun ⟨reason, refused⟩ => ?_, fun much => absurd much small⟩
      cases done.symm.trans refused
    · exact ⟨fun _ => much, fun _ => ⟨reason, refused⟩⟩

end

end Dyx3.Backend
