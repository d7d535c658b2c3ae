import Dyx3.Mission.JournalRecords

/-!
A stretch of the path that the rover misses: the journal looks at the active vertex and at the next one, so that it gets
past one missed vertex but not past two in a row.
-/

namespace Dyx3.Mission

open Lib

namespace PointJournal

variable (hypot : Flt → Flt → Flt)

/-- The journal after the positions, with what they resolve. -/
def drive (j : PointJournal) : List Vertex → PointJournal × List PointEvent
  | [] => (j, [])
  | p :: ps =>
    let (k, out) := j.update hypot p.n p.e
    let (l, more) := drive k ps
    (l, out ++ more)

/-- The index and the outcome of every result of a trajectory that ends with `finish`. -/
def results (j : PointJournal) (ps : List Vertex) : List (ℕ × PointOutcome) :=
  ((j.drive hypot ps).2 ++ (j.drive hypot ps).1.finish.2).map fun ev => (ev.pointIndex, ev.outcome)

def Outside (radius : Flt) (v p : Vertex) : Prop := radius < distance hypot v p

def Known (p : Vertex) : Prop := p.n.isFinite = true ∧ p.e.isFinite = true

instance : DecidablePred Known := fun _ => inferInstanceAs (Decidable (_ ∧ _))

/-- The trajectory enters and leaves the radius of each vertex in order, and keeps out of the ones it has not got to. -/
inductive Visits (radius : Flt) : List Vertex → List Vertex → Prop
  | done (ps : List Vertex) : Visits radius [] ps
  | visit {v p : Vertex} {vs away inside ps : List Vertex} (before : ∀ q ∈ away, ∀ w ∈ v :: vs, Outside hypot radius w q)
      (some : inside ≠ []) (near : ∀ q ∈ inside, Within hypot radius v q) (leaves : Outside hypot radius v p)
      (rest : Visits radius vs (p :: ps)) : Visits radius (v :: vs) (away ++ inside ++ p :: ps)

variable {hypot} {j : PointJournal} {p : Vertex}

theorem Outside.not_within {radius : Flt} {v : Vertex} (outside : Outside hypot radius v p) : ¬Within hypot radius v p :=
  fun within => Flt.lt_irrefl radius (Flt.lt_of_lt_of_le outside within)

/-- The vertices that are not resolved; none of them is being captured. -/
structure Awaits (j : PointJournal) (vs : List Vertex) : Prop where
  idle : j.capturing = false
  rest : j.vertices.drop j.next = vs

theorem Awaits.head {v : Vertex} {vs : List Vertex} (awaits : Awaits j (v :: vs)) :
    j.vertices[j.next]? = some v ∧ j.vertices.drop (j.next + 1) = vs ∧ j.vertices.length - j.next = vs.length + 1 := by
  have rest := awaits.rest
  refine ⟨?_, ?_, ?_⟩
  · rw [← List.head?_drop, rest]
    rfl
  · rw [← List.tail_drop, rest]
    rfl
  · rw [← List.length_drop, rest]
    rfl

theorem update_finite (finite : Known p) :
    j.update hypot p.n p.e = updateLoop hypot p.n p.e (j.vertices.length - j.next) j :=
  if_neg (by simp [finite.1, finite.2])

/-- Outside of the active vertex and of the next one nothing is resolved. -/
theorem update_outside {vs : List Vertex} (awaits : Awaits j vs) (finite : Known p)
    (outside : ∀ v ∈ vs.take 2, Outside hypot j.radius v p) : j.update hypot p.n p.e = (j, []) := by
  rw [update_finite finite]
  cases vs with
  | nil =>
    have none : j.vertices[j.next]? = none := by
      rw [← List.head?_drop, awaits.rest]
      rfl
    cases j.vertices.length - j.next with
    | zero => rfl
    | succ fuel => rw [updateLoop, none]
  | cons v vs =>
    obtain ⟨active, rest, size⟩ := awaits.head
    have far : ¬Within hypot j.radius v p := (outside v (by simp)).not_within
    have kept : ¬((j.vertices[j.next + 1]?).any fun w =>
        decide (hypot (p.n - w.n) (p.e - w.e) ≤ j.radius) && decide (j.radius < hypot (p.n - v.n) (p.e - v.e))) = true := by
      rw [← List.head?_drop, rest]
      cases vs with
      | nil => simp
      | cons w vs =>
        have second : ¬Within hypot j.radius w p := (outside w (by simp)).not_within
        simp only [List.head?_cons, Option.any_some, Bool.and_eq_true, decide_eq_true_iff]
        exact fun missed => second missed.1
    rw [size, updateLoop, active]
    simp only [awaits.idle, Bool.false_eq_true, if_false, if_neg kept]
    exact if_neg far

/-- The next vertex is reached first. -/
theorem update_bypass {a v : Vertex} {vs : List Vertex} (awaits : Awaits j (a :: v :: vs)) (finite : Known p)
    (missed : Outside hypot j.radius a p) (near : Within hypot j.radius v p) :
    j.update hypot p.n p.e = (({ j with next := j.next + 1 } : PointJournal).update hypot p.n p.e).map id (failOne j.next a :: ·) := by
  obtain ⟨active, rest, size⟩ := awaits.head
  have bypassed : ((j.vertices[j.next + 1]?).any fun w =>
      decide (hypot (p.n - w.n) (p.e - w.e) ≤ j.radius) && decide (j.radius < hypot (p.n - a.n) (p.e - a.e))) = true := by
    rw [← List.head?_drop, rest]
    simp only [List.head?_cons, Option.any_some, Bool.and_eq_true, decide_eq_true_iff]
    exact ⟨near, missed⟩
  have fuel : j.vertices.length - (j.next + 1) = (v :: vs).length := by rw [← rest, List.length_drop]
  rw [update_finite finite, update_finite finite, size, updateLoop, active]
  simp only [awaits.idle, Bool.false_eq_true, if_false, if_pos bypassed, fuel]
  rfl

/-- The active vertex is being captured. -/
structure Captures (start : PointJournal) (v : Vertex) (vs : List Vertex) (j : PointJournal) : Prop where
  capturing : j.capturing = true
  rest : j.vertices.drop j.next = v :: vs
  next : j.next = start.next
  radius : j.radius = start.radius

theorem Captures.head {start : PointJournal} {v : Vertex} {vs : List Vertex} (captures : Captures start v vs j) :
    j.vertices[j.next]? = some v ∧ j.vertices.drop (j.next + 1) = vs ∧ j.vertices.length - j.next = vs.length + 1 := by
  have rest := captures.rest
  refine ⟨?_, ?_, ?_⟩
  · rw [← List.head?_drop, rest]
    rfl
  · rw [← List.tail_drop, rest]
    rfl
  · rw [← List.length_drop, rest]
    rfl

theorem update_enter {v : Vertex} {vs : List Vertex} (awaits : Awaits j (v :: vs)) (finite : Known p) (near : Within hypot j.radius v p) :
    ∃ k, j.update hypot p.n p.e = (k, []) ∧ Captures j v vs k := by
  obtain ⟨active, -, size⟩ := awaits.head
  have kept : ¬((j.vertices[j.next + 1]?).any fun w =>
      decide (hypot (p.n - w.n) (p.e - w.e) ≤ j.radius) && decide (j.radius < hypot (p.n - v.n) (p.e - v.e))) = true := by
    intro bypassed
    obtain ⟨w, -, missed⟩ := (Option.any_eq_true _ _).mp bypassed
    rw [Bool.and_eq_true, decide_eq_true_iff, decide_eq_true_iff] at missed
    exact Outside.not_within missed.2 near
  rw [update_finite finite, size, updateLoop, active]
  simp only [awaits.idle, Bool.false_eq_true, if_false, if_neg kept]
  exact ⟨_, if_pos near, rfl, awaits.rest, rfl, rfl⟩

theorem update_inside {start : PointJournal} {v : Vertex} {vs : List Vertex} (captures : Captures start v vs j) (finite : Known p)
    (near : Within hypot j.radius v p) : ∃ k, j.update hypot p.n p.e = (k, []) ∧ Captures start v vs k := by
  obtain ⟨active, -, size⟩ := captures.head
  rw [update_finite finite, size, updateLoop, active]
  simp only [captures.capturing, if_true]
  refine ⟨_, if_pos near, ?_⟩
  split
  · exact ⟨captures.capturing, captures.rest, captures.next, captures.radius⟩
  · exact captures

theorem update_leave {start : PointJournal} {v : Vertex} {vs : List Vertex} (captures : Captures start v vs j) (finite : Known p)
    (leaves : Outside hypot j.radius v p) :
    j.update hypot p.n p.e = (j.completeCurrent.1.update hypot p.n p.e).map id (j.completeCurrent.2 :: ·) ∧
      Awaits j.completeCurrent.1 vs := by
  obtain ⟨active, rest, size⟩ := captures.head
  have fuel : j.completeCurrent.1.vertices.length - j.completeCurrent.1.next = vs.length := by
    rw [← rest, List.length_drop]
    rfl
  refine ⟨?_, rfl, rest⟩
  rw [update_finite finite, update_finite finite, size, updateLoop, active, fuel]
  simp only [captures.capturing, if_true]
  exact if_neg leaves.not_within

/-! ### Results over a trajectory -/

theorem drive_append (ps qs : List Vertex) :
    j.drive hypot (ps ++ qs) = ((j.drive hypot ps).1.drive hypot qs).map id ((j.drive hypot ps).2 ++ ·) := by
  induction ps generalizing j with
  | nil => rfl
  | cons p ps ih =>
    simp only [List.cons_append, drive, ih, Prod.map, List.append_assoc, id]

theorem results_append {k : PointJournal} {ps qs : List Vertex} (still : j.drive hypot ps = (k, [])) :
    results hypot j (ps ++ qs) = results hypot k qs := by
  rw [results, results, drive_append, still]
  rfl

/-- The result of a round before the rounds that the same position goes on with. -/
theorem results_resolved {k : PointJournal} {ev : PointEvent} {ps : List Vertex}
    (resolved : j.update hypot p.n p.e = (k.update hypot p.n p.e).map id (ev :: ·)) :
    results hypot j (p :: ps) = (ev.pointIndex, ev.outcome) :: results hypot k (p :: ps) := by
  simp only [results, drive, resolved, Prod.map, id, List.cons_append, List.map_cons]

theorem drive_outside {vs ps : List Vertex} (awaits : Awaits j vs) (finite : ∀ p ∈ ps, Known p)
    (outside : ∀ p ∈ ps, ∀ v ∈ vs.take 2, Outside hypot j.radius v p) : j.drive hypot ps = (j, []) := by
  induction ps with
  | nil => rfl
  | cons p ps ih =>
    obtain ⟨known, others⟩ := List.forall_mem_cons.mp finite
    obtain ⟨here, later⟩ := List.forall_mem_cons.mp outside
    rw [drive, update_outside awaits known here]
    simp only [ih others later, List.append_nil]

theorem drive_inside {start : PointJournal} {v : Vertex} {vs ps : List Vertex} (captures : Captures start v vs j) (finite : ∀ p ∈ ps, Known p)
    (near : ∀ p ∈ ps, Within hypot start.radius v p) : ∃ k, j.drive hypot ps = (k, []) ∧ Captures start v vs k := by
  induction ps generalizing j with
  | nil => exact ⟨j, rfl, captures⟩
  | cons p ps ih =>
    obtain ⟨known, others⟩ := List.forall_mem_cons.mp finite
    obtain ⟨here, later⟩ := List.forall_mem_cons.mp near
    obtain ⟨k, moved, still⟩ := update_inside captures known (captures.radius ▸ here)
    obtain ⟨l, driven, end'⟩ := ih still others later
    exact ⟨l, by rw [drive, moved]; simp only [driven, List.append_nil], end'⟩

/-- Every vertex that the trajectory visits is completed. -/
theorem results_visits {vs ps : List Vertex} (awaits : Awaits j vs) (finite : ∀ p ∈ ps, Known p) (visits : Visits hypot j.radius vs ps) :
    results hypot j ps = (List.range' j.next vs.length).map fun i => (i, PointOutcome.completed) := by
  generalize radius : j.radius = r at visits
  induction visits generalizing j with
  | done ps =>
    have still : j.drive hypot ps = (j, []) := drive_outside awaits finite (by simp)
    have finished : j.finish.2 = [] := by
      have count := congrArg List.length (finish_indices j)
      rw [← List.length_drop, awaits.rest] at count
      exact List.eq_nil_of_length_eq_zero (by simpa using count)
    rw [results, still, finished]
    rfl
  | @visit v p vs away inside ps before some near leaves rest ih =>
    subst radius
    obtain ⟨q, inside, rfl⟩ := List.exists_cons_of_ne_nil some
    have still : j.drive hypot away = (j, []) :=
      drive_outside awaits (fun x member => finite x (by simp [member])) fun x member w one => before x member w (List.mem_of_mem_take one)
    obtain ⟨first, others⟩ := List.forall_mem_cons.mp near
    obtain ⟨k, entered, captures⟩ := update_enter awaits (finite q (by simp)) first
    obtain ⟨l, stayed, captured⟩ := drive_inside captures (fun x member => finite x (by simp [member])) others
    have left : Outside hypot l.radius v p := captured.radius ▸ leaves
    obtain ⟨resolved, free⟩ := update_leave captured (finite p (by simp)) left
    have driven : j.drive hypot (q :: inside) = (l, []) := by
      rw [drive, entered]
      simp only [stayed, List.append_nil]
    have later := ih free (fun x member => finite x (List.mem_append_right _ member)) captured.radius
    rw [List.append_assoc, results_append still, results_append driven, results_resolved resolved, later]
    rw [show l.completeCurrent.1.next = j.next + 1 from congrArg (· + 1) captured.next, List.length_cons, List.range'_succ, List.map_cons]
    rw [show l.completeCurrent.2.pointIndex = j.next from captured.next]
    rfl

/-- Positions that are not known resolve nothing. -/
theorem drive_known (ps : List Vertex) : j.drive hypot ps = j.drive hypot (ps.filter fun p => Known p) := by
  induction ps generalizing j with
  | nil => rfl
  | cons p ps ih =>
    by_cases known : Known p
    · rw [List.filter_cons_of_pos (by simpa using known)]
      simp only [drive, ← ih]
    · have ignored : j.update hypot p.n p.e = (j, []) := by
        apply if_pos
        rw [Known, not_and_or] at known
        simpa using known
      rw [List.filter_cons_of_neg (by simpa using known), drive, ignored, ← ih]
      simp only [List.nil_append]

theorem results_known (ps : List Vertex) : results hypot j ps = results hypot j (ps.filter fun p => Known p) := by
  rw [results, results, drive_known]

/-- The sweep at the end fails every vertex when none is being captured. -/
theorem finish_failed {vs : List Vertex} (awaits : Awaits j vs) :
    j.finish.2.map (fun ev => (ev.pointIndex, ev.outcome)) = (List.range' j.next vs.length).map fun i => (i, PointOutcome.failed) := by
  have failed : ∀ ev ∈ j.finish.2, ev.outcome = .failed := by
    intro ev member
    unfold finish at member
    rw [if_neg (by simp [awaits.idle])] at member
    obtain ⟨⟨v, i⟩, -, rfl⟩ := List.mem_map.mp member
    rfl
  have paired : j.finish.2.map (fun ev => (ev.pointIndex, ev.outcome)) =
      (j.finish.2.map (·.pointIndex)).map fun i => (i, PointOutcome.failed) := by
    rw [List.map_map]
    exact List.map_congr_left fun ev member => Prod.ext rfl (failed ev member)
  rw [paired, finish_indices, ← List.length_drop, awaits.rest]

/-- What the journal should report of missed vertices and of the ones after them. -/
def report (first missed later : ℕ) : List (ℕ × PointOutcome) :=
  (List.range' first missed).map (fun i => (i, .failed)) ++ (List.range' (first + missed) later).map fun i => (i, .completed)

/-- Past one missed vertex the journal goes on. -/
theorem results_one {a : Vertex} {later ps : List Vertex} (awaits : Awaits j (a :: later)) (finite : ∀ p ∈ ps, Known p)
    (away : ∀ p ∈ ps, Outside hypot j.radius a p) (visits : Visits hypot j.radius later ps) (more : later ≠ []) :
    results hypot j ps = report j.next 1 later.length := by
  cases visits with
  | done => exact absurd rfl more
  | @visit v p vs before inside ps out some near leaves rest =>
    obtain ⟨q, inside, rfl⟩ := List.exists_cons_of_ne_nil some
    have still : j.drive hypot before = (j, []) := by
      apply drive_outside awaits (fun x member => finite x (by simp [member]))
      intro x member w one
      rw [List.take_succ_cons, List.mem_cons] at one
      obtain rfl | one := one
      · exact away x (by simp [member])
      · exact out x member w (List.mem_of_mem_take one)
    have near_q : Within hypot j.radius v q := near q (by simp)
    have known : ∀ x ∈ q :: inside ++ p :: ps, Known x := fun x member => finite x (by rw [List.append_assoc]; exact List.mem_append_right _ member)
    have bypassed := update_bypass awaits (finite q (by simp)) (away q (by simp)) near_q
    have free : Awaits ({ j with next := j.next + 1 } : PointJournal) (v :: vs) := ⟨awaits.idle, awaits.head.2.1⟩
    have visits : Visits hypot j.radius (v :: vs) ([] ++ (q :: inside) ++ p :: ps) := .visit (by simp) some near leaves rest
    have completed := results_visits free known visits
    rw [List.append_assoc, results_append still, List.cons_append, results_resolved bypassed, ← List.cons_append, completed]
    rfl

/-- Two missed vertices in a row, or no vertex after them: the journal stays where it is and the sweep fails all of them. -/
theorem results_stuck {missed later ps : List Vertex} (awaits : Awaits j (missed ++ later)) (finite : ∀ p ∈ ps, Known p)
    (away : ∀ p ∈ ps, ∀ v ∈ missed, Outside hypot j.radius v p) (stuck : 2 ≤ missed.length ∨ later = []) :
    results hypot j ps = (List.range' j.next (missed ++ later).length).map fun i => (i, PointOutcome.failed) := by
  have looked : ∀ v ∈ (missed ++ later).take 2, v ∈ missed := by
    intro v member
    obtain long | rfl := stuck
    · rw [List.take_append_of_le_length long] at member
      exact List.mem_of_mem_take member
    · rw [List.append_nil] at member
      exact List.mem_of_mem_take member
  have still := drive_outside awaits finite fun p member v one => away p member v (looked v one)
  rw [results, still]
  exact finish_failed awaits

/-- The journal reports the missed vertices as failed and every later one as completed exactly when it misses at most one,
or has none left to visit. -/
theorem journal_misses {missed later ps : List Vertex} (idle : j.capturing = false) (rest : j.vertices.drop j.next = missed ++ later)
    (away : ∀ p ∈ ps, Known p → ∀ v ∈ missed, Outside hypot j.radius v p)
    (visits : Visits hypot j.radius later (ps.filter fun p => Known p)) :
    results hypot j ps = report j.next missed.length later.length ↔ missed.length ≤ 1 ∨ later = [] := by
  have awaits : Awaits j (missed ++ later) := ⟨idle, rest⟩
  have finite : ∀ p ∈ ps.filter fun p => Known p, Known p := fun p member => of_decide_eq_true (List.mem_filter.mp member).2
  have away : ∀ p ∈ ps.filter fun p => Known p, ∀ v ∈ missed, Outside hypot j.radius v p :=
    fun p member => away p (List.mem_filter.mp member).1 (finite p member)
  rw [results_known]
  by_cases few : later = []
  · subst few
    rw [results_stuck awaits finite away (Or.inr rfl)]
    simp [report]
  · match missed, awaits, away with
    | [], awaits, _ =>
      rw [results_visits awaits finite visits]
      simp [report]
    | [a], awaits, away =>
      rw [results_one awaits finite (fun p member => away p member a (by simp)) visits few]
      simp
    | a :: b :: missed, awaits, away =>
      rw [results_stuck awaits finite away (Or.inl (by simp))]
      refine iff_of_false (fun same => ?_) (by simp [few])
      obtain ⟨v, vs, rfl⟩ := List.exists_cons_of_ne_nil few
      have completed : (j.next + (a :: b :: missed).length, PointOutcome.completed) ∈
          report j.next (a :: b :: missed).length (v :: vs).length := by simp [report]
      rw [← same] at completed
      obtain ⟨i, -, other⟩ := List.mem_map.mp completed
      cases other

def inRow : PointJournal :=
  ⟨[⟨.fin 0, .fin 0⟩, ⟨.fin 10, .fin 0⟩, ⟨.fin 20, .fin 0⟩], .fin (1 / 10), 0, false, .fin 0, .fin 0, .fin 0⟩

def twoInRow : PointJournal := { inRow with vertices := [⟨.fin 0, .fin 0⟩, ⟨.fin 20, .fin 0⟩] }

/-- Up to the vertex at 20 and back. -/
def lastVertex : List Vertex := [⟨.fin 20, .fin 5⟩, ⟨.fin 20, .fin 0⟩, ⟨.fin 20, .fin 5⟩]

theorem lastVertex_visits : Visits Flt.hypot (.fin (1 / 10)) [⟨.fin 20, .fin 0⟩] lastVertex :=
  @Visits.visit Flt.hypot (.fin (1 / 10)) ⟨.fin 20, .fin 0⟩ ⟨.fin 20, .fin 5⟩ [] [⟨.fin 20, .fin 5⟩] [⟨.fin 20, .fin 0⟩] []
    (by unfold Outside; decide +kernel) (by simp) (by unfold Within; decide +kernel) (by unfold Outside; decide +kernel) (.done _)

/-- The first of two vertices is missed. -/
theorem journal_misses_first :
    results Flt.hypot twoInRow lastVertex = report 0 1 1 ↔ 1 ≤ 1 ∨ [(⟨.fin 20, .fin 0⟩ : Vertex)] = [] := by
  have known : lastVertex.filter (fun p => Known p) = lastVertex := by decide +kernel
  have away : ∀ p ∈ lastVertex, Known p → ∀ v ∈ [(⟨.fin 0, .fin 0⟩ : Vertex)], Outside Flt.hypot twoInRow.radius v p := by
    unfold Outside
    decide +kernel
  exact @journal_misses Flt.hypot twoInRow [⟨.fin 0, .fin 0⟩] [⟨.fin 20, .fin 0⟩] lastVertex rfl rfl away
    (known.symm ▸ lastVertex_visits)

/-- The first two of three vertices are missed: the third is visited, and all three are failed. -/
theorem journal_misses_two :
    ¬ ∀ (j : PointJournal) (missed later ps : List Vertex), j.capturing = false → j.vertices.drop j.next = missed ++ later →
      (j.vertices.Pairwise fun v w => j.radius + j.radius < distance Flt.hypot v w) →
      (∀ p ∈ ps, ∀ v ∈ missed, Outside Flt.hypot j.radius v p) → Visits Flt.hypot j.radius later ps →
      results Flt.hypot j ps = report j.next missed.length later.length := by
  intro recovers
  have apart : inRow.vertices.Pairwise fun v w => inRow.radius + inRow.radius < distance Flt.hypot v w := by decide +kernel
  have away : ∀ p ∈ lastVertex, ∀ v ∈ [(⟨.fin 0, .fin 0⟩ : Vertex), ⟨.fin 10, .fin 0⟩], Outside Flt.hypot inRow.radius v p := by
    unfold Outside
    decide +kernel
  have same := recovers inRow [⟨.fin 0, .fin 0⟩, ⟨.fin 10, .fin 0⟩] [⟨.fin 20, .fin 0⟩] lastVertex rfl rfl apart away lastVertex_visits
  exact absurd same (by decide +kernel)

end PointJournal

end Dyx3.Mission
