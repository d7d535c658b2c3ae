import Dyx3.Lib.Run
import Dyx3.Lib.Scalar
import Dyx3.Mission.PointJournal

/-!
What the point journal records over a run: the results of the points in path order, and of each completed point the
closest approach between its capture and its resolution.
-/

namespace Dyx3.Mission

open Lib

namespace PointJournal

inductive Call where
  | update (north east : Flt)
  | skip

variable (hypot : Flt → Flt → Flt)

def step (j : PointJournal) : Call → PointJournal × List PointEvent
  | .update north east => j.update hypot north east
  | .skip => (j.skip.1, j.skip.2.toList)

abbrev Record := Entry Call (List PointEvent)

/-- The results in the order of the calls. -/
def emitted (h : List Record) : List PointEvent := h.reverse.flatMap Entry.out

/-- The finite positions since the active point became active, newest first; the position that resolved the point
before is one of them. -/
def spots : List Record → List Vertex
  | [] => []
  | ⟨.update north east, out⟩ :: h =>
    if !north.isFinite ∨ !east.isFinite then spots h
    else if out = [] then ⟨north, east⟩ :: spots h
    else [⟨north, east⟩]
  | ⟨.skip, out⟩ :: h => if out = [] then spots h else []

def distance (v p : Vertex) : Flt := hypot (p.n - v.n) (p.e - v.e)

def Within (radius : Flt) (v p : Vertex) : Prop := distance hypot v p ≤ radius

/-- Of the positions `since` a point is active the ones after its capture are all within the radius, and the result has
the first of those that are closest. -/
structure ClosestApproach (radius : Flt) (v : Vertex) (ev : PointEvent) (since : List Vertex) : Prop where
  split : ∃ inside outside, since = inside ++ outside ∧ (∀ p ∈ inside, Within hypot radius v p) ∧
    (∀ p ∈ outside, ¬Within hypot radius v p) ∧
    ∃ later p earlier, inside = later ++ p :: earlier ∧ ev.north = p.n ∧ ev.east = p.e ∧ ev.error = distance hypot v p ∧
      (∀ q ∈ earlier, ev.error < distance hypot v q) ∧ ∀ q ∈ later, ev.error ≤ distance hypot v q

variable {hypot}

theorem ClosestApproach.within {radius : Flt} {v : Vertex} {ev : PointEvent} {since : List Vertex}
    (closest : ClosestApproach hypot radius v ev since) : ev.error ≤ radius := by
  obtain ⟨inside, outside, -, near, -, later, p, earlier, rfl, -, -, error, -⟩ := closest.split
  rw [error]
  exact near p (by simp)

/-- The capture. -/
theorem ClosestApproach.first {radius : Flt} {v p : Vertex} {i : ℕ} {since : List Vertex} (near : Within hypot radius v p)
    (before : ∀ q ∈ since, ¬Within hypot radius v q) :
    ClosestApproach hypot radius v ⟨i, .completed, p.n, p.e, distance hypot v p⟩ (p :: since) :=
  ⟨[p], since, rfl, by simpa using near, before, [], p, [], rfl, rfl, rfl, rfl, by simp, by simp⟩

/-- One more position within the radius, closer than the closest before. -/
theorem ClosestApproach.closer {radius : Flt} {v p : Vertex} {ev : PointEvent} {since : List Vertex}
    (closest : ClosestApproach hypot radius v ev since) (near : Within hypot radius v p) (closer : distance hypot v p < ev.error) (i : ℕ) :
    ClosestApproach hypot radius v ⟨i, .completed, p.n, p.e, distance hypot v p⟩ (p :: since) := by
  obtain ⟨inside, outside, rfl, all, none, later, q, earlier, rfl, -, -, error, strict, least⟩ := closest.split
  refine ⟨p :: (later ++ q :: earlier), outside, rfl, List.forall_mem_cons.mpr ⟨near, all⟩, none, [], p, later ++ q :: earlier, rfl, rfl,
    rfl, rfl, fun x member => ?_, by simp⟩
  rcases List.mem_append.mp member with after | here
  · exact Flt.lt_of_lt_of_le closer (least x after)
  · rcases List.mem_cons.mp here with rfl | before
    · rwa [← error]
    · exact Flt.lt_of_lt_of_le closer (Flt.le_of_lt (strict x before))

/-- One that is not. -/
theorem ClosestApproach.keep {radius : Flt} {v p : Vertex} {ev : PointEvent} {since : List Vertex}
    (closest : ClosestApproach hypot radius v ev since) (near : Within hypot radius v p) (farther : ¬distance hypot v p < ev.error) :
    ClosestApproach hypot radius v ev (p :: since) := by
  have bound := closest.within
  obtain ⟨inside, outside, rfl, all, none, later, q, earlier, rfl, north, east, error, strict, least⟩ := closest.split
  refine ⟨p :: (later ++ q :: earlier), outside, rfl, List.forall_mem_cons.mpr ⟨near, all⟩, none, p :: later, q, earlier, rfl, north,
    east, error, strict, ?_⟩
  exact List.forall_mem_cons.mpr ⟨Flt.le_of_not_lt farther near bound, least⟩

variable (hypot)

/-- The journal knows what it needs of the positions `since` the active point became active. -/
structure Held (j : PointJournal) (since : List Vertex) : Prop where
  capture : j.capturing = true → ∃ v, j.vertices[j.next]? = some v ∧
    ClosestApproach hypot j.radius v ⟨j.next, .completed, j.minN, j.minE, j.minD⟩ since
  apart : j.capturing = false → ∀ v, j.vertices[j.next]? = some v → ∀ p ∈ since, ¬Within hypot j.radius v p

/-- What a position `p` resolves: the point being captured, which it leaves, or a point it is outside of but inside of
the next. -/
structure Explains (vertices : List Vertex) (radius : Flt) (since : List Vertex) (p : Vertex) (ev : PointEvent) : Prop where
  completed : ev.outcome = .completed → ∃ v, vertices[ev.pointIndex]? = some v ∧ ¬Within hypot radius v p ∧
    ClosestApproach hypot radius v ev since
  failed : ev.outcome = .failed → ∃ v w, vertices[ev.pointIndex]? = some v ∧ vertices[ev.pointIndex + 1]? = some w ∧
    radius < distance hypot v p ∧ Within hypot radius w p

variable {hypot}

/-- Nothing is completed by the position that made the point active. -/
theorem Explains.fresh {vertices : List Vertex} {radius : Flt} {p : Vertex} {ev : PointEvent}
    (explains : Explains hypot vertices radius [] p ev) (since : List Vertex) : Explains hypot vertices radius since p ev := by
  refine ⟨fun completed => ?_, explains.failed⟩
  obtain ⟨v, -, -, closest⟩ := explains.completed completed
  obtain ⟨inside, outside, none, -, -, later, q, earlier, rfl, -⟩ := closest.split
  simp at none

theorem Held.activated (j : PointJournal) (idle : j.capturing = false) : Held hypot j [] :=
  ⟨fun capturing => absurd (idle.symm.trans capturing) Bool.false_ne_true, fun _ _ _ _ member => absurd member List.not_mem_nil⟩

/-- A round that resolves a point, and what the rounds after it make of the same position. -/
theorem resolved_rounds {vertices : List Vertex} {radius : Flt} {since : List Vertex} {p : Vertex} {ev : PointEvent} {out : List PointEvent}
    (now : Explains hypot vertices radius since p ev) (after : ∀ ev ∈ out, Explains hypot vertices radius [] p ev) :
    ∀ ev' ∈ ev :: out, Explains hypot vertices radius since p ev' :=
  List.forall_mem_cons.mpr ⟨now, fun ev' member => (after ev' member).fresh since⟩

theorem updateLoop_held {north east : Flt} {fuel : ℕ} {j : PointJournal} {since : List Vertex} (held : Held hypot j since)
    (enough : j.vertices.length - j.next ≤ fuel) :
    Held hypot (updateLoop hypot north east fuel j).1
      (if (updateLoop hypot north east fuel j).2 = [] then ⟨north, east⟩ :: since else [⟨north, east⟩]) ∧
    (updateLoop hypot north east fuel j).1.radius = j.radius ∧
    ∀ ev ∈ (updateLoop hypot north east fuel j).2, Explains hypot j.vertices j.radius since ⟨north, east⟩ ev := by
  induction fuel generalizing j since with
  | zero =>
    have done : j.vertices[j.next]? = none := List.getElem?_eq_none (by omega)
    refine ⟨⟨fun capturing => ?_, fun _ v there => ?_⟩, rfl, by simp [updateLoop]⟩
    · obtain ⟨v, there, -⟩ := held.capture capturing
      rw [done] at there
      cases there
    · rw [updateLoop, done] at there
      cases there
  | succ fuel ih =>
    -- the rounds after one that resolves a point
    have rest : ∀ k : PointJournal, k.vertices = j.vertices → k.radius = j.radius → k.next = j.next + 1 → k.capturing = false →
        Held hypot (updateLoop hypot north east fuel k).1 [⟨north, east⟩] ∧ (updateLoop hypot north east fuel k).1.radius = j.radius ∧
          ∀ ev ∈ (updateLoop hypot north east fuel k).2, Explains hypot j.vertices j.radius [] ⟨north, east⟩ ev := by
      intro k vertices radius next idle
      obtain ⟨later, kept, explained⟩ := ih (Held.activated k idle) (by rw [vertices, next]; omega)
      rw [ite_self] at later
      rw [vertices, radius] at explained
      exact ⟨later, kept.trans radius, explained⟩
    cases there : j.vertices[j.next]? with
    | none =>
      rw [updateLoop, there]
      refine ⟨⟨fun capturing => ?_, fun _ v found => ?_⟩, rfl, by simp⟩
      · obtain ⟨v, found, -⟩ := held.capture capturing
        rw [there] at found
        cases found
      · rw [there] at found
        cases found
    | some v =>
      rw [updateLoop, there]
      simp only
      split
      · rename_i capturing
        obtain ⟨u, found, closest⟩ := held.capture capturing
        obtain rfl : v = u := Option.some.inj (there.symm.trans found)
        split
        · rename_i near
          have near : Within hypot j.radius v ⟨north, east⟩ := near
          split
          · rename_i closer
            refine ⟨⟨fun _ => ⟨v, there, closest.closer near closer j.next⟩, fun idle => ?_⟩, rfl, by simp⟩
            exact absurd (idle.symm.trans capturing) Bool.false_ne_true
          · rename_i farther
            refine ⟨⟨fun _ => ⟨v, there, closest.keep near farther⟩, fun idle => ?_⟩, rfl, by simp⟩
            exact absurd (idle.symm.trans capturing) Bool.false_ne_true
        · rename_i far
          obtain ⟨later, kept, explained⟩ := rest j.completeCurrent.1 rfl rfl rfl rfl
          refine ⟨by simpa using later, kept, resolved_rounds ⟨fun _ => ⟨v, there, far, closest⟩, fun failed => ?_⟩ explained⟩
          cases failed
      · rename_i idle
        have idle : j.capturing = false := by simpa using idle
        split
        · rename_i bypassed
          obtain ⟨w, second, missed⟩ := (Option.any_eq_true _ _).mp bypassed
          rw [Bool.and_eq_true, decide_eq_true_iff, decide_eq_true_iff] at missed
          obtain ⟨later, kept, explained⟩ := rest { j with next := j.next + 1 } rfl rfl rfl idle
          refine ⟨by simpa using later, kept, resolved_rounds ⟨fun completed => ?_, fun _ => ?_⟩ explained⟩
          · cases completed
          · exact ⟨v, w, there, second, missed.2, missed.1⟩
        · split
          · rename_i near
            have near : Within hypot j.radius v ⟨north, east⟩ := near
            refine ⟨⟨fun _ => ⟨v, there, ?_⟩, fun capturing => ?_⟩, rfl, by simp⟩
            · exact .first near (held.apart idle v there)
            · cases capturing
          · rename_i far
            refine ⟨⟨fun capturing => ?_, fun _ u found => ?_⟩, rfl, by simp⟩
            · exact absurd (idle.symm.trans capturing) Bool.false_ne_true
            · obtain rfl : v = u := Option.some.inj (there.symm.trans found)
              exact List.forall_mem_cons.mpr ⟨far, held.apart idle v there⟩

variable (hypot) in
/-- What a call resolves is explained by its position and those before it. -/
def Explained (vertices : List Vertex) (radius : Flt) (e : Record) (older : List Record) : Prop :=
  ∀ ev ∈ e.out, ev.outcome = .completed ∨ ev.outcome = .failed → ∃ north east, e.event = .update north east ∧
    north.isFinite = true ∧ east.isFinite = true ∧ Explains hypot vertices radius (spots older) ⟨north, east⟩ ev

theorem skip_held {j : PointJournal} {since : List Vertex} (held : Held hypot j since) :
    Held hypot j.skip.1 (if j.skip.2.toList = [] then since else []) := by
  unfold skip
  split
  · exact held
  · exact .activated _ rfl

/-- Where a journal is after the calls of a history. -/
structure Recorded (hypot : Flt → Flt → Flt) (start : PointJournal) (h : List Record) (j : PointJournal) : Prop where
  vertices : j.vertices = start.vertices
  radius : j.radius = start.radius
  bound : j.next ≤ j.vertices.length
  order : (emitted h).map PointEvent.pointIndex = List.range' start.next (j.next - start.next)
  ahead : start.next ≤ j.next
  held : Held hypot j (spots h)
  explained : Everywhere (Explained hypot start.vertices start.radius) h

theorem emitted_cons (e : Record) (h : List Record) : emitted (e :: h) = emitted h ++ e.out := by
  simp [emitted]

theorem Recorded.resolve {start j j' : PointJournal} {h : List Record} {e : Record} (recorded : Recorded hypot start h j)
    (resolves : Resolves j j' e.out) (radius : j'.radius = j.radius) (held : Held hypot j' (spots (e :: h)))
    (explained : Explained hypot start.vertices start.radius e h) : Recorded hypot start (e :: h) j' where
  vertices := resolves.vertices.trans recorded.vertices
  radius := radius.trans recorded.radius
  bound := by
    rw [resolves.vertices]
    exact resolves.bound recorded.bound
  order := by
    have ahead := recorded.ahead
    rw [emitted_cons, List.map_append, recorded.order, resolves.indices, resolves.next]
    obtain ⟨d, next⟩ := Nat.exists_eq_add_of_le ahead
    rw [next, Nat.add_sub_cancel_left, List.range'_append_1]
    congr 1
    omega
  ahead := by
    rw [resolves.next]
    exact Nat.le_add_right_of_le recorded.ahead
  held := held
  explained := ⟨explained, recorded.explained⟩

theorem Recorded.step {start j : PointJournal} {h : List Record} (recorded : Recorded hypot start h j) (call : Call) :
    Recorded hypot start (⟨call, (step hypot j call).2⟩ :: h) (step hypot j call).1 := by
  cases call with
  | update north east =>
    have resolves := update_resolves hypot j north east
    by_cases lost : !north.isFinite ∨ !east.isFinite
    · have nothing : j.update hypot north east = (j, []) := if_pos lost
      rw [PointJournal.step, nothing]
      refine recorded.resolve (.none rfl rfl) rfl ?_ (by simp [Explained])
      rw [spots, if_pos lost]
      exact recorded.held
    · have loop : j.update hypot north east = updateLoop hypot north east (j.vertices.length - j.next) j := if_neg lost
      obtain ⟨held, radius, explains⟩ := @updateLoop_held hypot north east _ j _ recorded.held le_rfl
      rw [← loop] at held radius explains
      rw [recorded.vertices, recorded.radius] at explains
      refine recorded.resolve resolves radius ?_ fun ev member _ => ?_
      · rw [spots, if_neg lost]
        exact held
      · exact ⟨north, east, rfl, by simpa using (not_or.mp lost).1, by simpa using (not_or.mp lost).2, explains ev member⟩
  | skip =>
    refine recorded.resolve (skip_resolves j) ?_ (skip_held recorded.held) fun ev member outcome => ?_
    · unfold PointJournal.step skip
      dsimp only
      split <;> rfl
    · exfalso
      unfold PointJournal.step skip at member
      dsimp only at member
      split at member
      · exact absurd member List.not_mem_nil
      · obtain rfl := List.mem_singleton.mp member
        rcases outcome with completed | failed
        · cases completed
        · cases failed

theorem recorded_run {start j : PointJournal} {h : List Record} (run : Run (step hypot) start h j) (bound : start.next ≤ start.vertices.length)
    (idle : start.capturing = false) : Recorded hypot start h j := by
  apply run.invariant fun h j => Recorded hypot start h j
  · exact ⟨rfl, rfl, bound, by simp [emitted], le_rfl, .activated start idle, trivial⟩
  · exact fun h j call recorded _ => recorded.step call

/-- With `finish` every point from the first one on is resolved once, in order. -/
theorem Recorded.whole {start j : PointJournal} {h : List Record} (recorded : Recorded hypot start h j) :
    (emitted h ++ j.finish.2).map PointEvent.pointIndex = List.range' start.next (start.vertices.length - start.next) := by
  have bound := recorded.bound
  rw [recorded.vertices] at bound
  obtain ⟨d, next⟩ := Nat.exists_eq_add_of_le recorded.ahead
  rw [List.map_append, recorded.order, finish_indices, recorded.vertices, next, Nat.add_sub_cancel_left, List.range'_append_1]
  congr 1
  omega

theorem finish_closest {j : PointJournal} {since : List Vertex} (held : Held hypot j since) :
    ∀ ev ∈ j.finish.2, ev.outcome = .completed → ∃ v, j.vertices[ev.pointIndex]? = some v ∧ ClosestApproach hypot j.radius v ev since := by
  have swept : ∀ next, ∀ ev ∈ (j.vertices.zipIdx.drop next).map fun p => failOne p.2 p.1, ev.outcome ≠ .completed := by
    intro next ev member completed
    obtain ⟨v, -, rfl⟩ := List.mem_map.mp member
    cases completed
  unfold finish
  intro ev member completed
  split at member
  rename_i j' first opened
  split at opened
  · rename_i capture
    obtain ⟨rfl, rfl⟩ := Prod.mk.inj opened
    rcases List.mem_append.mp member with here | later
    · obtain ⟨v, there, closest⟩ := held.capture capture.1
      rw [List.mem_singleton.mp here]
      exact ⟨v, there, closest⟩
    · exact absurd completed (swept _ ev later)
  · obtain ⟨rfl, rfl⟩ := Prod.mk.inj opened
    exact absurd completed (swept _ ev member)

/-- More rounds than there are open points change nothing: the loop of `update` has ended. -/
theorem updateLoop_ends (north east : Flt) {j : PointJournal} {fuel : ℕ} (enough : j.vertices.length - j.next ≤ fuel) :
    updateLoop hypot north east fuel j = updateLoop hypot north east (j.vertices.length - j.next) j := by
  induction fuel, enough using Nat.le_induction with
  | base => rfl
  | succ fuel enough ih => rw [updateLoop_succ hypot north east enough, ih]

/-- Over every run of calls and a `finish`: `update` ends, the points from the restored one on are resolved once each and in
order, and the results are explained by the positions. -/
theorem journal_accounts {path : List ArtifactPoint} {radius : Flt} {made start : PointJournal} {k : ℕ}
    (built : make path radius = .ok made) (restored : made.restoreResolved k = some start) {h : List Record} {j : PointJournal}
    (run : Run (step hypot) start h j) :
    (∀ north east fuel, j.vertices.length - j.next ≤ fuel →
      updateLoop hypot north east fuel j = updateLoop hypot north east (j.vertices.length - j.next) j) ∧
    (emitted h ++ j.finish.2).map PointEvent.pointIndex = List.range' k ((path.filter ArtifactPoint.mustHit).length - k) ∧
    Everywhere (Explained hypot made.vertices radius) h ∧
    ∀ ev ∈ j.finish.2, ev.outcome = .completed →
      ∃ v, made.vertices[ev.pointIndex]? = some v ∧ ClosestApproach hypot radius v ev (spots h) := by
  unfold make at built
  split at built
  · cases built
  obtain rfl := Except.ok.inj built
  unfold restoreResolved at restored
  split at restored
  · cases restored
  rename_i fits
  obtain rfl := Option.some.inj restored
  have count : k ≤ ((path.filter ArtifactPoint.mustHit).map fun p => (⟨p.north, p.east⟩ : Vertex)).length := by
    simp only [not_or, not_lt] at fits
    exact fits.2.2
  have recorded := recorded_run run count rfl
  refine ⟨fun north east fuel enough => updateLoop_ends north east enough, ?_, recorded.explained, fun ev member completed => ?_⟩
  · have whole := recorded.whole
    rwa [List.length_map] at whole
  · obtain ⟨v, there, closest⟩ := finish_closest recorded.held ev member completed
    rw [recorded.vertices] at there
    rw [recorded.radius] at closest
    exact ⟨v, there, closest⟩

def twoPoints : List ArtifactPoint := [⟨.fin 0, .fin 0, 3⟩, ⟨.fin 5, .fin 0, 1⟩, ⟨.fin 10, .fin 0, 3⟩]

def twoVertices : PointJournal := ⟨[⟨.fin 0, .fin 0⟩, ⟨.fin 10, .fin 0⟩], .fin (1 / 10), 0, false, .fin 0, .fin 0, .fin 0⟩

/-- Through the first vertex and away; the second is skipped. -/
theorem journal_accounts_pass :
    (emitted (exec (step Flt.hypot) [] twoVertices [.update (.fin (-1 / 20)) (.fin 0), .update (.fin 0) (.fin 0), .update (.fin 1) (.fin 0),
        .update .nan (.fin 0), .skip]).1 ++
      (exec (step Flt.hypot) [] twoVertices [.update (.fin (-1 / 20)) (.fin 0), .update (.fin 0) (.fin 0), .update (.fin 1) (.fin 0),
        .update .nan (.fin 0), .skip]).2.finish.2).map PointEvent.pointIndex =
      List.range' 0 ((twoPoints.filter ArtifactPoint.mustHit).length - 0) := by
  have built : make twoPoints (.fin (1 / 10)) = .ok twoVertices := by decide +kernel
  have restored : twoVertices.restoreResolved 0 = some twoVertices := by decide +kernel
  exact (journal_accounts built restored (exec_run _ .start)).2.1

end PointJournal

end Dyx3.Mission
