import Dyx3.Rpp.DrawnRuns

/-!
The conditioner only looks at positions: mapping the vertices by a map that keeps them commutes with
every pass. So the labels on the vertices of a result show where each of them came from.
-/

namespace Dyx3.Rpp

noncomputable section

open Geometry

variable {V W : Type*}

def PointRun.map (f : W → V) (r : PointRun W) : PointRun V := ⟨r.pts.map f, r.flags⟩

@[simp] theorem PointRun.pts_map (f : W → V) (r : PointRun W) : (r.map f).pts = r.pts.map f := rfl

@[simp] theorem PointRun.flags_map (f : W → V) (r : PointRun W) : (r.map f).flags = r.flags := rfl

/-- `f` on the vertices of pairs with a flag. -/
abbrev onVertex (f : W → V) : W × Bool → V × Bool := Prod.map f id

theorem ofVerts_map (f : W → V) (l : List (W × Bool)) :
    PointRun.ofVerts (l.map (onVertex f)) = (PointRun.ofVerts l).map f := by
  simp [PointRun.ofVerts, PointRun.map, Function.comp_def]

/-! ### Passes that look at no position -/

theorem flagGroups_map (f : W → V) (cur : List (W × Bool)) (last : Bool) (l : List (W × Bool)) :
    flagGroups (cur.map (onVertex f)) last (l.map (onVertex f)) =
      (flagGroups cur last l).map (List.map (onVertex f)) := by
  induction l generalizing cur last with
  | nil => rfl
  | cons v l ih =>
    simp only [List.map_cons, flagGroups, Prod.map_snd, id_eq]
    split
    · rw [List.map_cons, ← ih [v]]
      rfl
    · rw [← ih (cur ++ [v])]
      simp

theorem shareJoints_map (f : W → V) (prev : Option W) (groups : List (List (W × Bool))) :
    shareJoints (prev.map f) (groups.map (List.map (onVertex f))) = (shareJoints prev groups).map (PointRun.map f) := by
  induction groups generalizing prev with
  | nil => rfl
  | cons g groups ih =>
    simp only [List.map_cons, shareJoints, ofVerts_map]
    cases prev with
    | none =>
      simp only [Option.map_none]
      rw [← ih, PointRun.pts_map, List.getLast?_map]
    | some v =>
      simp only [Option.map_some]
      rw [← ih, ← List.getLast?_map]
      rfl

theorem zip_map_vertex (f : W → V) (pts : List W) (flags : List Bool) :
    (pts.map f).zip flags = (pts.zip flags).map (onVertex f) := by
  rw [List.zip_map_left]

theorem splitRunsByFlag_map (f : W → V) (pts : List W) (flags : List Bool) :
    splitRunsByFlag (pts.map f) flags = (splitRunsByFlag pts flags).map (PointRun.map f) := by
  rw [splitRunsByFlag, splitRunsByFlag, zip_map_vertex]
  cases pts.zip flags with
  | nil => rfl
  | cons v rest =>
    simp only [List.map_cons]
    rw [← shareJoints_map, ← flagGroups_map]
    rfl

theorem slice_map (f : W → V) (r : PointRun W) (lo hi : ℕ) : (r.map f).slice lo hi = (r.slice lo hi).map f := by
  simp [PointRun.slice, PointRun.map, slice]

theorem cutAt_map (f : W → V) (r : PointRun W) (start : ℕ) (splits : List ℕ) :
    cutAt (r.map f) start splits = (cutAt r start splits).map (PointRun.map f) := by
  induction splits generalizing start with
  | nil =>
    simp only [cutAt, PointRun.pts_map, List.length_map]
    split <;> simp [slice_map]
  | cons s splits ih =>
    simp only [cutAt]
    split
    · rw [List.map_cons, slice_map, ih]
    · exact ih start

theorem kept_map {α β : Type*} (g : α → β) (l : List α) (keep : List Bool) : kept (l.map g) keep = (kept l keep).map g := by
  induction l generalizing keep with
  | nil => simp [kept]
  | cons x l ih =>
    cases keep with
    | nil => simp [kept]
    | cons k keep =>
      simp only [List.map_cons, kept, ih]
      split <;> simp

theorem flagsFor_map (f : W → V) (pts : List W) (flags : Option (List Bool)) :
    flagsFor (pts.map f) flags = flagsFor pts flags := by
  cases flags <;> simp [flagsFor]

variable [Vertex V] [Vertex W]

/-- `f` keeps the position of every vertex. -/
def Keeps (f : W → V) : Prop := ∀ w, pos (f w) = pos w

namespace Keeps

variable {f : W → V} (h : Keeps f)
include h

theorem hypot (a b : W) : Geometry.hypot (f a) (f b) = Geometry.hypot a b := by
  simp only [Geometry.hypot, h _]

theorem segmentHeading (a b : W) : Geometry.segmentHeading (f a) (f b) = Geometry.segmentHeading a b := by
  simp only [Geometry.segmentHeading, h _]

theorem perpendicularDistance (p a b : W) :
    Geometry.perpendicularDistance (f p) (f a) (f b) = Geometry.perpendicularDistance p a b := by
  simp only [Geometry.perpendicularDistance, h.hypot, h _]

theorem ptKey (p : W) : Rpp.ptKey (f p) = Rpp.ptKey p := by
  simp only [Rpp.ptKey, h _]

theorem steps (pts : List W) :
    List.zipWith Geometry.hypot (pts.map f) (pts.map f).tail = List.zipWith Geometry.hypot pts pts.tail := by
  rw [← List.map_tail, List.zipWith_map]
  simp only [h.hypot]

theorem pathLength (pts : List W) : Geometry.pathLength (pts.map f) = Geometry.pathLength pts := by
  rw [Geometry.pathLength, Geometry.pathLength, h.steps]

theorem cumulativeLengths (pts : List W) :
    Geometry.cumulativeLengths (pts.map f) = Geometry.cumulativeLengths pts := by
  rw [Geometry.cumulativeLengths, Geometry.cumulativeLengths, h.steps]

theorem dropDuplicates (v : W × Bool) (rest : List (W × Bool)) :
    Rpp.dropDuplicates (onVertex f v) (rest.map (onVertex f)) = (Rpp.dropDuplicates v rest).map (onVertex f) := by
  induction rest generalizing v with
  | nil => rfl
  | cons w rest ih =>
    simp only [List.map_cons, Rpp.dropDuplicates, Prod.map_fst, Prod.map_snd, id_eq, h.hypot]
    split
    · exact ih (v.1, v.2 || w.2)
    · rw [List.map_cons, ← ih]

theorem keepMarks (tol : ℝ) (mustHit : KeySet) (last : W) (prev : Bool) (l : List (W × Bool)) :
    Rpp.keepMarks tol (Rpp.ptKey · ∈ mustHit) (f last) prev (l.map (onVertex f)) =
      Rpp.keepMarks tol (Rpp.ptKey · ∈ mustHit) last prev l := by
  induction l generalizing last prev with
  | nil => rfl
  | cons v l ih =>
    cases l with
    | nil => rfl
    | cons w l =>
      obtain ⟨p, a⟩ := v
      obtain ⟨q, b⟩ := w
      simp only [List.map_cons, Prod.map_apply, id_eq] at ih ⊢
      simp only [Rpp.keepMarks, h.segmentHeading, h.ptKey, ih]

theorem farthest (a b : W) (i : ℕ) (ps : List W) (best : ℝ × Option ℕ) :
    Rpp.farthest (f a) (f b) i (ps.map f) best = Rpp.farthest a b i ps best := by
  induction ps generalizing i best with
  | nil => rfl
  | cons p ps ih => simp only [List.map_cons, Rpp.farthest, h.perpendicularDistance, ih]

theorem dpSplit (pts : List W) (eps : ℝ) (lo hi : ℕ) : Rpp.dpSplit (pts.map f) eps lo hi = Rpp.dpSplit pts eps lo hi := by
  unfold Rpp.dpSplit
  split
  · rfl
  · rw [List.getElem?_map, List.getElem?_map, interior, ← List.map_take, ← List.map_drop]
    cases pts[lo]? with
    | none => rfl
    | some a =>
      cases pts[hi]? with
      | none => rfl
      | some b =>
        dsimp only [Option.map_some]
        rw [h.farthest]
        rfl

theorem dpMarkKeep (pts : List W) (eps : ℝ) (stack : List (ℕ × ℕ)) (keep : List Bool) :
    Rpp.dpMarkKeep (pts.map f) eps stack keep = Rpp.dpMarkKeep pts eps stack keep := by
  fun_induction Rpp.dpMarkKeep pts eps stack keep with
  | case1 keep => rw [Rpp.dpMarkKeep]
  | case2 lo hi stack keep i split ih =>
    rw [← h.dpSplit] at split
    rw [Rpp.dpMarkKeep]
    split <;> simp_all
  | case3 lo hi stack keep split ih =>
    rw [← h.dpSplit] at split
    rw [Rpp.dpMarkKeep]
    split <;> simp_all

theorem dpAnchors (pts : List W) (maxOffset : ℝ) (keep : List Bool) :
    Rpp.dpAnchors (pts.map f) maxOffset keep = Rpp.dpAnchors pts maxOffset keep := by
  simp only [Rpp.dpAnchors, h.dpMarkKeep]

theorem simplifyForProfile (pts : List W) (flags : Option (List Bool)) (tol maxOffset : ℝ) (mustHit : KeySet) :
    Rpp.simplifyForProfile (pts.map f) flags tol maxOffset mustHit =
      (Rpp.simplifyForProfile pts flags tol maxOffset mustHit).map f := by
  rw [Rpp.simplifyForProfile, Rpp.simplifyForProfile, flagsFor_map, zip_map_vertex]
  cases pts.zip (flagsFor pts flags) with
  | nil => rfl
  | cons v rest =>
    simp only [List.map_cons, h.dropDuplicates, List.length_map]
    obtain ⟨g, l, starts⟩ := dropDuplicates_starts v rest
    rw [starts]
    split
    · exact ofVerts_map f _
    · have marks : Rpp.keepMarks (radians tol) (Rpp.ptKey · ∈ mustHit) (onVertex f v).1
          ((((v.1, g) :: l).map (onVertex f)).headD (onVertex f v)).2 (((v.1, g) :: l).map (onVertex f)).tail =
          Rpp.keepMarks (radians tol) (Rpp.ptKey · ∈ mustHit) v.1 (((v.1, g) :: l).headD v).2 ((v.1, g) :: l).tail :=
        h.keepMarks _ mustHit v.1 g l
      have points : (((v.1, g) :: l).map (onVertex f)).map Prod.fst = (((v.1, g) :: l).map Prod.fst).map f := by
        simp [Function.comp_def]
      rw [marks, points, h.dpAnchors, kept_map, ofVerts_map]

theorem headings (pts : List W) : Rpp.headings (pts.map f) = Rpp.headings pts := by
  induction pts with
  | nil => rfl
  | cons p pts ih =>
    cases pts with
    | nil => rfl
    | cons q pts =>
      simp only [List.map_cons, Rpp.headings, h.hypot, h.segmentHeading] at ih ⊢
      rw [ih]

theorem classifyAutoProfile (pts : List W) (thresholdDeg : ℝ) :
    Rpp.classifyAutoProfile (pts.map f) thresholdDeg = Rpp.classifyAutoProfile pts thresholdDeg := by
  simp only [Rpp.classifyAutoProfile, h.simplifyForProfile, PointRun.pts_map, List.length_map, h.headings]

theorem runsCollinear (prev next : List W) (thresholdDeg : ℝ) :
    Rpp.runsCollinear (prev.map f) (next.map f) thresholdDeg = Rpp.runsCollinear prev next thresholdDeg := by
  unfold Rpp.runsCollinear
  rw [List.getLast?_map, List.head?_map, h.simplifyForProfile, h.simplifyForProfile, PointRun.pts_map,
    PointRun.pts_map, ← List.map_reverse]
  cases prev.getLast? with
  | none => rfl
  | some p =>
    cases next.head? with
    | none => rfl
    | some q =>
      simp only [Option.map_some, h.hypot]
      match (Rpp.simplifyForProfile prev none).pts.reverse, (Rpp.simplifyForProfile next none).pts with
      | b :: a :: _, c :: d :: _ => simp only [List.map_cons, h.segmentHeading]
      | [], _ | [_], _ | _ :: _ :: _, [] | _ :: _ :: _, [_] => rfl

theorem mergeable (t m : ℝ) (prev cur : PointRun W) :
    Rpp.mergeable t m (prev.map f) (cur.map f) = Rpp.mergeable t m prev cur := by
  simp only [Rpp.mergeable, isShortTransitRun, PointRun.pts_map, PointRun.flags_map, h.classifyAutoProfile,
    h.pathLength, h.runsCollinear]

theorem extend (prev cur : PointRun W) : (prev.map f).extend (cur.map f) = (prev.extend cur).map f := by
  unfold PointRun.extend
  rw [PointRun.pts_map, PointRun.pts_map, List.getLast?_map, List.head?_map]
  cases prev.pts.getLast? with
  | none => simp [PointRun.map]
  | some p =>
    cases cur.pts.head? with
    | none => simp [PointRun.map]
    | some q =>
      simp only [Option.map_some, h.hypot]
      split <;> simp [PointRun.map]

theorem mergeFrom (t m : ℝ) (r : PointRun W) (rs : List (PointRun W)) :
    Rpp.mergeFrom t m (r.map f) (rs.map (PointRun.map f)) = (Rpp.mergeFrom t m r rs).map (PointRun.map f) := by
  induction rs generalizing r with
  | nil => rfl
  | cons c rs ih =>
    simp only [List.map_cons, Rpp.mergeFrom, h.mergeable]
    split
    · rw [h.extend, ih]
    · rw [List.map_cons, ih]

theorem mergeCollinearRuns (t m : ℝ) (rs : List (PointRun W)) :
    Rpp.mergeCollinearRuns (rs.map (PointRun.map f)) t m = (Rpp.mergeCollinearRuns rs t m).map (PointRun.map f) := by
  cases rs with
  | nil => rfl
  | cons r rs => exact h.mergeFrom t m r rs

theorem cornersOf (t : ℝ) (pts : List W) : Rpp.cornersOf t (pts.map f) = (Rpp.cornersOf t pts).map f := by
  induction pts with
  | nil => rfl
  | cons a pts ih =>
    match pts with
    | [] | [_] => rfl
    | b :: c :: rest =>
      simp only [List.map_cons, Rpp.cornersOf, h.segmentHeading] at ih ⊢
      split <;> simp [ih]

theorem cornerSplits (idx : ℕ) (pts corners : List W) :
    Rpp.cornerSplits idx (pts.map f) (corners.map f) = Rpp.cornerSplits idx pts corners := by
  induction pts generalizing idx corners with
  | nil => simp [Rpp.cornerSplits]
  | cons p pts ih =>
    cases corners with
    | nil => simp [Rpp.cornerSplits]
    | cons c corners =>
      have rest := ih (idx + 1) (c :: corners)
      rw [List.map_cons] at rest
      have matched : same (f p) (f c) ↔ same p c := by simp only [same, h _]
      simp only [List.map_cons, Rpp.cornerSplits, matched, ih, rest]

theorem splitRunAtCorners (pts : List W) (flags : List Bool) (t : ℝ) :
    Rpp.splitRunAtCorners (pts.map f) flags t = (Rpp.splitRunAtCorners pts flags t).map (PointRun.map f) := by
  have cut : ∀ splits, cutAt ⟨pts.map f, flags⟩ 0 splits = (cutAt ⟨pts, flags⟩ 0 splits).map (PointRun.map f) :=
    cutAt_map f ⟨pts, flags⟩ 0
  unfold Rpp.splitRunAtCorners
  simp only [h.simplifyForProfile, PointRun.pts_map, h.cornersOf, List.map_eq_nil_iff, h.cornerSplits, cut]
  split
  · rfl
  · cases cutAt ⟨pts, flags⟩ 0 _ <;> rfl

/-! ### Conditioning of a path without connectors to absorb -/

variable {p : ConditionParams}

theorem autoRuns (off : p.connectorAbsorb ≤ 0) (must : KeySet) (pts : List W) (flags : List Bool) :
    Rpp.autoRuns p must (pts.map f) flags = (Rpp.autoRuns p must pts flags).map (PointRun.map f) := by
  unfold Rpp.autoRuns
  simp only [absorbShortConnectors_off off, splitRunsByFlag_map, List.flatMap_map, PointRun.pts_map,
    PointRun.flags_map, h.splitRunAtCorners]
  rw [← h.mergeCollinearRuns, List.map_flatMap]

theorem profileOf (p : ConditionParams) (pts : List W) : Rpp.profileOf p (pts.map f) = Rpp.profileOf p pts := by
  unfold Rpp.profileOf
  split <;> simp only [h.classifyAutoProfile]

end Keeps

def DrawnRun.map (f : W → V) (d : DrawnRun W) : DrawnRun V := ⟨d.mark, d.pts.map f⟩

def RawPoint.map (f : W → V) (r : RawPoint W) : RawPoint V := ⟨f r.vertex, r.z⟩

/-- The vertices of a conditioned run mapped; what the code computes from positions stays. -/
def ConditionedRun.map (f : W → V) (r : ConditionedRun W) : ConditionedRun V := { r with pts := r.pts.map f }

namespace Keeps

variable {f : W → V} (h : Keeps f) {p : ConditionParams}
include h

theorem isClosedRun (pts : List W) (threshold minLen : ℝ) :
    Rpp.isClosedRun (pts.map f) threshold minLen = Rpp.isClosedRun pts threshold minLen := by
  unfold Rpp.isClosedRun
  rw [List.head?_map, List.getLast?_map]
  cases pts.head? with
  | none => rfl
  | some a =>
    cases pts.getLast? with
    | none => rfl
    | some b => simp only [Option.map_some, List.length_map, h.pathLength, h.hypot]

theorem conditionRun {must : KeySet} {rr : PointRun W} (segment : Rpp.profileOf p rr.pts = .segment) :
    Rpp.conditionRun p must (rr.map f) = (Rpp.conditionRun p must rr).map f := by
  have verts : conditionVerts p must (rr.map f) = (conditionVerts p must rr).map f := by
    rw [conditionVerts, conditionVerts, PointRun.pts_map, h.profileOf, segment]
    exact h.simplifyForProfile _ _ _ _ _
  simp only [Rpp.conditionRun, ConditionedRun.map, verts, PointRun.pts_map, PointRun.flags_map, h.profileOf,
    h.pathLength, h.cumulativeLengths, h.isClosedRun, List.map_map, Function.comp_def, h.ptKey]

theorem cornerPieces (d : DrawnRun W) :
    Rpp.cornerPieces p (d.map f) = (Rpp.cornerPieces p d).map (PointRun.map f) := by
  rw [Rpp.cornerPieces, Rpp.cornerPieces, ← h.splitRunAtCorners]
  simp [DrawnRun.map]

theorem mergedPieces (d : DrawnRun W) :
    Rpp.mergedPieces p (d.map f) = (Rpp.mergedPieces p d).map (PointRun.map f) := by
  rw [Rpp.mergedPieces, Rpp.mergedPieces, h.cornerPieces, h.mergeCollinearRuns]

theorem fuses (d d' : DrawnRun W) : Fuses p (d.map f) (d'.map f) ↔ Fuses p d d' := by
  simp only [Fuses, h.mergedPieces, h.cornerPieces, List.getLast?_map, List.head?_map, Option.mem_def,
    Option.map_eq_some_iff]
  constructor
  · rintro ⟨_, ⟨prev, last, rfl⟩, _, ⟨cur, head, rfl⟩, joins⟩
    exact ⟨prev, last, cur, head, by rwa [h.mergeable] at joins⟩
  · rintro ⟨prev, last, cur, head, joins⟩
    exact ⟨_, ⟨prev, last, rfl⟩, _, ⟨cur, head, rfl⟩, by rwa [h.mergeable]⟩

theorem mustHitKeys (raw : List (RawPoint W)) :
    Rpp.mustHitKeys (raw.map (RawPoint.map f)) = Rpp.mustHitKeys raw := by
  simp only [Rpp.mustHitKeys, List.filter_map, List.map_map]
  congr 1
  exact List.map_congr_left fun r _ => h.ptKey r.vertex

variable (auto : normalizeTrackingProfile p.trackingProfile = .auto) (off : p.connectorAbsorb ≤ 0)
include auto off

/-- Before conditioning the mapped path has the mapped runs. -/
theorem rawRuns (must : KeySet) (raw : List (RawPoint W)) :
    Rpp.rawRuns p must ((raw.map (RawPoint.map f)).map RawPoint.vertex) ((raw.map (RawPoint.map f)).map RawPoint.spray) =
      (Rpp.rawRuns p must (raw.map RawPoint.vertex) (raw.map RawPoint.spray)).map (PointRun.map f) := by
  have vertices : (raw.map (RawPoint.map f)).map RawPoint.vertex = (raw.map RawPoint.vertex).map f := by
    simp [RawPoint.map]
  have flags : (raw.map (RawPoint.map f)).map RawPoint.spray = raw.map RawPoint.spray := by
    rw [List.map_map]
    exact List.map_congr_left fun _ _ => rfl
  rw [vertices, flags, Rpp.rawRuns, Rpp.rawRuns, if_pos auto, if_pos auto, h.autoRuns off]

theorem profiles (raw : List (RawPoint W)) :
    (Rpp.conditionedRuns (raw.map (RawPoint.map f)) p).map ConditionedRun.profile =
      (Rpp.conditionedRuns raw p).map ConditionedRun.profile := by
  unfold Rpp.conditionedRuns
  simp only [List.map_eq_nil_iff, h.mustHitKeys, h.rawRuns auto off]
  split
  · rfl
  · simp only [List.map_map, Function.comp_def, conditionRun_profile, PointRun.pts_map, h.profileOf]

theorem conditionedRuns {raw : List (RawPoint W)}
    (segment : ∀ r ∈ Rpp.conditionedRuns raw p, r.profile = .segment) :
    Rpp.conditionedRuns (raw.map (RawPoint.map f)) p = (Rpp.conditionedRuns raw p).map (ConditionedRun.map f) := by
  unfold Rpp.conditionedRuns at segment ⊢
  simp only [List.map_eq_nil_iff, h.mustHitKeys, h.rawRuns auto off]
  split
  · rfl
  case isFalse some =>
    rw [if_neg some] at segment
    simp only [List.map_map]
    refine List.map_congr_left fun rr mem => ?_
    have profile := segment _ (List.mem_map_of_mem mem)
    rw [conditionRun_profile] at profile
    exact h.conditionRun profile

theorem conditionPath {raw : List (RawPoint W)}
    (segment : ∀ r ∈ Rpp.conditionedRuns raw p, r.profile = .segment) :
    Rpp.conditionPath (raw.map (RawPoint.map f)) p =
      ((Rpp.conditionPath raw p).1.map (ConditionedRun.map f), (Rpp.conditionPath raw p).2) := by
  have long : ((Rpp.conditionedRuns raw p).map (ConditionedRun.map f)).filter (fun r => 0.05 ≤ r.length) =
      ((Rpp.conditionedRuns raw p).filter fun r => 0.05 ≤ r.length).map (ConditionedRun.map f) := by
    rw [List.filter_map]
    rfl
  unfold Rpp.conditionPath
  simp only [h.conditionedRuns auto off segment, long, List.length_map, ne_eq, List.map_eq_nil_iff]
  split <;> rfl

end Keeps

/-! ### Vertices labelled with their number in the stored path -/

section Numbered

omit [Vertex V]

def labelRaw (raw : List (RawPoint V)) : List (RawPoint (V × ℕ)) :=
  raw.zipIdx.map fun r => ⟨(r.1.vertex, r.2), r.1.z⟩

/-- A drawn run starts with the number of the last vertex of the run before. -/
def labelRuns : ℕ → List (DrawnRun V) → List (DrawnRun (V × ℕ))
  | _, [] => []
  | start, d :: ds => ⟨d.mark, d.pts.zipIdx start⟩ :: labelRuns (start + d.pts.length - 1) ds

/-- The numbers of the vertices of a drawn run. -/
structure Span where
  mark : Bool
  lo : ℕ
  hi : ℕ

def spans : ℕ → List (DrawnRun V) → List Span
  | _, [] => []
  | start, d :: ds => ⟨d.mark, start, start + d.pts.length - 1⟩ :: spans (start + d.pts.length - 1) ds

/-- The stretch from vertex number `i` to `j` belongs to a drawn mark run. -/
def OfMarkRun (ds : List (DrawnRun V)) (i j : ℕ) : Prop := ∃ s ∈ spans 0 ds, s.mark = true ∧ s.lo ≤ i ∧ j ≤ s.hi

theorem labelRaw_forget (raw : List (RawPoint V)) : (labelRaw raw).map (RawPoint.map Prod.fst) = raw := by
  rw [labelRaw, List.map_map]
  exact List.zipIdx_map_fst 0 raw

theorem labelRuns_forget (start : ℕ) (ds : List (DrawnRun V)) :
    (labelRuns start ds).map (DrawnRun.map Prod.fst) = ds := by
  induction ds generalizing start with
  | nil => rfl
  | cons d ds ih => simp [labelRuns, ih, DrawnRun.map]

theorem labelRuns_drawn {ds : List (DrawnRun V)} (start : ℕ) (h : Drawn ds) : Drawn (labelRuns start ds) := by
  induction ds generalizing start with
  | nil => exact ⟨by simp [labelRuns], .nil⟩
  | cons d ds ih =>
    have rest := ih (start + d.pts.length - 1) h.tail
    have long := h.long d List.mem_cons_self
    constructor
    · rw [labelRuns, List.forall_mem_cons]
      exact ⟨by simpa using long, rest.long⟩
    · cases ds with
      | nil => exact .singleton _
      | cons d' ds =>
        have chain := rest.chain
        rw [labelRuns] at chain
        rw [labelRuns, labelRuns, List.isChain_cons_cons]
        refine ⟨?_, chain⟩
        obtain ⟨other, shared⟩ := (List.isChain_cons_cons.mp h.chain).1
        have joint : ∃ x, d.pts.getLast? = some x ∧ d'.pts.head? = some x := h.joint rfl
        obtain ⟨x, ends, starts⟩ := joint
        refine ⟨other, ?_⟩
        simp [List.getLast?_zipIdx, List.head?_zipIdx, ends, starts]

/-- A flag of a numbered path with its vertex. -/
def number (v : (V × Bool) × ℕ) : (V × ℕ) × Bool := ((v.1.1, v.2), v.1.2)

theorem number_map (pts : List V) (mark : Bool) (start : ℕ) :
    (pts.zipIdx start).map (·, mark) = ((pts.map (·, mark)).zipIdx start).map number := by
  rw [List.zipIdx_map, List.map_map]
  rfl

theorem later_label {ds : List (DrawnRun V)} (start : ℕ) (long : ∀ d ∈ ds, 2 ≤ d.pts.length) :
    later (labelRuns start ds) = ((later ds).zipIdx (start + 1)).map number := by
  induction ds generalizing start with
  | nil => rfl
  | cons d ds ih =>
    rw [List.forall_mem_cons] at long
    obtain ⟨p, rest, same⟩ := List.exists_cons_of_length_pos (show 0 < d.pts.length by omega)
    have next := ih (start + d.pts.length - 1) long.2
    rw [labelRuns, later_cons, next, later_cons, List.zipIdx_append, List.map_append]
    simp only [same, List.zipIdx_cons, List.tail_cons, List.length_cons, List.length_map]
    rw [number_map, show start + (rest.length + 1) - 1 + 1 = start + 1 + rest.length by omega]

theorem stored_label {ds : List (DrawnRun V)} (long : ∀ d ∈ ds, 2 ≤ d.pts.length) :
    stored (labelRuns 0 ds) = ((stored ds).zipIdx 0).map number := by
  cases ds with
  | nil => rfl
  | cons d ds =>
    rw [List.forall_mem_cons] at long
    rw [labelRuns, stored, stored, later_label _ long.2, number_map, List.zipIdx_append, List.map_append]
    have : 0 + d.pts.length - 1 + 1 = 0 + (d.pts.map (·, d.mark)).length := by
      rw [List.length_map]
      omega
    rw [this]

theorem Stores.labelled {raw : List (RawPoint V)} {ds : List (DrawnRun V)} (h : Stores raw ds) :
    Stores (labelRaw raw) (labelRuns 0 ds) := by
  have numbered := stored_label h.drawn.long
  refine ⟨labelRuns_drawn 0 h.drawn, ?_, ?_, ?_⟩
  · obtain ⟨d, ds, rfl⟩ := List.exists_cons_of_ne_nil h.some
    simp [labelRuns]
  · rw [numbered, List.map_map, labelRaw, List.map_map]
    have vertices := congrArg List.zipIdx h.vertices
    rw [List.zipIdx_map, List.zipIdx_map] at vertices
    exact vertices
  · rw [numbered, List.map_map, labelRaw, List.map_map]
    have left : raw.zipIdx.map (RawPoint.spray ∘ fun r => ⟨(r.1.vertex, r.2), r.1.z⟩) =
        (raw.zipIdx.map Prod.fst).map RawPoint.spray := by
      rw [List.map_map]
      rfl
    have right : ((stored ds).zipIdx 0).map (Prod.snd ∘ number) = (((stored ds).zipIdx 0).map Prod.fst).map Prod.snd := by
      rw [List.map_map]
      rfl
    rw [left, right, List.zipIdx_map_fst, List.zipIdx_map_fst, h.flags]

/-! ### Which drawn run a stretch belongs to -/

theorem lo_of_mem_spans {start : ℕ} {ds : List (DrawnRun V)} {s : Span} (mem : s ∈ spans start ds)
    (long : ∀ d ∈ ds, 2 ≤ d.pts.length) : start ≤ s.lo := by
  induction ds generalizing start with
  | nil => simp [spans] at mem
  | cons d ds ih =>
    rw [List.forall_mem_cons] at long
    rcases List.mem_cons.mp mem with rfl | mem
    · exact le_rfl
    · have := ih mem long.2
      omega

theorem label_of_mem {start : ℕ} {ds : List (DrawnRun V)} {d : DrawnRun (V × ℕ)} {v : V × ℕ}
    (long : ∀ d ∈ ds, 2 ≤ d.pts.length) (mem : d ∈ labelRuns start ds) (inside : v ∈ d.pts) : start ≤ v.2 := by
  induction ds generalizing start with
  | nil => simp [labelRuns] at mem
  | cons e ds ih =>
    rw [List.forall_mem_cons] at long
    rcases List.mem_cons.mp mem with rfl | mem
    · exact List.le_snd_of_mem_zipIdx inside
    · have := ih long.2 mem
      omega

theorem zipIdx_increasing (l : List V) (start : ℕ) : (l.zipIdx start).Pairwise fun v w => v.2 < w.2 := by
  induction l generalizing start with
  | nil => exact .nil
  | cons x l ih =>
    rw [List.zipIdx_cons, List.pairwise_cons]
    exact ⟨fun v mem => List.le_snd_of_mem_zipIdx mem, ih (start + 1)⟩

theorem labelRuns_increasing {start : ℕ} {ds : List (DrawnRun V)} {d : DrawnRun (V × ℕ)} (mem : d ∈ labelRuns start ds) :
    d.pts.Pairwise fun v w => v.2 < w.2 := by
  induction ds generalizing start with
  | nil => simp [labelRuns] at mem
  | cons e ds ih =>
    rcases List.mem_cons.mp mem with rfl | mem
    · exact zipIdx_increasing _ _
    · exact ih mem

/-- Two vertices of a drawn run, in order, are the ends of a stretch of that run and of no other. -/
theorem ofMarkRun_iff {start : ℕ} {ds : List (DrawnRun V)} (long : ∀ d ∈ ds, 2 ≤ d.pts.length)
    {d : DrawnRun (V × ℕ)} (mem : d ∈ labelRuns start ds) {v w : V × ℕ} (hv : v ∈ d.pts) (hw : w ∈ d.pts)
    (order : v.2 < w.2) :
    (∃ s ∈ spans start ds, s.mark = true ∧ s.lo ≤ v.2 ∧ w.2 ≤ s.hi) ↔ d.mark = true := by
  induction ds generalizing start with
  | nil => simp [labelRuns] at mem
  | cons e ds ih =>
    rw [List.forall_mem_cons] at long
    rw [spans]
    simp only [List.mem_cons, exists_eq_or_imp]
    rcases List.mem_cons.mp mem with rfl | mem
    · have bound := List.snd_lt_add_of_mem_zipIdx hw
      have low := List.le_snd_of_mem_zipIdx hv
      constructor
      · rintro (⟨mark, -, -⟩ | ⟨s, later, -, lo, -⟩)
        · exact mark
        · have := lo_of_mem_spans later long.2
          omega
      · intro mark
        exact .inl ⟨mark, low, by omega⟩
    · have low := label_of_mem long.2 mem hv
      rw [← ih long.2 mem]
      constructor
      · rintro (⟨-, -, hi⟩ | later)
        · omega
        · exact later
      · exact .inr

end Numbered

end

end Dyx3.Rpp
