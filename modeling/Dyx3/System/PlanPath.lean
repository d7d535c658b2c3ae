import Dyx3.Backend.StoredRuns
import Dyx3.Rpp.Labels

/-!
The path that RPP reads from an app-planned mission, as the drawn runs it stores, and the same path with
each vertex labelled by its number in the file.
-/

namespace Dyx3.System

noncomputable section

open Geometry Rpp Backend

/-- The raw points of the artifact. -/
def rawPath (points : List PlanPoint) : List (RawPoint Point) :=
  points.map fun p => ⟨p.at, BitVec.ofNat 32 p.flags⟩

def drawnRun (r : PlanRun) : DrawnRun Point := ⟨r.kind = .mark, r.points.map PlanPoint.at⟩

/-- The runs of a plan with all their stored points. -/
def drawnRuns (plan : List PlanRun) : List (DrawnRun Point) := (storedRuns none plan).map drawnRun

/-! ### The stored points encode the drawn runs -/

theorem spray_ofNat (p : Point) (flags : ℕ) :
    RawPoint.spray ⟨p, BitVec.ofNat 32 flags⟩ = decide (flags &&& flagSpray ≠ 0) := by
  have bit : (BitVec.ofNat 32 flags &&& 1).toNat = flags &&& 1 := by
    rw [BitVec.toNat_and, BitVec.toNat_ofNat, Nat.and_one_is_mod]
    show flags % 2 ^ 32 &&& 1 = _
    rw [Nat.and_one_is_mod]
    omega
  rw [RawPoint.spray, decide_eq_decide, flagSpray, ne_eq, ne_eq, ← bit, ← BitVec.toNat_inj]
  simp

/-- The spray bit of a stored point. -/
def sprayBit (p : PlanPoint) : Bool := decide (p.flags &&& flagSpray ≠ 0)

theorem rawPath_vertices (points : List PlanPoint) :
    (rawPath points).map RawPoint.vertex = points.map PlanPoint.at := by
  simp [rawPath, Function.comp_def]

theorem rawPath_flags (points : List PlanPoint) : (rawPath points).map RawPoint.spray = points.map sprayBit := by
  simp only [rawPath, List.map_map, Function.comp_def, spray_ofNat]
  rfl

/-- A point and its flag, as the encoding pairs them. -/
def stamp (p : PlanPoint) : Point × Bool := (p.at, sprayBit p)

/-- The must-hit bit of the later copy is added; the point and its spray bit stay. -/
theorem appendRun_stamp {flat dense : List PlanPoint} (some : flat ≠ []) (somed : dense ≠ []) :
    (appendRun flat dense).map stamp = flat.map stamp ++ dense.tail.map stamp := by
  obtain ⟨first, rest, rfl⟩ := List.exists_cons_of_ne_nil somed
  have last := List.getLast?_eq_some_getLast some
  have same : stamp { flat.getLast some with
      flags := (flat.getLast some).flags ||| (first.flags &&& flagMustHit) } = stamp (flat.getLast some) := by
    have bit : ((flat.getLast some).flags ||| (first.flags &&& flagMustHit)) &&& flagSpray =
        (flat.getLast some).flags &&& flagSpray := by
      rw [Nat.and_or_distrib_right, Nat.and_assoc, show flagMustHit &&& flagSpray = 0 from rfl, Nat.and_zero,
        Nat.or_zero]
    simp [stamp, sprayBit, PlanPoint.at, bit]
  simp only [appendRun, last, List.map_append, List.map_cons, same, List.tail_cons]
  conv_rhs => rw [← List.dropLast_append_getLast some]
  simp

/-- A stored run: long enough, and every point has the spray bit of its type. -/
structure StoredOk (r : PlanRun) : Prop where
  long : 2 ≤ r.points.length
  spray : ∀ p ∈ r.points, sprayBit p = decide (r.kind = .mark)

theorem stamp_points {r : PlanRun} (h : StoredOk r) : r.points.map stamp = (r.points.map PlanPoint.at).map (·, (drawnRun r).mark) := by
  rw [List.map_map]
  exact List.map_congr_left fun p mem => by simp [stamp, drawnRun, h.spray p mem]

theorem joinRuns_stamp {flat : List PlanPoint} {rs : List PlanRun} (some : flat ≠ []) (ok : ∀ r ∈ rs, StoredOk r) :
    (joinRuns flat rs).map stamp = flat.map stamp ++ later (rs.map drawnRun) := by
  induction rs generalizing flat with
  | nil => simp [joinRuns, later]
  | cons r rs ih =>
    rw [List.forall_mem_cons] at ok
    have somed : r.points ≠ [] := List.ne_nil_of_length_pos (by have := ok.1.long; omega)
    have appended := appendRun_stamp some somed
    have next : appendRun flat r.points ≠ [] := by
      intro none
      rw [none] at appended
      simp_all
    have tail : r.points.tail.map stamp = ((drawnRun r).pts.tail).map (·, (drawnRun r).mark) := by
      rw [List.map_tail, stamp_points ok.1]
      simp [drawnRun]
    have rest := ih next ok.2
    rw [joinRuns] at rest ⊢
    rw [List.foldl_cons, rest, appended, tail, List.append_assoc]
    rfl

theorem joinRuns_stored {rs : List PlanRun} (some : rs ≠ []) (ok : ∀ r ∈ rs, StoredOk r) :
    (joinRuns [] rs).map stamp = stored (rs.map drawnRun) := by
  obtain ⟨r, rs, rfl⟩ := List.exists_cons_of_ne_nil some
  rw [List.forall_mem_cons] at ok
  have somed : r.points ≠ [] := List.ne_nil_of_length_pos (by have := ok.1.long; omega)
  have first : appendRun [] r.points = r.points := rfl
  rw [joinRuns, List.foldl_cons, first]
  have rest := joinRuns_stamp somed ok.2
  rw [joinRuns] at rest
  rw [rest, stamp_points ok.1]
  rfl

/-! ### The runs of an accepted plan -/

theorem kind_spray (kind : RunType) : decide (kind.spray &&& flagSpray ≠ 0) = decide (kind = .mark) := by
  cases kind <;> decide

theorem storedRuns_ok {plan : List PlanRun} (stop : Option PlanPoint) (ok : ∀ r ∈ plan, r.Ok) :
    ∀ r ∈ storedRuns stop plan, StoredOk r := by
  induction plan generalizing stop with
  | nil => simp [storedRuns]
  | cons r plan ih =>
    rw [List.forall_mem_cons] at ok
    rw [storedRuns, List.forall_mem_cons]
    refine ⟨⟨?_, ?_⟩, ih _ ok.2⟩
    · have long := ok.1.long
      have dense := densePoints_length r.kind.spray (snapTo stop r.points)
      rw [snapTo_length] at dense
      exact long.trans dense
    · refine forall_densePoints (fun p mem => ?_) fun p flags => ?_
      · have flag : p.flags ∈ r.points.map PlanPoint.flags := by
          rw [← snapTo_flags stop]
          exact List.mem_map_of_mem mem
        obtain ⟨q, memq, same⟩ := List.mem_map.mp flag
        rw [sprayBit, ← same, ok.1.spray q memq]
        cases r.kind <;> rfl
      · rw [sprayBit, flags, kind_spray]

theorem storedRuns_kinds (stop : Option PlanPoint) (plan : List PlanRun) :
    (storedRuns stop plan).map PlanRun.kind = plan.map PlanRun.kind := by
  induction plan generalizing stop with
  | nil => rfl
  | cons r plan ih => simp [storedRuns, ih]

theorem storedRuns_joined {plan : List PlanRun} (stop : Option PlanPoint) (ok : ∀ r ∈ plan, r.Ok) :
    (storedRuns stop plan).IsChain fun r r' =>
      (r.points.map PlanPoint.at).getLast? = (r'.points.map PlanPoint.at).head? := by
  induction plan generalizing stop with
  | nil => exact .nil
  | cons r plan ih =>
    rw [List.forall_mem_cons] at ok
    cases plan with
    | nil => exact .singleton _
    | cons r' plan =>
      have rest := ih ((snapTo stop r.points).getLast?) ok.2
      rw [storedRuns] at rest
      rw [storedRuns, storedRuns, List.isChain_cons_cons]
      refine ⟨?_, rest⟩
      have long := ok.1.long
      have long' := (ok.2 r' List.mem_cons_self).long
      obtain ⟨last, ends⟩ : ∃ last, (snapTo stop r.points).getLast? = some last := by
        rw [snapTo_last stop long]
        exact ⟨_, List.getLast?_eq_some_getLast (List.ne_nil_of_length_pos (by omega))⟩
      simp only [List.getLast?_map, List.head?_map, densePoints_last, densePoints_head, ends, Option.map_some]
      exact (snapTo_head _ (List.ne_nil_of_length_pos (by omega))).symm

theorem drawn_of_accepted {plan : List PlanRun} (h : Accepted plan) : Drawn (drawnRuns plan) := by
  constructor
  · intro d mem
    obtain ⟨r, inside, rfl⟩ := List.mem_map.mp mem
    simpa [drawnRun] using (storedRuns_ok none h.ok r inside).long
  · have kinds : (storedRuns none plan).IsChain fun r r' => r.kind ≠ r'.kind := by
      have := h.alternate
      rw [← storedRuns_kinds none, List.isChain_map] at this
      exact this
    have joined := storedRuns_joined none h.ok
    rw [List.isChain_iff_forall_rel_of_append_cons_cons] at kinds joined
    rw [drawnRuns, List.isChain_map, List.isChain_iff_forall_rel_of_append_cons_cons]
    intro r r' before after same
    refine ⟨?_, joined same⟩
    have other := kinds same
    simp only [drawnRun]
    cases kind : r.kind <;> cases kind' : r'.kind <;> simp_all

/-- RPP reads the drawn runs of an accepted plan. -/
theorem stores_of_accepted {plan : List PlanRun} (h : Accepted plan) :
    Stores (rawPath (joinRuns [] (storedRuns none plan))) (drawnRuns plan) := by
  have some : storedRuns none plan ≠ [] := by
    obtain ⟨r, rest, rfl⟩ := List.exists_cons_of_ne_nil h.some
    simp [storedRuns]
  have stamps := joinRuns_stored some (storedRuns_ok none h.ok)
  refine ⟨drawn_of_accepted h, by simpa [drawnRuns] using some, ?_, ?_⟩
  · rw [rawPath_vertices, drawnRuns, ← stamps, List.map_map]
    rfl
  · rw [rawPath_flags, drawnRuns, ← stamps, List.map_map]
    rfl

end

end Dyx3.System
