import Dyx3.Lib.Pieces
import Dyx3.Rpp.Conditioner

/-!
What the passes of `condition_path` make of a path that was drawn as alternating runs which share their
boundary points and is stored with one copy of each, under the flag of the earlier run.
-/

namespace Dyx3.Rpp

noncomputable section

open Geometry Lib

variable {V : Type*}

structure DrawnRun (V : Type*) where
  mark : Bool
  pts : List V

/-- All vertices of `pts` under one flag. -/
def uniform (mark : Bool) (pts : List V) : PointRun V := ⟨pts, List.replicate pts.length mark⟩

@[simp] theorem pts_uniform (mark : Bool) (pts : List V) : (uniform mark pts).pts = pts := rfl

@[simp] theorem flags_uniform (mark : Bool) (pts : List V) :
    (uniform mark pts).flags = List.replicate pts.length mark := rfl

def DrawnRun.run (d : DrawnRun V) : PointRun V := uniform d.mark d.pts

/-- The next drawn run has the other flag and starts where this one ends. -/
def Follows (d d' : DrawnRun V) : Prop := d.mark ≠ d'.mark ∧ d.pts.getLast? = d'.pts.head?

structure Drawn (ds : List (DrawnRun V)) : Prop where
  long : ∀ d ∈ ds, 2 ≤ d.pts.length
  chain : ds.IsChain Follows

/-- The stored encoding: later runs leave out their first point. -/
def later (ds : List (DrawnRun V)) : List (V × Bool) := ds.flatMap fun d => d.pts.tail.map (·, d.mark)

theorem later_cons (d : DrawnRun V) (ds : List (DrawnRun V)) :
    later (d :: ds) = d.pts.tail.map (·, d.mark) ++ later ds := rfl

def stored : List (DrawnRun V) → List (V × Bool)
  | [] => []
  | d :: ds => d.pts.map (·, d.mark) ++ later ds

theorem Drawn.tail {d : DrawnRun V} {ds : List (DrawnRun V)} (h : Drawn (d :: ds)) : Drawn ds :=
  ⟨fun d mem => h.long d (List.mem_cons_of_mem _ mem), h.chain.tail⟩

theorem Drawn.joint {d d' : DrawnRun V} {ds : List (DrawnRun V)} (h : Drawn (d :: ds)) (mem : d' ∈ ds.head?) :
    ∃ p, d.pts.getLast? = some p ∧ d'.pts.head? = some p := by
  cases ds with
  | nil => simp at mem
  | cons d'' ds =>
    obtain rfl : d'' = d' := by simpa using mem
    obtain ⟨-, shared⟩ := (List.isChain_cons_cons.mp h.chain).1
    have long := h.long d'' (by simp)
    obtain ⟨x, xs, same⟩ := List.exists_cons_of_length_pos (show 0 < d''.pts.length by omega)
    exact ⟨x, by simp [shared, same], by simp [same]⟩

/-- What holds between neighbours in every drawn run holds between neighbours of the stored path. -/
theorem stored_chain {R : V → V → Prop} {ds : List (DrawnRun V)} (h : Drawn ds)
    (each : ∀ d ∈ ds, d.pts.IsChain R) : ((stored ds).map Prod.fst).IsChain R := by
  induction ds with
  | nil => exact .nil
  | cons d ds ih =>
    rw [List.forall_mem_cons] at each
    have rest := ih h.tail each.2
    cases ds with
    | nil => simpa [stored, later, Function.comp_def] using each.1
    | cons d' ds =>
      have joint : ∃ x, d.pts.getLast? = some x ∧ d'.pts.head? = some x := h.joint rfl
      obtain ⟨x, last, head⟩ := joint
      obtain ⟨init, ends⟩ := List.getLast?_eq_some_iff.mp last
      obtain ⟨tail, starts⟩ : ∃ tail, d'.pts = x :: tail := by
        cases h : d'.pts <;> simp_all
      have joined : (stored (d :: d' :: ds)).map Prod.fst =
          init ++ x :: (tail ++ (later ds).map Prod.fst) := by
        simp [stored, later_cons, ends, starts, Function.comp_def]
      have next : (stored (d' :: ds)).map Prod.fst = x :: (tail ++ (later ds).map Prod.fst) := by
        simp [stored, starts, Function.comp_def]
      rw [joined, List.isChain_split, ← ends, ← next]
      exact ⟨each.1, rest⟩

/-! ### `split_runs_by_flag` finds the drawn runs -/

theorem flagGroups_append (cur : List (V × Bool)) (mark : Bool) (pts : List V) (rest : List (V × Bool)) :
    flagGroups cur mark (pts.map (·, mark) ++ rest) = flagGroups (cur ++ pts.map (·, mark)) mark rest := by
  induction pts generalizing cur with
  | nil => simp
  | cons p pts ih =>
    simp only [List.map_cons, List.cons_append, flagGroups, ne_eq, not_true_eq_false, if_false]
    rw [ih, List.append_assoc, List.singleton_append]

theorem flagGroups_later {mark : Bool} (cur : List (V × Bool)) {ds : List (DrawnRun V)}
    (long : ∀ d ∈ ds, 2 ≤ d.pts.length) (chain : (mark :: ds.map DrawnRun.mark).IsChain (· ≠ ·)) :
    flagGroups cur mark (later ds) = cur :: ds.map fun d => d.pts.tail.map (·, d.mark) := by
  induction ds generalizing cur mark with
  | nil => rfl
  | cons d ds ih =>
    rw [List.forall_mem_cons] at long
    obtain ⟨p, q, rest, same⟩ : ∃ p q rest, d.pts = p :: q :: rest := by
      match h : d.pts with
      | p :: q :: rest => exact ⟨p, q, rest, rfl⟩
      | [_] | [] => simp [h] at long
    rw [List.map_cons, List.isChain_cons_cons] at chain
    have next := ih ([(q, d.mark)] ++ rest.map (·, d.mark)) long.2 chain.2
    rw [later_cons, same]
    simp only [List.tail_cons, List.map_cons, List.cons_append, flagGroups]
    rw [if_pos (Ne.symm chain.1), flagGroups_append, next, same]
    simp

theorem shareJoints_later {prev : Option V} {ds : List (DrawnRun V)} (h : Drawn ds)
    (start : ∀ d ∈ ds.head?, ∃ p, prev = some p ∧ d.pts.head? = some p) :
    shareJoints prev (ds.map fun d => d.pts.tail.map (·, d.mark)) = ds.map DrawnRun.run := by
  induction ds generalizing prev with
  | nil => rfl
  | cons d ds ih =>
    obtain ⟨p, rfl, first⟩ := start d rfl
    have long := h.long d List.mem_cons_self
    obtain ⟨q, rest, same⟩ : ∃ q rest, d.pts = p :: q :: rest := by
      match h : d.pts with
      | p' :: q :: rest =>
        obtain rfl : p' = p := by simpa [h] using first
        exact ⟨q, rest, rfl⟩
      | [_] | [] => simp [h] at long
    have run : (⟨p :: (d.pts.tail.map (·, d.mark)).map Prod.fst,
        ((d.pts.tail.map (·, d.mark)).map Prod.snd).headD false ::
          (d.pts.tail.map (·, d.mark)).map Prod.snd⟩ : PointRun V) = d.run := by
      simp [DrawnRun.run, uniform, same, Function.comp_def, List.replicate_succ]
    have pts : p :: (d.pts.tail.map (·, d.mark)).map Prod.fst = d.pts := by
      simp [same, Function.comp_def]
    simp only [List.map_cons, shareJoints, PointRun.ofVerts, run]
    rw [pts, ih h.tail fun d' mem => h.joint mem]

theorem splitRunsByFlag_stored {ds : List (DrawnRun V)} (h : Drawn ds) (some : ds ≠ []) :
    splitRunsByFlag ((stored ds).map Prod.fst) ((stored ds).map Prod.snd) = ds.map DrawnRun.run := by
  obtain ⟨d, ds, rfl⟩ := List.exists_cons_of_ne_nil some
  have long := List.forall_mem_cons.mp h.long
  obtain ⟨p, rest, same⟩ := List.exists_cons_of_length_pos (show 0 < d.pts.length by omega)
  have alternate : (d.mark :: ds.map DrawnRun.mark).IsChain (· ≠ ·) := by
    have := h.chain.imp (fun _ _ follows => follows.1)
    simpa using List.isChain_map_of_isChain DrawnRun.mark (fun _ _ ne => ne) this
  have verts : stored (d :: ds) = (p, d.mark) :: (rest.map (·, d.mark) ++ later ds) := by
    simp [stored, same]
  have groups : flagGroups [(p, d.mark)] d.mark (rest.map (·, d.mark) ++ later ds) =
      d.pts.map (·, d.mark) :: ds.map fun d => d.pts.tail.map (·, d.mark) := by
    rw [flagGroups_append, flagGroups_later _ long.2 alternate, same]
    simp
  rw [splitRunsByFlag, List.zip_map', show (stored (d :: ds)).map (fun v => (v.1, v.2)) = stored (d :: ds) by simp,
    verts]
  simp only [groups, shareJoints, PointRun.ofVerts, List.map_map, Function.comp_def, List.map_id', List.map_cons]
  rw [show (⟨d.pts, d.pts.map fun _ => d.mark⟩ : PointRun V) = d.run by simp [DrawnRun.run, uniform]]
  rw [shareJoints_later h.tail fun d' mem => h.joint mem]

/-! ### `split_run_at_corners` cuts a run into pieces -/

def IsUniform (mark : Bool) (r : PointRun V) : Prop := r.flags = List.replicate r.pts.length mark

theorem IsUniform.slice {mark : Bool} {r : PointRun V} (h : IsUniform mark r) (lo hi : ℕ) :
    IsUniform mark (r.slice lo hi) := by
  simp [IsUniform, PointRun.slice, Rpp.slice, show r.flags = _ from h]

/-- Nothing is cut after the last vertex. -/
theorem cutAt_end {r : PointRun V} {start : ℕ} {splits : List ℕ} (at_end : r.pts.length ≤ start + 1)
    (below : ∀ s ∈ splits, s < r.pts.length) : cutAt r start splits = [] := by
  induction splits with
  | nil => rw [cutAt, if_neg (by omega)]
  | cons s splits ih =>
    rw [List.forall_mem_cons] at below
    rw [cutAt, if_neg (by omega), ih below.2]

theorem cutAt_pieces {r : PointRun V} {start : ℕ} {splits : List ℕ} (inside : start + 1 < r.pts.length)
    (below : ∀ s ∈ splits, s < r.pts.length) :
    Pieces (r.pts.drop start) ((cutAt r start splits).map PointRun.pts) := by
  induction splits generalizing start with
  | nil =>
    rw [cutAt, if_pos inside]
    simp only [List.map_cons, List.map_nil, PointRun.slice, slice, List.take_length]
    exact .whole (by rw [List.length_drop]; omega)
  | cons s splits ih =>
    rw [List.forall_mem_cons] at below
    rw [cutAt]
    split
    case isFalse => exact ih inside below.2
    case isTrue ahead =>
      by_cases more : s + 1 < r.pts.length
      · have rest : r.pts.drop s = r.pts[s] :: r.pts.drop (s + 1) := List.drop_eq_getElem_cons below.1
        have tail := ih more below.2
        rw [rest] at tail
        have some : (r.pts.take s).drop start ≠ [] := by
          apply List.ne_nil_of_length_pos
          simp only [List.length_drop, List.length_take]
          omega
        have whole : r.pts.drop start = (r.pts.take s).drop start ++ r.pts[s] :: r.pts.drop (s + 1) := by
          conv_lhs => rw [← List.take_append_drop s r.pts, rest]
          rw [List.drop_append_of_le_length (by rw [List.length_take]; omega)]
        have piece : (r.slice start (s + 1)).pts = (r.pts.take s).drop start ++ [r.pts[s]] := by
          rw [PointRun.slice, slice, List.take_succ_eq_append_getElem below.1,
            List.drop_append_of_le_length (by rw [List.length_take]; omega)]
        rw [List.map_cons, piece, whole]
        exact .cut _ some tail
      · have last : s + 1 = r.pts.length := by omega
        rw [cutAt_end (by omega) below.2]
        simp only [List.map_cons, List.map_nil, PointRun.slice, slice, last, List.take_length]
        exact .whole (by rw [List.length_drop]; omega)

theorem cutAt_uniform {mark : Bool} {r q : PointRun V} (h : IsUniform mark r) {start : ℕ} {splits : List ℕ}
    (mem : q ∈ cutAt r start splits) : IsUniform mark q := by
  induction splits generalizing start with
  | nil =>
    rw [cutAt] at mem
    split at mem
    · rw [List.mem_singleton.mp mem]
      exact h.slice _ _
    · simp at mem
  | cons s splits ih =>
    rw [cutAt] at mem
    split at mem
    · rcases List.mem_cons.mp mem with rfl | mem
      · exact h.slice _ _
      · exact ih mem
    · exact ih mem

variable [Vertex V]

theorem cornerSplits_lt {idx s : ℕ} {ps cs : List V} (mem : s ∈ cornerSplits idx ps cs) : s < idx + ps.length := by
  induction ps generalizing idx cs with
  | nil => simp [cornerSplits] at mem
  | cons p ps ih =>
    cases cs with
    | nil => simp [cornerSplits] at mem
    | cons c cs =>
      simp only [List.length_cons]
      rw [cornerSplits] at mem
      split at mem
      · rcases List.mem_cons.mp mem with rfl | mem
        · omega
        · have := ih mem
          omega
      · have := ih mem
        omega

theorem splitRunAtCorners_pieces {pts : List V} (long : 2 ≤ pts.length) (flags : List Bool) (thresholdDeg : ℝ) :
    Pieces pts ((splitRunAtCorners pts flags thresholdDeg).map PointRun.pts) := by
  unfold splitRunAtCorners
  extract_lets corners
  have whole : Pieces pts ([(⟨pts, flags⟩ : PointRun V)].map PointRun.pts) := .whole long
  split
  · exact whole
  · have cut : Pieces (pts.drop 0) ((cutAt ⟨pts, flags⟩ 0 (cornerSplits 0 pts corners)).map PointRun.pts) := by
      refine cutAt_pieces (r := ⟨pts, flags⟩) long fun s mem => ?_
      simpa using cornerSplits_lt mem
    split
    · exact whole
    · exact cut

theorem splitRunAtCorners_uniform {mark : Bool} (pts : List V) (thresholdDeg : ℝ) {q : PointRun V}
    (mem : q ∈ splitRunAtCorners pts (List.replicate pts.length mark) thresholdDeg) : IsUniform mark q := by
  have whole : IsUniform mark (⟨pts, List.replicate pts.length mark⟩ : PointRun V) := rfl
  unfold splitRunAtCorners at mem
  extract_lets corners at mem
  split at mem
  · rwa [List.mem_singleton.mp mem]
  · split at mem
    · rwa [List.mem_singleton.mp mem]
    · exact cutAt_uniform whole mem

/-! ### `merge_collinear_runs` -/

variable {thresholdDeg transitMax : ℝ}

theorem extend_of_joint {r c : PointRun V} (some : r.pts ≠ []) (joint : r.pts.getLast? = c.pts.head?) :
    r.extend c = ⟨r.pts ++ c.pts.tail, r.flags ++ c.flags.tail⟩ := by
  have last : r.pts.getLast? = Option.some (r.pts.getLast some) := List.getLast?_eq_some_getLast some
  rw [PointRun.extend, ← joint, last]
  simp only [hypot_self]
  rw [if_pos (by norm_num), List.drop_one, List.drop_one]

theorem IsUniform.extend {mark : Bool} {r c : PointRun V} (hr : IsUniform mark r) (hc : IsUniform mark c) :
    IsUniform mark (r.extend c) := by
  unfold PointRun.extend
  extract_lets start
  simp only [IsUniform] at hr hc ⊢
  rw [hr, hc]
  simp

/-- As many flags as points. -/
def Balanced (r : PointRun V) : Prop := r.flags.length = r.pts.length

omit [Vertex V] in
theorem IsUniform.balanced {mark : Bool} {r : PointRun V} (h : IsUniform mark r) : Balanced r := by
  rw [Balanced, show r.flags = _ from h, List.length_replicate]

theorem Balanced.extend {r c : PointRun V} (hr : Balanced r) (hc : Balanced c) : Balanced (r.extend c) := by
  unfold PointRun.extend
  extract_lets start
  simp only [Balanced, List.length_append, List.length_drop] at hr hc ⊢
  omega

/-- Runs that share their joints are merged into runs that share theirs. -/
theorem mergeFrom_pieces {l : List V} {r : PointRun V} {rs : List (PointRun V)}
    (h : Pieces l ((r :: rs).map PointRun.pts)) :
    Pieces l ((mergeFrom thresholdDeg transitMax r rs).map PointRun.pts) := by
  induction rs generalizing r l with
  | nil => exact h
  | cons c rs ih =>
    rw [mergeFrom]
    split
    · have some : r.pts ≠ [] := List.ne_nil_of_length_pos (by have := h.long_of_mem List.mem_cons_self; omega)
      apply ih
      rw [List.map_cons, extend_of_joint some h.joint]
      exact h.fuse
    · obtain ⟨l', -, tail, cons⟩ := h.uncons
      exact cons _ (ih tail)

/-- What appending keeps, merging keeps. -/
theorem mergeFrom_forall {keeps : PointRun V → Prop} (extend : ∀ r c, keeps r → keeps c → keeps (r.extend c))
    {r q : PointRun V} {rs : List (PointRun V)} (hr : keeps r) (hrs : ∀ c ∈ rs, keeps c)
    (mem : q ∈ mergeFrom thresholdDeg transitMax r rs) : keeps q := by
  induction rs generalizing r with
  | nil => rwa [List.mem_singleton.mp mem]
  | cons c rs ih =>
    rw [List.forall_mem_cons] at hrs
    rw [mergeFrom] at mem
    split at mem
    · exact ih (extend _ _ hr hrs.1) hrs.2 mem
    · rcases List.mem_cons.mp mem with rfl | mem
      · exact hr
      · exact ih hrs.1 hrs.2 mem

theorem mergeFrom_ne_nil (r : PointRun V) (rs : List (PointRun V)) :
    mergeFrom thresholdDeg transitMax r rs ≠ [] := by
  induction rs generalizing r with
  | nil => simp [mergeFrom]
  | cons c rs ih =>
    rw [mergeFrom]
    split
    · exact ih _
    · simp

/-- Merging goes on with the last run built so far. -/
theorem mergeFrom_append {r c last : PointRun V} {rs init : List (PointRun V)}
    (built : mergeFrom thresholdDeg transitMax r rs = init ++ [last]) (more : List (PointRun V)) :
    mergeFrom thresholdDeg transitMax r (rs ++ c :: more) =
      init ++ mergeFrom thresholdDeg transitMax last (c :: more) := by
  induction rs generalizing r init with
  | nil =>
    obtain ⟨rfl, rfl⟩ : init = [] ∧ r = last := by
      cases init <;> simp_all [mergeFrom]
    rfl
  | cons c' rs ih =>
    rw [List.cons_append, mergeFrom]
    rw [mergeFrom] at built
    split at built
    case isTrue joins => rw [if_pos joins, ih built]
    case isFalse apart =>
      rw [if_neg apart]
      cases init with
      | nil => exact absurd (List.cons.inj built).2 (mergeFrom_ne_nil c' rs)
      | cons r' init =>
        obtain ⟨rfl, rest⟩ := List.cons.inj built
        rw [ih rest, List.cons_append]

/-- The run built so far begins one of the merged runs. -/
theorem mergeFrom_starts (t m : ℝ) (r : PointRun V) (rs : List (PointRun V)) :
    ∃ q ∈ mergeFrom t m r rs, r.pts <+: q.pts ∧ r.flags <+: q.flags := by
  induction rs generalizing r with
  | nil => exact ⟨r, by simp [mergeFrom], List.prefix_rfl, List.prefix_rfl⟩
  | cons c rs ih =>
    rw [mergeFrom]
    split
    · obtain ⟨q, mem, pts, flags⟩ := ih (r.extend c)
      exact ⟨q, mem, (List.prefix_append _ _).trans pts, (List.prefix_append _ _).trans flags⟩
    · exact ⟨r, List.mem_cons_self, List.prefix_rfl, List.prefix_rfl⟩

/-! ### The runs of a drawn path before conditioning -/

variable (p : ConditionParams)

def cornerPieces (d : DrawnRun V) : List (PointRun V) :=
  splitRunAtCorners d.pts (List.replicate d.pts.length d.mark) p.segmentCornerThresholdDeg

/-- What becomes of a drawn run on its own. -/
def mergedPieces (d : DrawnRun V) : List (PointRun V) :=
  mergeCollinearRuns (cornerPieces p d) p.segmentCornerThresholdDeg p.transitMergeMaxLen

/-- `merge_collinear_runs` takes the last piece of `d` and the first of `d'` for one run. -/
def Fuses (d d' : DrawnRun V) : Prop :=
  ∃ prev ∈ (mergedPieces p d).getLast?, ∃ cur ∈ (cornerPieces p d').head?,
    mergeable p.segmentCornerThresholdDeg p.transitMergeMaxLen prev cur = true

variable {p}

theorem cornerPieces_pieces {d : DrawnRun V} (long : 2 ≤ d.pts.length) :
    Pieces d.pts ((cornerPieces p d).map PointRun.pts) :=
  splitRunAtCorners_pieces long _ _

theorem cornerPieces_uniform {d : DrawnRun V} {r : PointRun V} (mem : r ∈ cornerPieces p d) : IsUniform d.mark r :=
  splitRunAtCorners_uniform _ _ mem

theorem cornerPieces_cons {d : DrawnRun V} (long : 2 ≤ d.pts.length) : ∃ r rs, cornerPieces p d = r :: rs :=
  List.exists_cons_of_ne_nil fun none => (cornerPieces_pieces (p := p) long).ne_nil (by simp [none])

theorem mergedPieces_pieces {d : DrawnRun V} (long : 2 ≤ d.pts.length) :
    Pieces d.pts ((mergedPieces p d).map PointRun.pts) := by
  obtain ⟨r, rs, same⟩ := cornerPieces_cons (p := p) long
  rw [mergedPieces, same]
  exact mergeFrom_pieces (same ▸ cornerPieces_pieces long)

theorem mergedPieces_uniform {d : DrawnRun V} {r : PointRun V} (long : 2 ≤ d.pts.length)
    (mem : r ∈ mergedPieces p d) : IsUniform d.mark r := by
  obtain ⟨r₀, rs, same⟩ := cornerPieces_cons (p := p) long
  rw [mergedPieces, same] at mem
  have uniform : ∀ c ∈ r₀ :: rs, IsUniform d.mark c := fun c hc => cornerPieces_uniform (same ▸ hc)
  rw [List.forall_mem_cons] at uniform
  exact mergeFrom_forall (fun _ _ => IsUniform.extend) uniform.1 uniform.2 mem

theorem mergedPieces_concat {d : DrawnRun V} (long : 2 ≤ d.pts.length) :
    ∃ init last, mergedPieces p d = init ++ [last] := by
  have some : mergedPieces p d ≠ [] := fun none => (mergedPieces_pieces (p := p) long).ne_nil (by simp [none])
  exact ⟨_, _, (List.dropLast_append_getLast some).symm⟩

theorem absorbShortConnectors_off {pts : List V} {flags : List Bool} {absorb minCorner : ℝ} {must : KeySet}
    (off : absorb ≤ 0) : absorbShortConnectors pts flags absorb minCorner must = ⟨pts, flags⟩ := by
  rw [absorbShortConnectors, if_pos (.inl off)]

theorem autoRuns_stored {ds : List (DrawnRun V)} (h : Drawn ds) (some : ds ≠ []) (off : p.connectorAbsorb ≤ 0)
    (must : KeySet) :
    autoRuns p must ((stored ds).map Prod.fst) ((stored ds).map Prod.snd) =
      mergeCollinearRuns (ds.flatMap (cornerPieces p)) p.segmentCornerThresholdDeg p.transitMergeMaxLen := by
  unfold autoRuns
  simp only [splitRunsByFlag_stored h some, absorbShortConnectors_off off, List.flatMap_map]
  rfl

/-- Merging goes run by run, and across a boundary where two drawn runs fuse. -/
theorem mergeCollinearRuns_cons {d d' : DrawnRun V} {ds : List (DrawnRun V)} (long : 2 ≤ d.pts.length)
    {cur : PointRun V} {more init : List (PointRun V)} {last : PointRun V}
    (next : (d' :: ds).flatMap (cornerPieces p) = cur :: more) (built : mergedPieces p d = init ++ [last]) :
    mergeCollinearRuns ((d :: d' :: ds).flatMap (cornerPieces p)) p.segmentCornerThresholdDeg p.transitMergeMaxLen =
      init ++ mergeFrom p.segmentCornerThresholdDeg p.transitMergeMaxLen last (cur :: more) := by
  obtain ⟨r, rs, same⟩ := cornerPieces_cons (p := p) long
  rw [mergedPieces, same] at built
  rw [List.flatMap_cons, next, same]
  exact mergeFrom_append built more

theorem fuses_iff {d d' : DrawnRun V} {init rest : List (PointRun V)} {last cur : PointRun V}
    (built : mergedPieces p d = init ++ [last]) (next : cornerPieces p d' = cur :: rest) :
    Fuses p d d' ↔ mergeable p.segmentCornerThresholdDeg p.transitMergeMaxLen last cur = true := by
  simp [Fuses, built, next]

/-- Where no two drawn runs fuse, each becomes what it becomes on its own. -/
theorem mergeCollinearRuns_apart {ds : List (DrawnRun V)} (long : ∀ d ∈ ds, 2 ≤ d.pts.length)
    (apart : ds.IsChain fun d d' => ¬Fuses p d d') :
    mergeCollinearRuns (ds.flatMap (cornerPieces p)) p.segmentCornerThresholdDeg p.transitMergeMaxLen =
      ds.flatMap (mergedPieces p) := by
  induction ds with
  | nil => rfl
  | cons d ds ih =>
    cases ds with
    | nil => simp [mergedPieces]
    | cons d' ds =>
      simp only [List.forall_mem_cons] at long
      rw [List.isChain_cons_cons] at apart
      obtain ⟨init, last, built⟩ := mergedPieces_concat (p := p) long.1
      obtain ⟨cur, rest, next⟩ := cornerPieces_cons (p := p) long.2.1
      have follow := ih (List.forall_mem_cons.mpr long.2) apart.2
      have split : (d' :: ds).flatMap (cornerPieces p) = cur :: (rest ++ ds.flatMap (cornerPieces p)) := by
        rw [List.flatMap_cons, next, List.cons_append]
      rw [mergeCollinearRuns_cons long.1 split built, mergeFrom, if_neg, List.flatMap_cons, built, ← follow, split]
      · simp [mergeCollinearRuns]
      · simpa using (fuses_iff built next).not.mp apart.1

/-- The pieces of all drawn runs are pieces of the stored path. -/
theorem stored_pieces {ds : List (DrawnRun V)} (h : Drawn ds) (some : ds ≠ []) :
    Pieces ((stored ds).map Prod.fst) ((ds.flatMap (cornerPieces p)).map PointRun.pts) := by
  induction ds with
  | nil => exact absurd rfl some
  | cons d ds ih =>
    have first : Pieces d.pts ((cornerPieces p d).map PointRun.pts) :=
      cornerPieces_pieces (h.long d List.mem_cons_self)
    cases ds with
    | nil => simpa [stored, later, Function.comp_def] using first
    | cons d' ds =>
      have rest := ih h.tail (by simp)
      have joint : ∃ x, d.pts.getLast? = .some x ∧ d'.pts.head? = .some x := h.joint rfl
      obtain ⟨x, last, head⟩ := joint
      obtain ⟨tail, same⟩ : ∃ tail, d'.pts = x :: tail := by
        cases h : d'.pts <;> simp_all
      have joined := first.append rest (by simp [stored, same, last])
      simpa [stored, later, same, Function.comp_def] using joined

/-- Two drawn runs that fuse end up in one run, where their shared vertex has the flag of the earlier one. -/
theorem extend_boundary {d d' : DrawnRun V} {init rest : List (PointRun V)} {last cur : PointRun V} {v : V}
    (long : 2 ≤ d.pts.length) (long' : 2 ≤ d'.pts.length) (ends : d.pts.getLast? = some v)
    (starts : d'.pts.head? = some v) (built : mergedPieces p d = init ++ [last])
    (next : cornerPieces p d' = cur :: rest) :
    ∃ front w, d'.pts[1]? = some w ∧ front ++ [v, w] <+: (last.extend cur).pts ∧
      List.replicate (front.length + 1) d.mark ++ [d'.mark] <+: (last.extend cur).flags := by
  have lastUniform : IsUniform d.mark last := mergedPieces_uniform (p := p) long (by simp [built])
  have lastEnd : last.pts.getLast? = some v := by
    have := (mergedPieces_pieces (p := p) long).last
    rwa [built, ends, List.map_append, List.map_singleton, List.getLast?_concat, Option.bind_some] at this
  obtain ⟨front, same⟩ : ∃ front, last.pts = front ++ [v] := List.getLast?_eq_some_iff.mp lastEnd
  have curPieces := cornerPieces_pieces (p := p) long'
  rw [next, List.map_cons] at curPieces
  have curUniform : IsUniform d'.mark cur := cornerPieces_uniform (p := p) (by simp [next])
  have curLong := curPieces.long_of_mem List.mem_cons_self
  obtain ⟨w, more, curPts⟩ : ∃ w more, cur.pts = v :: w :: more := by
    have head := curPieces.head
    match h : cur.pts with
    | v' :: w :: more =>
      obtain rfl : v' = v := by simpa [h, starts] using head
      exact ⟨w, more, rfl⟩
    | [_] | [] => simp [h] at curLong
  refine ⟨front, w, ?_, ?_⟩
  · obtain ⟨tail, whole⟩ := curPieces.isPrefix
    rw [← whole, curPts]
    rfl
  · rw [extend_of_joint (by simp [same]) (by rw [lastEnd, curPts]; rfl)]
    refine ⟨⟨more, by simp [same, curPts]⟩, ⟨List.replicate more.length d'.mark, ?_⟩⟩
    rw [show last.flags = _ from lastUniform, show cur.flags = _ from curUniform, same, curPts]
    simp [List.replicate_succ]

/-- Where two neighbouring drawn runs fuse, a run of the result has both flags at their boundary. -/
theorem mergeCollinearRuns_fused {ds : List (DrawnRun V)} (h : Drawn ds)
    (fused : ¬ds.IsChain fun d d' => ¬Fuses p d d') :
    ∃ before d d' after, ds = before ++ d :: d' :: after ∧
      ∃ q ∈ mergeCollinearRuns (ds.flatMap (cornerPieces p)) p.segmentCornerThresholdDeg p.transitMergeMaxLen,
        ∃ front v w, d'.pts.head? = some v ∧ d'.pts[1]? = some w ∧ front ++ [v, w] <+: q.pts ∧
          List.replicate (front.length + 1) d.mark ++ [d'.mark] <+: q.flags := by
  induction ds with
  | nil => exact absurd .nil fused
  | cons d ds ih =>
    cases ds with
    | nil => exact absurd (.singleton d) fused
    | cons d' ds =>
      have long := h.long d List.mem_cons_self
      have long' := h.long d' (by simp)
      obtain ⟨init, last, built⟩ := mergedPieces_concat (p := p) long
      obtain ⟨cur, rest, next⟩ := cornerPieces_cons (p := p) long'
      have split : (d' :: ds).flatMap (cornerPieces p) = cur :: (rest ++ ds.flatMap (cornerPieces p)) := by
        rw [List.flatMap_cons, next, List.cons_append]
      rw [mergeCollinearRuns_cons long split built, mergeFrom]
      by_cases joins : Fuses p d d'
      · rw [if_pos ((fuses_iff built next).mp joins)]
        have joint : ∃ v, d.pts.getLast? = some v ∧ d'.pts.head? = some v := h.joint rfl
        obtain ⟨v, ends, starts⟩ := joint
        obtain ⟨front, w, second, pts, flags⟩ := extend_boundary long long' ends starts built next
        obtain ⟨q, mem, qpts, qflags⟩ := mergeFrom_starts p.segmentCornerThresholdDeg p.transitMergeMaxLen
          (last.extend cur) (rest ++ ds.flatMap (cornerPieces p))
        exact ⟨[], d, d', ds, rfl, q, List.mem_append_right _ mem, front, v, w, starts, second, pts.trans qpts,
          flags.trans qflags⟩
      · rw [if_neg (by simpa using (fuses_iff built next).not.mp joins)]
        have later : ¬(d' :: ds).IsChain fun d d' => ¬Fuses p d d' := fun chain =>
          fused (List.isChain_cons_cons.mpr ⟨joins, chain⟩)
        obtain ⟨before, e, e', after, same, q, mem, more⟩ := ih h.tail later
        rw [split] at mem
        exact ⟨d :: before, e, e', after, by rw [same, List.cons_append], q,
          List.mem_append_right _ (List.mem_cons_of_mem _ mem), more⟩

/-! ### The conditioned runs -/

theorem conditionPath_undropped {raw : List (RawPoint V)} (kept : (conditionPath raw p).2 = 0) :
    (conditionPath raw p).1 = conditionedRuns raw p := by
  unfold conditionPath at kept ⊢
  extract_lets at kept ⊢
  split at kept
  case isTrue drop =>
    simp only at kept
    omega
  case isFalse none => rw [if_neg none]

/-- A raw path that stores the drawn runs. -/
structure Stores (raw : List (RawPoint V)) (ds : List (DrawnRun V)) : Prop where
  drawn : Drawn ds
  some : ds ≠ []
  vertices : raw.map RawPoint.vertex = (stored ds).map Prod.fst
  flags : raw.map RawPoint.spray = (stored ds).map Prod.snd

theorem Stores.conditionedRuns {raw : List (RawPoint V)} {ds : List (DrawnRun V)} (h : Stores raw ds)
    (auto : normalizeTrackingProfile p.trackingProfile = .auto) (off : p.connectorAbsorb ≤ 0) :
    Rpp.conditionedRuns raw p =
      (mergeCollinearRuns (ds.flatMap (cornerPieces p)) p.segmentCornerThresholdDeg p.transitMergeMaxLen).map
        (conditionRun p (mustHitKeys raw)) := by
  have some : raw ≠ [] := by
    obtain ⟨d, ds, rfl⟩ := List.exists_cons_of_ne_nil h.some
    have long := h.drawn.long d List.mem_cons_self
    rintro rfl
    have vertices := congrArg List.length h.vertices
    simp only [List.map_nil, List.length_nil, stored, List.length_map, List.length_append] at vertices
    omega
  rw [Rpp.conditionedRuns, if_neg some]
  simp only [rawRuns, if_pos auto, h.vertices, h.flags, autoRuns_stored h.drawn h.some off]

theorem conditionVerts_segment {must : KeySet} {rr : PointRun V}
    (segment : (conditionRun p must rr).profile = .segment) :
    conditionVerts p must rr = simplifyForProfile rr.pts (some rr.flags) 5.0 p.segmentSimplifyMaxOffset must := by
  rw [conditionRun_profile] at segment
  rw [conditionVerts, segment]

theorem conditionedRuns_balanced {raw : List (RawPoint V)} {r : ConditionedRun V} (mem : r ∈ conditionedRuns raw p)
    (segment : r.profile = .segment) : r.flags.length = r.pts.length := by
  rw [conditionedRuns] at mem
  split at mem
  · simp at mem
  · obtain ⟨rr, -, rfl⟩ := List.mem_map.mp mem
    rw [conditionRun_pts, conditionRun_flags, conditionVerts_segment segment]
    exact simplifyForProfile_balanced _ _ _ _ _

/-- A conditioned run that lies in one drawn run: some of its vertices, its flag. -/
structure Within (d : DrawnRun V) (r : ConditionedRun V) : Prop where
  sublist : r.pts.Sublist d.pts
  flags : r.flags = List.replicate r.pts.length d.mark
  some : r.pts ≠ []

theorem conditionRun_within {d : DrawnRun V} (long : 2 ≤ d.pts.length) {must : KeySet} {rr : PointRun V}
    (mem : rr ∈ mergedPieces p d) (segment : (conditionRun p must rr).profile = .segment) :
    Within d (conditionRun p must rr) ∧ (conditionRun p must rr).pts.head? = rr.pts.head? := by
  have pieces := mergedPieces_pieces (p := p) long
  have inside := List.mem_map_of_mem (f := PointRun.pts) mem
  have some : rr.pts ≠ [] := List.ne_nil_of_length_pos (by have := pieces.long_of_mem inside; omega)
  have simple : conditionVerts p must rr =
      simplifyForProfile rr.pts (.some (List.replicate rr.pts.length d.mark)) 5.0 p.segmentSimplifyMaxOffset must := by
    rw [conditionVerts_segment segment, ← mergedPieces_uniform long mem]
  obtain ⟨flags, sublist, head⟩ := simplifyForProfile_uniform some _ _ _ _ simple
  rw [← conditionRun_pts] at sublist flags head
  rw [← conditionRun_flags] at flags
  refine ⟨⟨sublist.trans (pieces.isInfix inside).sublist, flags, fun none => ?_⟩, head⟩
  rw [none] at head
  exact some (List.head?_eq_none_iff.mp head.symm)

/-- The runs made of the drawn run `d`. -/
def runsOf (p : ConditionParams) (must : KeySet) (d : DrawnRun V) : List (ConditionedRun V) :=
  (mergedPieces p d).map (conditionRun p must)

/-- Where no two drawn runs fuse, every conditioned run lies in one drawn run. -/
theorem Stores.apart {raw : List (RawPoint V)} {ds : List (DrawnRun V)} (h : Stores raw ds)
    (auto : normalizeTrackingProfile p.trackingProfile = .auto) (off : p.connectorAbsorb ≤ 0)
    (apart : ds.IsChain fun d d' => ¬Fuses p d d') :
    Rpp.conditionedRuns raw p = ds.flatMap (runsOf p (mustHitKeys raw)) := by
  rw [h.conditionedRuns auto off, mergeCollinearRuns_apart h.drawn.long apart, List.map_flatMap]
  rfl

theorem runsOf_start {d : DrawnRun V} (long : 2 ≤ d.pts.length) {must : KeySet}
    (segment : ∀ r ∈ runsOf p must d, r.profile = .segment) :
    ∃ r rs, runsOf p must d = r :: rs ∧ r.pts.head? = d.pts.head? := by
  obtain ⟨rr, rrs, same⟩ : ∃ rr rrs, mergedPieces p d = rr :: rrs := by
    obtain ⟨init, last, same⟩ := mergedPieces_concat (p := p) long
    cases init <;> simp [same]
  refine ⟨_, _, by rw [runsOf, same, List.map_cons], ?_⟩
  have mem : rr ∈ mergedPieces p d := by simp [same]
  rw [(conditionRun_within long mem (segment _ (List.mem_map_of_mem mem))).2]
  have pieces := mergedPieces_pieces (p := p) long
  rw [same, List.map_cons] at pieces
  exact pieces.head

theorem runsOf_within {d : DrawnRun V} (long : 2 ≤ d.pts.length) {must : KeySet} {r : ConditionedRun V}
    (mem : r ∈ runsOf p must d) (segment : r.profile = .segment) : Within d r := by
  obtain ⟨rr, inside, rfl⟩ := List.mem_map.mp mem
  exact (conditionRun_within long inside segment).1

/-- Where two drawn runs fuse, a conditioned run has the flag of the earlier one on the first stretch of the
later one. -/
theorem Stores.fused {raw : List (RawPoint V)} {ds : List (DrawnRun V)} (h : Stores raw ds)
    (auto : normalizeTrackingProfile p.trackingProfile = .auto) (off : p.connectorAbsorb ≤ 0)
    (far : (raw.map RawPoint.vertex).IsChain Far) (fused : ¬ds.IsChain fun d d' => ¬Fuses p d d')
    (segment : ∀ r ∈ Rpp.conditionedRuns raw p, r.profile = .segment) :
    ∃ before d d' after, ds = before ++ d :: d' :: after ∧
      ∃ r ∈ Rpp.conditionedRuns raw p, ∃ v w l l', d'.pts.head? = .some v ∧ d'.pts[1]? = .some w ∧
        r.pts = (l ++ (v, d.mark) :: (w, d'.mark) :: l').map Prod.fst ∧
        r.flags = (l ++ (v, d.mark) :: (w, d'.mark) :: l').map Prod.snd := by
  rw [h.conditionedRuns auto off] at segment ⊢
  obtain ⟨before, d, d', after, same, q, mem, front, v, w, first, second, pts, flags⟩ :=
    mergeCollinearRuns_fused h.drawn fused
  refine ⟨before, d, d', after, same, _, List.mem_map_of_mem mem, v, w, ?_⟩
  have segment := segment _ (List.mem_map_of_mem mem)
  obtain ⟨r, rs, pieces⟩ : ∃ r rs, ds.flatMap (cornerPieces p) = r :: rs :=
    List.exists_cons_of_ne_nil fun none => (stored_pieces (p := p) h.drawn h.some).ne_nil (by simp [none])
  -- the run is a stretch of the stored path, with a flag for every point
  have whole : Pieces ((stored ds).map Prod.fst)
      ((mergeFrom p.segmentCornerThresholdDeg p.transitMergeMaxLen r rs).map PointRun.pts) :=
    mergeFrom_pieces (pieces ▸ stored_pieces h.drawn h.some)
  rw [pieces] at mem
  have inside : q.pts <:+: raw.map RawPoint.vertex := by
    rw [h.vertices]
    exact whole.isInfix (List.mem_map_of_mem mem)
  have balanced : Balanced q := by
    have all : ∀ c ∈ r :: rs, Balanced c := by
      intro c hc
      rw [← pieces, List.mem_flatMap] at hc
      obtain ⟨e, -, hc⟩ := hc
      exact (cornerPieces_uniform hc).balanced
    rw [List.forall_mem_cons] at all
    exact mergeFrom_forall (fun _ _ => Balanced.extend) all.1 all.2 mem
  have change : d.mark ≠ d'.mark := by
    have chain := h.drawn.chain
    rw [same] at chain
    exact (List.isChain_append_cons_cons.mp chain).2.1.1
  obtain ⟨rest, hpts⟩ := pts
  obtain ⟨frest, hflags⟩ := flags
  have qpts : q.pts = front ++ v :: w :: rest := by simp [← hpts]
  have qflags : q.flags = List.replicate front.length d.mark ++ d.mark :: d'.mark :: frest := by
    simp [← hflags, List.replicate_succ']
  have apart := List.IsChain.infix far inside
  obtain ⟨l, l', simple⟩ := simplifyForProfile_change qpts qflags (by simp) balanced apart change 5.0
    p.segmentSimplifyMaxOffset (mustHitKeys raw)
  refine ⟨l, l', first, second, ?_⟩
  rw [← conditionVerts_segment segment] at simple
  simp only [conditionRun, simple, PointRun.pts_ofVerts, PointRun.flags_ofVerts, and_self]

end

end Dyx3.Rpp
