import Mathlib.Data.List.Destutter
import Dyx3.Geometry.Plane

/-!
`resample_fixed`: arc-length resampling of a polyline with fixed knots.
-/

namespace Dyx3.Geometry

noncomputable section

variable {V : Type*} [Vertex V]

def kResampleMaxSamples : ℕ := 1000000

/-- Flags as the passes take them: an absent list, or one of another length, is all false. -/
def flagsFor (pts : List V) (flags : Option (List Bool)) : List Bool :=
  match flags with
  | some fs => if fs.length = pts.length then fs else List.replicate pts.length false
  | none => List.replicate pts.length false

/-- `while (seg + 1 < k1 && cum[seg + 1] < target) ++seg;` -/
def advanceSeg (cum : List ℝ) (k1 : ℕ) (target : ℝ) (seg : ℕ) : ℕ :=
  if seg + 1 < k1 ∧ cum.getD (seg + 1) 0 < target then advanceSeg cum k1 target (seg + 1) else seg
termination_by k1 - seg
decreasing_by omega

/-- Both endpoints and every inner fixed index, ascending and unique. -/
def knotsOf (last : ℕ) (fixed : List ℕ) : List ℕ :=
  let inner := (fixed.filter fun k => 0 < k ∧ k < last).mergeSort (· ≤ ·)
  0 :: inner.destutter (· ≠ ·) ++ [last]

/-- Samples of one span, both knots included; 0 for a coincident knot pair. A lone span always has
its two endpoints. -/
def spanCount (spans : ℕ) (spacing span : ℝ) : ℕ :=
  if 1 < spans ∧ span < 1e-12 then 0 else max 2 (⌈span / spacing⌉.toNat + 1)

section Span

variable (first : V) (pts : List V) (flags : List Bool) (cum : List ℝ)

/-- The sample at arc length `target` of segment `seg`. -/
def sampleAt (seg : ℕ) (target : ℝ) : V × Bool :=
  let segLen := cum.getD (seg + 1) 0 - cum.getD seg 0
  if segLen < 1e-12 then (pts.getD seg first, flags.getD seg false)
  else
    let t := max 0 (min 1 ((target - cum.getD seg 0) / segLen))
    let a := pos (pts.getD seg first)
    let b := pos (pts.getD (seg + 1) first)
    (made ⟨a.n + t * (b.n - a.n), a.e + t * (b.e - a.e)⟩,
      flags.getD seg false && flags.getD (seg + 1) false)

/-- The inner samples `js` of the span from knot `k0` to `k1` with `m` samples; `seg` only moves on. -/
def innerSamples (k0 k1 m : ℕ) : List ℕ → ℕ → List (V × Bool)
  | [], _ => []
  | j :: js, seg =>
    let target := cum.getD k0 0 + (j / (m - 1 : ℝ)) * (cum.getD k1 0 - cum.getD k0 0)
    let seg := advanceSeg cum k1 target seg
    sampleAt first pts flags cum seg target :: innerSamples k0 k1 m js seg

/-- The samples after the first vertex, span by span. A coincident pair adds nothing, except that
the path end replaces the sample before it. -/
def spanSamples (spacing : ℝ) (spans last : ℕ) (out : List (V × Bool)) : List (ℕ × ℕ) → List (V × Bool)
  | [] => out
  | (k0, k1) :: rest =>
    let m := spanCount spans spacing (cum.getD k1 0 - cum.getD k0 0)
    let knot := (pts.getD k1 first, flags.getD k1 false)
    let out :=
      if m = 0 then if k1 = last then out.dropLast ++ [knot] else out
      else out ++ innerSamples first pts flags cum k0 k1 m (List.range' 1 (m - 2)) k0 ++ [knot]
    spanSamples spacing spans last out rest

end Span

def resampleFixed (pts : List V) (spacing : ℝ) (flagsIn : Option (List Bool)) (fixed : List ℕ) :
    List V × List Bool :=
  let flags := flagsFor pts flagsIn
  match pts with
  | first :: _ :: _ =>
    if spacing ≤ 0 then (pts, flags)
    else
      let cum := cumulativeLengths pts
      let last := pts.length - 1
      if cum.getD last 0 < spacing ∧ fixed = [] then
        ([first, pts.getD last first], [flags.getD 0 false, flags.getD last false])
      else
        let knots := knotsOf last fixed
        let spans := knots.zip knots.tail
        let counts := spans.map fun s => spanCount spans.length spacing (cum.getD s.2 0 - cum.getD s.1 0)
        -- more samples than the bound are refused, never truncated
        if kResampleMaxSamples < 1 + (counts.map (· - 1)).sum then (pts, flags)
        else
          let out := spanSamples first pts flags cum spacing spans.length last
            [(first, flags.getD 0 false)] spans
          (out.map Prod.fst, out.map Prod.snd)
  | _ => (pts, flags)

end

end Dyx3.Geometry
