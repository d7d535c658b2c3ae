import Dyx3.Lib.JsonReader
import Mathlib.Data.List.Perm.Subperm

/-!
`json.dumps` of any value. A dictionary has its members in the order of their insertion; what is written is the
canonical text of the value with its members sorted.
-/

namespace Dyx3.Lib.Json

/-- `w` stands in `v`, so many containers deep. -/
inductive Nested : Json → ℕ → Json → Prop
  | self (v : Json) : Nested v 0 v
  | item {items : List Json} {v w : Json} {d : ℕ} : v ∈ items → Nested v d w → Nested (.arr items) (d + 1) w
  | field {fields : List (Str × Json)} {kv : Str × Json} {w : Json} {d : ℕ} :
    kv ∈ fields → Nested kv.2 d w → Nested (.obj fields) (d + 1) w

/-- Strings are joined, and a dictionary has one member for a key. -/
def Proper : Json → Prop
  | str s => Joined s
  | obj fields => fields.Pairwise (fun a b => a.1 ≠ b.1) ∧ ∀ kv ∈ fields, Joined kv.1
  | _ => True

/-- What `json.dumps` does not raise on: `allow_nan=False`, and CPython's limit on the digits of an integer. -/
def writable (limit : Option ℕ) : Json → Bool
  | int i => limit.all fun most => (Nat.toDigits 10 i.natAbs).length ≤ most
  | float x => x.isFinite
  | _ => true

/-- `json.dumps(v, sort_keys=True, separators=(",", ":"), ensure_ascii=True, allow_nan=False)`. -/
def jsonDumps (limit : Option ℕ) (v : Json) : Option (List Char) :=
  if v.leaves.all (writable limit) then some v.dumps else none

theorem jsonDumps_eq {limit : Option ℕ} {v : Json} {s : List Char} :
    jsonDumps limit v = some s ↔ (∀ x, float x ∈ v.leaves → x.isFinite = true) ∧ ShortInts limit v ∧ v.dumps = s := by
  have all : v.leaves.all (writable limit) = true ↔
      (∀ x, float x ∈ v.leaves → x.isFinite = true) ∧ ShortInts limit v := by
    rw [List.all_eq_true]
    constructor
    · intro each
      refine ⟨fun x member => each _ member, fun i member most here => ?_⟩
      have short := each _ member
      rw [Option.mem_def.mp here] at short
      exact of_decide_eq_true short
    · rintro ⟨finite, short⟩ w member
      cases w with
      | int i =>
        cases limit with
        | none => rfl
        | some most => exact decide_eq_true (short i member most rfl)
      | float x => exact finite x member
      | _ => rfl
  rw [jsonDumps]
  split
  · rename_i written
    obtain ⟨finite, short⟩ := all.mp written
    rw [Option.some.injEq]
    exact ⟨fun text => ⟨finite, short, text⟩, fun given => given.2.2⟩
  · rename_i raised
    rw [all] at raised
    exact ⟨nofun, fun given => absurd ⟨given.1, given.2.1⟩ raised⟩

/-! ### The sorted value -/

theorem sortKeys_map {β γ : Type} (f : β → γ) (fields : List (Str × β)) :
    sortKeys (fields.map fun kv => (kv.1, f kv.2)) = (sortKeys fields).map fun kv => (kv.1, f kv.2) := by
  symm
  exact List.map_mergeSort fun a _ b _ => rfl

theorem sortKeys_perm {β : Type} (fields : List (Str × β)) : (sortKeys fields).Perm fields := List.mergeSort_perm _ _

/-- Distinct keys come out in strict order. -/
theorem sortKeys_strict {β : Type} {fields : List (Str × β)} (distinct : fields.Pairwise fun a b => a.1 ≠ b.1) :
    (sortKeys fields).Pairwise fun a b => a.1 < b.1 := by
  have order : (sortKeys fields).Pairwise fun a b => (!decide (b.1 < a.1)) = true := by
    apply List.pairwise_mergeSort
    · intro a b c first second
      simp only [Bool.not_eq_true', decide_eq_false_iff_not, not_lt] at first second ⊢
      exact le_trans first second
    · intro a b
      rcases le_total a.1 b.1 with le | le
      · simp [not_lt.mpr le]
      · simp [not_lt.mpr le]
  have apart : (sortKeys fields).Pairwise fun a b => a.1 ≠ b.1 :=
    ((sortKeys_perm fields).symm.pairwise_iff fun differ => Ne.symm differ).mp distinct
  refine (order.and apart).imp ?_
  rintro a b ⟨before, differ⟩
  simp only [Bool.not_eq_true', decide_eq_false_iff_not, not_lt] at before
  exact lt_of_le_of_ne before differ

theorem fieldText_dumps (kv : Str × Json) : fieldText kv = memberText (kv.1, kv.2.dumps) := rfl

/-- A dictionary is written like its members in order. -/
theorem dumps_sorted {fields sorted : List (Str × Json)} (strict : sorted.Pairwise fun a b => a.1 < b.1)
    (length : fields.length = sorted.length)
    (each : ∀ kv ∈ sorted, (kv.1, kv.2.dumps) ∈ fields.map fun kv => (kv.1, kv.2.dumps)) :
    (obj fields).dumps = (obj sorted).dumps := by
  have distinct {l : List (Str × List Char)} (strict : l.Pairwise fun a b => a.1 < b.1) : l.Pairwise fun a b => a.1 ≠ b.1 :=
    strict.imp fun less => ne_of_lt less
  have order : (sorted.map fun kv => (kv.1, kv.2.dumps)).Pairwise fun a b => a.1 < b.1 := List.pairwise_map.mpr strict
  have once : (sorted.map fun kv => (kv.1, kv.2.dumps)).Nodup := by
    refine (distinct order).imp fun differ same => differ ?_
    rw [same]
  have subset : (sorted.map fun kv => (kv.1, kv.2.dumps)) ⊆ fields.map fun kv => (kv.1, kv.2.dumps) := by
    intro text member
    obtain ⟨kv, here, rfl⟩ := List.mem_map.mp member
    exact each kv here
  have perm : (sorted.map fun kv => (kv.1, kv.2.dumps)).Perm (fields.map fun kv => (kv.1, kv.2.dumps)) := by
    apply (List.subperm_of_subset once subset).perm_of_length_le
    rw [List.length_map, List.length_map]
    exact le_of_eq length
  have same : sortKeys (fields.map fun kv => (kv.1, kv.2.dumps)) = sorted.map fun kv => (kv.1, kv.2.dumps) := by
    have apart := (perm.pairwise_iff fun differ => Ne.symm differ).mp (distinct order)
    refine ((sortKeys_perm _).trans perm.symm).eq_of_pairwise (fun a b _ _ less more => ?_) (sortKeys_strict apart) order
    exact absurd less (lt_asymm more)
  rw [dumps, same, dumps_obj strict, List.map_map]
  rfl

/-- A value with the same text whose keys are in order, with the same leaves. -/
theorem exists_canonical {levels : ℕ} {v : Json} (within : ∀ d w, Nested v d w → d < levels ∧ Proper w)
    (finite : ∀ x, float x ∈ v.leaves → x.isFinite = true) :
    ∃ v', Canonical levels v' ∧ v'.dumps = v.dumps ∧ ∀ w, w ∈ v'.leaves ↔ w ∈ v.leaves := by
  have some : Nonempty Json := ⟨.null⟩
  induction levels generalizing v with
  | zero => exact absurd (within 0 v (.self v)).1 (Nat.not_lt_zero 0)
  | succ levels ih =>
    cases v with
    | arr items =>
      have each : ∀ v ∈ items, ∃ v', Canonical levels v' ∧ v'.dumps = v.dumps ∧ ∀ w, w ∈ v'.leaves ↔ w ∈ v.leaves := by
        intro v member
        refine ih (fun d w nested => ?_) fun x leaf => finite x ?_
        · have deeper := within (d + 1) w (.item member nested)
          exact ⟨by omega, deeper.2⟩
        · rw [leaves_arr]
          exact List.mem_flatten.mpr ⟨_, List.mem_map.mpr ⟨v, member, rfl⟩, leaf⟩
      choose! sorted canonical text leaves using each
      refine ⟨.arr (items.map sorted), ?_, ?_, ?_⟩
      · intro v' member
        obtain ⟨v, here, rfl⟩ := List.mem_map.mp member
        exact canonical v here
      · have same : (items.map sorted).map dumps = items.map dumps := by
          rw [List.map_map]
          exact List.map_congr_left text
        rw [dumps_arr, dumps_arr, same]
      · intro w
        rw [leaves_arr, leaves_arr, List.map_map, ← List.flatMap_def, ← List.flatMap_def, List.mem_flatMap, List.mem_flatMap]
        exact exists_congr fun v => and_congr_right fun here => leaves v here w
    | obj fields =>
      obtain ⟨distinct, joined⟩ := (within 0 _ (.self _)).2
      have each : ∀ kv ∈ fields, ∃ v', Canonical levels v' ∧ v'.dumps = kv.2.dumps ∧ ∀ w, w ∈ v'.leaves ↔ w ∈ kv.2.leaves := by
        intro kv member
        refine ih (fun d w nested => ?_) fun x leaf => finite x ?_
        · have deeper := within (d + 1) w (.field member nested)
          exact ⟨by omega, deeper.2⟩
        · rw [leaves_obj]
          exact List.mem_flatten.mpr ⟨_, List.mem_map.mpr ⟨kv, member, rfl⟩, leaf⟩
      choose! sorted canonical text leaves using each
      have order := sortKeys_perm (fields.map fun kv => (kv.1, sorted kv))
      have strict : (sortKeys (fields.map fun kv => (kv.1, sorted kv))).Pairwise fun a b => a.1 < b.1 :=
        sortKeys_strict (List.pairwise_map.mpr distinct)
      refine ⟨.obj (sortKeys (fields.map fun kv => (kv.1, sorted kv))), ⟨strict, ?_⟩, ?_, ?_⟩
      · intro kv member
        obtain ⟨kv, here, rfl⟩ := List.mem_map.mp (order.mem_iff.mp member)
        exact ⟨joined kv here, canonical kv here⟩
      · have same : fields.map (fun kv => (kv.1, kv.2.dumps)) =
            (fields.map fun kv => (kv.1, sorted kv)).map fun kv => (kv.1, kv.2.dumps) := by
          rw [List.map_map]
          exact List.map_congr_left fun kv here => Prod.ext rfl (text kv here).symm
        rw [dumps_obj strict, dumps, same, sortKeys_map, List.map_map]
        rfl
      · intro w
        rw [leaves_obj, leaves_obj, ← List.flatMap_def, ← List.flatMap_def, (order.flatMap_right _).mem_iff, List.flatMap_map,
          List.mem_flatMap, List.mem_flatMap]
        exact exists_congr fun kv => and_congr_right fun here => leaves kv here w
    | str s => exact ⟨.str s, (within 0 _ (.self _)).2, rfl, fun _ => .rfl⟩
    | float x =>
      refine ⟨.float x, finite x ?_, rfl, fun _ => .rfl⟩
      rw [leaves] <;> simp
    | null => exact ⟨.null, trivial, rfl, fun _ => .rfl⟩
    | bool b => exact ⟨.bool b, trivial, rfl, fun _ => .rfl⟩
    | int i => exact ⟨.int i, trivial, rfl, fun _ => .rfl⟩

/-- Sorted values are among those that are written. -/
theorem Canonical.nested {levels : ℕ} {v : Json} (canonical : Canonical levels v) :
    ∀ d w, Nested v d w → d < levels ∧ Proper w := by
  intro d w nested
  induction nested generalizing levels with
  | self v =>
    cases levels with
    | zero => exact canonical.elim
    | succ levels =>
      refine ⟨Nat.succ_pos levels, ?_⟩
      cases v with
      | str s => exact canonical
      | obj fields => exact ⟨canonical.1.imp fun less => ne_of_lt less, fun kv member => (canonical.2 kv member).1⟩
      | _ => trivial
  | item member _ ih =>
    cases levels with
    | zero => exact canonical.elim
    | succ levels =>
      have deeper := ih (canonical _ member)
      exact ⟨by omega, deeper.2⟩
  | field member _ ih =>
    cases levels with
    | zero => exact canonical.elim
    | succ levels =>
      have deeper := ih (canonical.2 _ member).2
      exact ⟨by omega, deeper.2⟩

end Dyx3.Lib.Json
