import Mathlib.Data.List.Basic
import Mathlib.Data.Option.Basic
import Mathlib.Data.Nat.Notation

/-!
The first place where a pattern occurs in a text, and what is known of it while the text is still arriving.
-/

namespace Dyx3.Lib

variable {α : Type*} [DecidableEq α]

/-- Where `pattern` first starts in the text. -/
def find (pattern : List α) : List α → Option ℕ
  | [] => if pattern = [] then some 0 else none
  | x :: xs => if pattern <+: x :: xs then some 0 else (find pattern xs).map (· + 1)

variable {pattern : List α}

theorem find_prefix {k : ℕ} {xs : List α} (first : find pattern xs = some k) : pattern <+: xs.drop k := by
  induction xs generalizing k with
  | nil =>
    rw [find] at first
    split at first
    · rename_i empty
      rw [empty]
      exact List.nil_prefix
    · cases first
  | cons x xs ih =>
    rw [find] at first
    split at first
    · cases first
      assumption
    · obtain ⟨j, later, rfl⟩ := Option.map_eq_some_iff.mp first
      exact ih later

/-- In what has arrived the pattern is found exactly when it has arrived completely. -/
theorem find_take (nonempty : pattern ≠ []) (n : ℕ) (xs : List α) :
    find pattern (xs.take n) = (find pattern xs).filter fun k => k + pattern.length ≤ n := by
  have size := List.length_pos_iff.mpr nonempty
  induction xs generalizing n with
  | nil => rw [List.take_nil, find, if_neg nonempty, Option.filter_none]
  | cons x xs ih =>
    cases n with
    | zero =>
      rw [List.take_zero, find, if_neg nonempty]
      symm
      rw [Option.filter_eq_none_iff]
      intro k _
      simp only [decide_eq_true_eq]
      omega
    | succ n =>
      rw [List.take_succ_cons, find, find, ih]
      by_cases here : pattern <+: x :: xs
      · rw [if_pos here, Option.filter_some]
        by_cases arrived : pattern.length ≤ n + 1
        · rw [← List.take_succ_cons, if_pos (List.prefix_take_iff.mpr ⟨here, arrived⟩), if_pos (by simpa using arrived)]
        · rw [← List.take_succ_cons, if_neg fun sooner => arrived (List.prefix_take_iff.mp sooner).2,
            if_neg (by simpa using arrived), Option.map_eq_none_iff, Option.filter_eq_none_iff]
          intro k _
          simp only [decide_eq_true_eq]
          omega
      · rw [if_neg here, ← List.take_succ_cons, if_neg fun sooner => here (List.prefix_take_iff.mp sooner).1]
        cases find pattern xs with
        | none => rfl
        | some k =>
          have shift : k + 1 + pattern.length ≤ n + 1 ↔ k + pattern.length ≤ n := by omega
          simp only [Option.filter_some, Option.map_some, decide_eq_true_eq, shift]
          split <;> rfl

theorem find_take_none (nonempty : pattern ≠ []) {n k : ℕ} {xs : List α} (first : find pattern xs = some k)
    (early : n < k + pattern.length) : find pattern (xs.take n) = none := by
  rw [find_take nonempty, first, Option.filter_some, if_neg (by simpa using early)]

theorem find_take_some (nonempty : pattern ≠ []) {n k : ℕ} {xs : List α} (first : find pattern xs = some k)
    (arrived : k + pattern.length ≤ n) : find pattern (xs.take n) = some k := by
  rw [find_take nonempty, first, Option.filter_some, if_pos (by simpa using arrived)]

/-- What is found in the part that has arrived stays the first. -/
theorem find_append (nonempty : pattern ≠ []) {k : ℕ} {xs : List α} (first : find pattern xs = some k) (ys : List α) :
    find pattern (xs ++ ys) = some k := by
  have arrived := find_take nonempty xs.length (xs ++ ys)
  rw [List.take_left, first] at arrived
  exact (Option.filter_eq_some_iff.mp arrived.symm).1

end Dyx3.Lib
