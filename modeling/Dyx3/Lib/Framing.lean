import Mathlib.Data.List.TakeWhile

/-!
Pieces of a stream that end with a separator: how they are cut when the stream arrives in parts, and the pieces before
the first one that is too long.
-/

namespace Dyx3.Lib

variable {α : Type*} [DecidableEq α]

/-- The finished pieces and the unfinished rest; `acc` is what the first piece has so far. -/
def cut (sep : α) (acc : List α) : List α → List (List α) × List α
  | [] => ([], acc)
  | x :: xs => if x = sep then (acc :: (cut sep [] xs).1, (cut sep [] xs).2) else cut sep (acc ++ [x]) xs

variable {sep : α}

theorem cut_append (acc xs ys : List α) :
    cut sep acc (xs ++ ys) = ((cut sep acc xs).1 ++ (cut sep (cut sep acc xs).2 ys).1, (cut sep (cut sep acc xs).2 ys).2) := by
  induction xs generalizing acc with
  | nil => rfl
  | cons x xs ih =>
    rw [List.cons_append, cut, cut]
    split
    · rw [ih]
      rfl
    · exact ih _

theorem cut_plain {xs : List α} (plain : sep ∉ xs) (acc : List α) : cut sep acc xs = ([], acc ++ xs) := by
  induction xs generalizing acc with
  | nil => simp [cut]
  | cons x xs ih =>
    have other : x ≠ sep := fun same => plain (by simp [same])
    rw [cut, if_neg other, ih (fun member => plain (List.mem_cons_of_mem x member))]
    simp

theorem cut_rest_plain {acc : List α} (plain : sep ∉ acc) (xs : List α) : sep ∉ (cut sep acc xs).2 := by
  induction xs generalizing acc with
  | nil => exact plain
  | cons x xs ih =>
    rw [cut]
    split
    · exact ih (by simp)
    · rename_i other
      exact ih (by simp [plain, Ne.symm other])

/-- What was left unfinished is put back in front of what comes next. -/
theorem cut_resume (xs ys : List α) :
    cut sep [] (xs ++ ys) =
      ((cut sep [] xs).1 ++ (cut sep [] ((cut sep [] xs).2 ++ ys)).1, (cut sep [] ((cut sep [] xs).2 ++ ys)).2) := by
  have rest : sep ∉ (cut sep [] xs).2 := cut_rest_plain (by simp) _
  rw [cut_append [] xs ys, cut_append [] (cut sep [] xs).2 ys, cut_plain rest]
  simp

theorem cut_first {acc xs piece : List α} {pieces : List (List α)} (pieced : (cut sep acc xs).1 = piece :: pieces) :
    acc.length ≤ piece.length := by
  induction xs generalizing acc with
  | nil => cases pieced
  | cons x xs ih =>
    rw [cut] at pieced
    split at pieced
    · exact (congrArg List.length (List.cons.inj pieced).1).le
    · have longer := ih pieced
      rw [List.length_append] at longer
      omega

theorem takeWhile_stops {β : Type*} {p : β → Bool} {l : List β} (stop : ∃ x ∈ l, p x = false) (l' : List β) :
    (l ++ l').takeWhile p = l.takeWhile p := by
  induction l with
  | nil => simp at stop
  | cons x l ih =>
    rw [List.cons_append, List.takeWhile_cons, List.takeWhile_cons]
    cases test : p x with
    | false => rfl
    | true =>
      obtain ⟨y, member, fails⟩ := stop
      rcases List.mem_cons.mp member with rfl | member
      · rw [test] at fails
        cases fails
      · rw [ih ⟨y, member, fails⟩]

/-- The finished pieces before the first one that is longer than `bound`. -/
def framed (sep : α) (bound : ℕ) (xs : List α) : List (List α) := (cut sep [] xs).1.takeWhile (·.length ≤ bound)

/-- A piece of the stream, finished or not, is longer than `bound`. -/
def Oversize (sep : α) (bound : ℕ) (xs : List α) : Prop :=
  (∃ piece ∈ (cut sep [] xs).1, bound < piece.length) ∨ bound < (cut sep [] xs).2.length

/-- After a piece that is too long nothing counts. -/
theorem framed_append {bound : ℕ} {xs : List α} (oversize : Oversize sep bound xs) (ys : List α) :
    framed sep bound (xs ++ ys) = framed sep bound xs := by
  unfold framed
  rw [cut_append]
  by_cases all : ∀ piece ∈ (cut sep [] xs).1, piece.length ≤ bound
  · have unfinished : bound < (cut sep [] xs).2.length := by
      rcases oversize with ⟨piece, member, long⟩ | long
      · exact absurd (all piece member) (by omega)
      · exact long
    rw [List.takeWhile_append_of_pos (by simpa using all)]
    have none : (cut sep (cut sep [] xs).2 ys).1.takeWhile (·.length ≤ bound) = [] := by
      cases pieced : (cut sep (cut sep [] xs).2 ys).1 with
      | nil => rfl
      | cons piece pieces =>
        have longer := cut_first pieced
        rw [List.takeWhile_cons_of_neg]
        simp only [decide_eq_true_eq]
        omega
    rw [none, List.append_nil]
    exact (List.takeWhile_eq_self_iff.mpr (by simpa using all)).symm
  · exact takeWhile_stops (by simpa using all) _

/-- Keeping what satisfies `p` is keeping it up to the first failure exactly when nothing satisfies it after that. -/
theorem filter_eq_takeWhile {β : Type*} (p : β → Bool) (l : List β) :
    l.filter p = l.takeWhile p ↔ ∀ x ∈ l.dropWhile p, p x = false := by
  have kept : (l.takeWhile p).filter p = l.takeWhile p := List.filter_eq_self.mpr fun x => List.mem_takeWhile_imp
  have split : l.filter p = l.takeWhile p ++ (l.dropWhile p).filter p := by
    have parts := congrArg (List.filter p) (List.takeWhile_append_dropWhile (p := p) (l := l))
    rw [← parts, List.filter_append, kept]
  rw [split, List.append_right_eq_self, List.filter_eq_nil_iff]
  simp

end Dyx3.Lib
