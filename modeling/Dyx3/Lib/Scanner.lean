import Mathlib.Data.List.Basic
import Mathlib.Data.List.Flatten

/-!
Scanners: what is buffered is taken off piece by piece, each time as the front of the buffer says, and what the front
cannot settle yet waits for more. A front that was settled stays settled when more arrives, so it makes no difference
how a stream is cut.
-/

namespace Dyx3.Lib

/-- `front xs` is the note and one less than the length of the piece at the front of `xs`. -/
structure Scanner (α ν : Type*) where
  front : List α → Option (ν × ℕ)
  fits {xs : List α} {note : ν} {n : ℕ} : front xs = some (note, n) → n < xs.length
  settled {xs : List α} {piece : ν × ℕ} (ys : List α) : front xs = some piece → front (xs ++ ys) = some piece

namespace Scanner

variable {α ν : Type*} (s : Scanner α ν)

/-- The pieces, and what waits. -/
def scan (xs : List α) : List (ν × List α) × List α :=
  match settled : s.front xs with
  | none => ([], xs)
  | some (note, n) => ((note, xs.take (n + 1)) :: (scan (xs.drop (n + 1))).1, (scan (xs.drop (n + 1))).2)
termination_by xs.length
decreasing_by
  all_goals
    have fits := s.fits settled
    rw [List.length_drop]
    omega

variable {s}

theorem scan_none {xs : List α} (waits : s.front xs = none) : s.scan xs = ([], xs) := by
  rw [scan]
  split
  · rfl
  · rename_i settled
    rw [waits] at settled
    cases settled

theorem scan_some {xs : List α} {note : ν} {n : ℕ} (settled : s.front xs = some (note, n)) :
    s.scan xs = ((note, xs.take (n + 1)) :: (s.scan (xs.drop (n + 1))).1, (s.scan (xs.drop (n + 1))).2) := by
  rw [scan]
  split
  · rename_i waits
    rw [waits] at settled
    cases settled
  · rename_i piece
    rw [piece] at settled
    cases settled
    rfl

/-- Piece by piece. -/
theorem scan_induction {motive : List α → Prop} (waits : ∀ xs, s.front xs = none → motive xs)
    (piece : ∀ xs note n, s.front xs = some (note, n) → motive (xs.drop (n + 1)) → motive xs) (xs : List α) : motive xs := by
  induction size : xs.length using Nat.strongRecOn generalizing xs with
  | ind size ih =>
    cases settled : s.front xs with
    | none => exact waits xs settled
    | some taken =>
      have fits := s.fits settled
      apply piece xs taken.1 taken.2 settled
      apply ih (xs.drop (taken.2 + 1)).length _ _ rfl
      rw [List.length_drop]
      omega

theorem scan_waits (xs : List α) : s.front (s.scan xs).2 = none := by
  induction xs using scan_induction (s := s) with
  | waits xs waits => rw [scan_none waits, waits]
  | piece xs note n settled ih =>
    rw [scan_some settled]
    exact ih

/-- Nothing is lost and nothing is made up. -/
theorem scan_pieces (xs : List α) : ((s.scan xs).1.map Prod.snd).flatten ++ (s.scan xs).2 = xs := by
  induction xs using scan_induction (s := s) with
  | waits xs waits =>
    rw [scan_none waits]
    rfl
  | piece xs note n settled ih =>
    rw [scan_some settled, List.map_cons, List.flatten_cons, List.append_assoc, ih, List.take_append_drop]

theorem scan_mem {xs : List α} {piece : ν × List α} (member : piece ∈ (s.scan xs).1) :
    ∃ ys n, s.front ys = some (piece.1, n) ∧ piece.2 = ys.take (n + 1) := by
  induction xs using scan_induction (s := s) with
  | waits xs waits =>
    rw [scan_none waits] at member
    cases member
  | piece xs note n settled ih =>
    rw [scan_some settled] at member
    rcases List.mem_cons.mp member with rfl | later
    · exact ⟨xs, n, settled, rfl⟩
    · exact ih later

/-- What waits is put in front of what comes next. -/
theorem scan_resume (xs ys : List α) :
    s.scan (xs ++ ys) = ((s.scan xs).1 ++ (s.scan ((s.scan xs).2 ++ ys)).1, (s.scan ((s.scan xs).2 ++ ys)).2) := by
  induction xs using scan_induction (s := s) with
  | waits xs waits =>
    rw [scan_none waits]
    rfl
  | piece xs note n settled ih =>
    have fits := s.fits settled
    rw [scan_some settled, scan_some (s.settled ys settled), List.take_append_of_le_length (by omega),
      List.drop_append_of_le_length (by omega), ih]
    rfl

/-- A stream of whole pieces is cut into them. -/
theorem scan_flatten (empty : s.front [] = none) {note : List α → ν} {pieces : List (List α)}
    (whole : ∀ piece ∈ pieces, piece ≠ [] ∧ s.front piece = some (note piece, piece.length - 1)) :
    s.scan pieces.flatten = (pieces.map fun piece => (note piece, piece), []) := by
  induction pieces with
  | nil => exact scan_none empty
  | cons piece pieces ih =>
    obtain ⟨nonempty, settled⟩ := whole piece (List.mem_cons_self ..)
    have size := List.length_pos_iff.mpr nonempty
    have exact_size : piece.length - 1 + 1 = piece.length := by omega
    rw [List.flatten_cons, scan_some (s.settled _ settled), exact_size, List.take_left, List.drop_left,
      ih fun q member => whole q (List.mem_cons_of_mem piece member)]
    rfl

end Scanner

end Dyx3.Lib
