import Mathlib.Data.List.Basic

/-!
Streams of messages that say how long they are: cutting a text into its whole messages and what is left, however the text
arrives in parts.
-/

namespace Dyx3.Lib

/-- What the front of a text is: the beginning of a message, no message at all, or a message of `n` items. -/
inductive Front where
  | more
  | bad
  | whole (n : ℕ)
  deriving DecidableEq

/-- A format knows a message by its front, and what comes after does not change that. -/
structure Format (α : Type*) where
  front : List α → Front
  size : ∀ {s n}, front s = .whole n → 0 < n ∧ n ≤ s.length
  own : ∀ {s n}, front s = .whole n → front (s.take n) = .whole n
  settled : ∀ {s} (t), front s ≠ .more → front (s ++ t) = front s

namespace Format

variable {α : Type*} (F : Format α)

/-- A message and nothing after it. -/
def Message (m : List α) : Prop := F.front m = .whole m.length

instance decidableMessage (m : List α) : Decidable (F.Message m) := inferInstanceAs (Decidable (F.front m = .whole m.length))

def splitFuel : ℕ → List α → List (List α) × List α
  | 0, s => ([], s)
  | fuel + 1, s =>
    match F.front s with
    | .whole n => (s.take n :: (splitFuel fuel (s.drop n)).1, (splitFuel fuel (s.drop n)).2)
    | _ => ([], s)

/-- The whole messages at the front and what is left. -/
def split (s : List α) : List (List α) × List α := F.splitFuel s.length s

variable {F}

theorem splitFuel_whole {s : List α} {n : ℕ} (whole : F.front s = .whole n) (fuel : ℕ) :
    F.splitFuel (fuel + 1) s = (s.take n :: (F.splitFuel fuel (s.drop n)).1, (F.splitFuel fuel (s.drop n)).2) := by
  rw [splitFuel, whole]

theorem splitFuel_other {s : List α} (other : ∀ n, F.front s ≠ .whole n) (fuel : ℕ) : F.splitFuel fuel s = ([], s) := by
  cases fuel with
  | zero => rfl
  | succ fuel =>
    rw [splitFuel]
    split
    · rename_i n whole
      exact absurd whole (other n)
    · rfl

/-- Every message takes some of the text, so its length is fuel enough. -/
theorem splitFuel_enough {s : List α} {fuel : ℕ} (enough : s.length ≤ fuel) : F.splitFuel fuel s = F.split s := by
  induction fuel using Nat.strongRecOn generalizing s with
  | ind fuel ih =>
    by_cases other : ∀ n, F.front s ≠ .whole n
    · rw [split, splitFuel_other other, splitFuel_other other]
    · push Not at other
      obtain ⟨n, whole⟩ := other
      obtain ⟨positive, inside⟩ := F.size whole
      obtain ⟨fuel, rfl⟩ : ∃ k, fuel = k + 1 := ⟨fuel - 1, by omega⟩
      obtain ⟨size, long⟩ : ∃ k, s.length = k + 1 := ⟨s.length - 1, by omega⟩
      have less : (s.drop n).length ≤ size := by
        rw [List.length_drop]
        omega
      rw [split, long, splitFuel_whole whole, splitFuel_whole whole, ih fuel (by omega) (by omega)]
      rcases Nat.lt_or_ge size (fuel + 1) with below | above
      · rw [ih size below less]
      · rw [show size = fuel by omega, ih fuel (by omega) (by omega)]

theorem split_whole {s : List α} {n : ℕ} (whole : F.front s = .whole n) :
    F.split s = (s.take n :: (F.split (s.drop n)).1, (F.split (s.drop n)).2) := by
  obtain ⟨positive, inside⟩ := F.size whole
  obtain ⟨size, long⟩ : ∃ k, s.length = k + 1 := ⟨s.length - 1, by omega⟩
  rw [split, long, splitFuel_whole whole, splitFuel_enough (by rw [List.length_drop]; omega)]

theorem split_other {s : List α} (other : ∀ n, F.front s ≠ .whole n) : F.split s = ([], s) := splitFuel_other other _

/-- Message by message. -/
theorem split_induct {motive : List α → Prop} (other : ∀ s, (∀ n, F.front s ≠ .whole n) → motive s)
    (whole : ∀ s n, F.front s = .whole n → motive (s.drop n) → motive s) (s : List α) : motive s := by
  generalize size : s.length = k
  induction k using Nat.strongRecOn generalizing s with
  | ind k ih =>
    by_cases none : ∀ n, F.front s ≠ .whole n
    · exact other s none
    · push Not at none
      obtain ⟨n, here⟩ := none
      obtain ⟨positive, inside⟩ := F.size here
      exact whole s n here (ih (s.drop n).length (by rw [List.length_drop]; omega) (s.drop n) rfl)

theorem split_flatten (s : List α) : (F.split s).1.flatten ++ (F.split s).2 = s := by
  induction s using F.split_induct with
  | other s none =>
    rw [split_other none]
    rfl
  | whole s n here ih =>
    rw [split_whole here]
    dsimp only
    rw [List.flatten_cons, List.append_assoc, ih, List.take_append_drop]

theorem split_messages (s : List α) : ∀ m ∈ (F.split s).1, F.Message m := by
  induction s using F.split_induct with
  | other s none =>
    rw [split_other none]
    exact nofun
  | whole s n here ih =>
    rw [split_whole here]
    refine List.forall_mem_cons.mpr ⟨?_, ih⟩
    have own := F.own here
    have size : (s.take n).length = n := List.length_take_of_le (F.size here).2
    rw [Message, size]
    exact own

/-- What is left holds no whole message. -/
theorem split_rest (s : List α) (n : ℕ) : F.front (F.split s).2 ≠ .whole n := by
  induction s using F.split_induct with
  | other s none =>
    rw [split_other none]
    exact none n
  | whole s k here ih =>
    rw [split_whole here]
    exact ih

theorem split_again (s : List α) : F.split (F.split s).2 = ([], (F.split s).2) := split_other (split_rest s)

theorem front_message {m : List α} (message : F.Message m) (t : List α) : F.front (m ++ t) = .whole m.length := by
  rw [F.settled t (by rw [message]; exact nofun), message]

theorem split_message {m : List α} (message : F.Message m) (t : List α) :
    F.split (m ++ t) = (m :: (F.split t).1, (F.split t).2) := by
  rw [split_whole (front_message message t), List.take_left, List.drop_left]

theorem split_all {ms : List (List α)} (messages : ∀ m ∈ ms, F.Message m) (t : List α) :
    F.split (ms.flatten ++ t) = (ms ++ (F.split t).1, (F.split t).2) := by
  induction ms with
  | nil => rfl
  | cons m ms ih =>
    obtain ⟨first, others⟩ := List.forall_mem_cons.mp messages
    rw [List.flatten_cons, List.append_assoc, split_message first, ih others]
    rfl

/-- A text may come in two parts: what is left of the first goes in front of the second. -/
theorem split_append (s t : List α) :
    F.split (s ++ t) = ((F.split s).1 ++ (F.split ((F.split s).2 ++ t)).1, (F.split ((F.split s).2 ++ t)).2) := by
  have front : s ++ t = (F.split s).1.flatten ++ ((F.split s).2 ++ t) := by
    rw [← List.append_assoc, split_flatten]
  conv_lhs => rw [front]
  exact split_all (split_messages s) _

/-- Less than a message is the beginning of one. -/
theorem front_begun {m s t : List α} (message : F.Message m) (whole : m = s ++ t) (less : t ≠ []) : F.front s = .more := by
  by_contra known
  have same := F.settled t known
  rw [← whole, message] at same
  have inside := (F.size same.symm).2
  have positive := List.length_pos_of_ne_nil less
  rw [whole, List.length_append] at inside
  omega

/-- Where a stream of messages is cut off: after some whole messages, in the middle of the next. -/
theorem split_front {ms : List (List α)} (messages : ∀ m ∈ ms, F.Message m) (empty : F.front [] ≠ .bad) {s : List α}
    (cut : s <+: ms.flatten) : (F.split s).1 <+: ms ∧ F.front (F.split s).2 ≠ .bad := by
  induction ms generalizing s with
  | nil =>
    obtain rfl := List.prefix_nil.mp cut
    rw [split_other fun n whole => absurd (F.size whole) (by simp only [List.length_nil]; omega)]
    exact ⟨List.nil_prefix, empty⟩
  | cons m ms ih =>
    obtain ⟨first, others⟩ := List.forall_mem_cons.mp messages
    rw [List.flatten_cons] at cut
    rcases Nat.lt_or_ge s.length m.length with short | long
    · obtain ⟨t, whole⟩ := List.prefix_of_prefix_length_le cut (List.prefix_append m _) (Nat.le_of_lt short)
      have less : t ≠ [] := by
        rintro rfl
        rw [← whole, List.append_nil] at short
        exact absurd short (Nat.lt_irrefl _)
      have more := front_begun first whole.symm less
      rw [split_other fun n other => by rw [more] at other; cases other]
      refine ⟨List.nil_prefix, ?_⟩
      rw [more]
      exact nofun
    · obtain ⟨t, rfl⟩ := List.prefix_of_prefix_length_le (List.prefix_append m _) cut long
      rw [List.prefix_append_right_inj] at cut
      obtain ⟨taken, good⟩ := ih others cut
      rw [split_message first]
      exact ⟨(List.prefix_cons_inj m).mpr taken, good⟩

end Format

end Dyx3.Lib
