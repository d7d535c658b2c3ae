import Dyx3.Lib.FloatText

/-!
The numbers of a path artifact (dyx3_mission, path_artifact): how a token is read, and the one spelling of a
finite coordinate, Python's `repr`.

A byte string is a list of characters, each byte being the character with its number.
-/

namespace Dyx3.Artifact

open Lib

abbrev Bytes := List Char

/-! ### Reading -/

def parseDouble (tok : Bytes) : Option Double :=
  if tok = [] then none
  else
    match strtod tok with
    | some (out, []) => if out.isFinite then some out else none
    | _ => none

def parseUint (tok : Bytes) : Option ℕ :=
  if tok = [] ∨ 10 < tok.length then none
  else if tok.all Char.isDigit then some (Nat.ofDigitChars 10 tok 0)
  else none

/-! ### Writing -/

/-- `d[.ddd]e±XX` of `std::to_chars`, laid out as `repr` does: positional for `1e-4 ≤ |v| < 1e16`. -/
def layout (sci : Scientific) : Bytes :=
  let out := signText sci.neg
  let digits := sci.digits
  if digits = ['0'] then out ++ "0.0".toList
  else
    -- value = 0.DIGITS x 10^decpt
    let decpt := sci.exp + 1
    let nd : ℤ := digits.length
    if -4 < decpt ∧ decpt ≤ 16 then
      if decpt ≤ 0 then out ++ "0.".toList ++ List.replicate (-decpt).toNat '0' ++ digits
      else if nd ≤ decpt then out ++ digits ++ List.replicate (decpt - nd).toNat '0' ++ ".0".toList
      else out ++ digits.take decpt.toNat ++ '.' :: digits.drop decpt.toNat
    else
      let e := decpt - 1
      let ae := e.natAbs
      out ++ digits.take 1 ++ (if 1 < nd then '.' :: digits.drop 1 else []) ++
        (if e < 0 then "e-".toList else "e+".toList) ++ (if ae < 10 then ['0'] else []) ++ Nat.toDigits 10 ae

/-- Nothing for an infinity or a NaN, which `to_chars` prints without an exponent. -/
def pythonRepr (v : Double) : Bytes := if v.isFinite then layout v.toChars else []

/-- A coordinate token is accepted only in the spelling `repr` produces. -/
def parseCanonicalDouble (tok : Bytes) : Option Double := do
  let out ← parseDouble tok
  if pythonRepr out = tok then some out else none

/-! ### The layout is that of `repr` -/

theorem layout_exponent {s : Scientific} (other : s.digits ≠ ['0']) (far : ¬ (-4 < s.exp + 1 ∧ s.exp + 1 ≤ 16)) :
    layout s = reprText s := by
  have far' : s.exp + 1 ≤ -4 ∨ 16 < s.exp + 1 := by omega
  have pad : (if (s.exp + 1 - 1).natAbs < 10 then ['0'] else []) =
      List.replicate (2 - (Nat.toDigits 10 (s.exp + 1 - 1).natAbs).length) '0' := by
    split
    · rename_i small
      rw [Nat.toDigits_of_lt_base small]
      rfl
    · rename_i large
      have length : ¬ (Nat.toDigits 10 (s.exp + 1 - 1).natAbs).length ≤ 1 := by
        rw [Nat.length_toDigits_le_iff (by decide) (by decide)]
        exact large
      rw [show 2 - (Nat.toDigits 10 (s.exp + 1 - 1).natAbs).length = 0 by omega]
      rfl
  have mark : (if s.exp + 1 - 1 < 0 then "e-".toList else "e+".toList) = ['e', if s.exp + 1 - 1 < 0 then '-' else '+'] := by
    split <;> rfl
  simp only [layout, reprText, if_neg other, if_neg far, if_pos far', pad, mark]
  simp only [List.append_assoc, List.cons_append, List.nil_append]

theorem layout_positional {s : Scientific} (some : s.digits ≠ []) (zero : s.digits = ['0'] → s.exp = 0)
    (near : -4 < s.exp + 1 ∧ s.exp + 1 ≤ 16) : layout s = reprText s := by
  have near' : ¬ (s.exp + 1 ≤ -4 ∨ 16 < s.exp + 1) := by omega
  have length : 0 < s.digits.length := List.length_pos_of_ne_nil some
  simp only [layout, reprText, if_pos near, if_neg near']
  split
  · rename_i digits
    rw [zero digits, digits, List.append_assoc]
    rfl
  · rcases lt_or_ge 0 (s.exp + 1) with positive | small
    · have left : (1 - (s.exp + 1)).toNat = 0 := by omega
      have point : (max (s.exp + 1) 1).toNat = (s.exp + 1).toNat := by omega
      rw [if_neg (not_le.mpr positive), left, point, List.replicate_zero, List.nil_append]
      split
      · rename_i whole
        obtain ⟨pad, zeros⟩ : ∃ pad, pad = (s.exp + 1 - s.digits.length).toNat := ⟨_, rfl⟩
        have place : (s.exp + 1).toNat = (s.digits ++ List.replicate pad '0').length := by
          rw [List.length_append, List.length_replicate]
          omega
        have more : (s.exp + 1 + 1 - s.digits.length).toNat = pad + 1 := by omega
        rw [more, ← zeros, place, List.replicate_succ', ← List.append_assoc, List.take_left, List.drop_left]
        simp
      · rename_i inside
        have right : (s.exp + 1 + 1 - s.digits.length).toNat = 0 := by omega
        rw [right, List.replicate_zero, List.append_nil]
    · obtain ⟨zeros, left⟩ : ∃ zeros, (1 - (s.exp + 1)).toNat = zeros + 1 ∧ (-(s.exp + 1)).toNat = zeros :=
        ⟨(-(s.exp + 1)).toNat, by omega, rfl⟩
      have right : (s.exp + 1 + 1 - s.digits.length).toNat = 0 := by omega
      have point : (max (s.exp + 1) 1).toNat = 1 := by omega
      rw [if_pos small, left.1, left.2, right, point, List.replicate_succ]
      simp

/-- The C++ writer spells a finite number as Python does. -/
theorem pythonRepr_eq {x : Double} (finite : x.isFinite = true) : pythonRepr x = pyRepr x := by
  have printed := Double.toChars_printed finite
  rw [pythonRepr, pyRepr, if_pos finite, if_pos finite]
  have zero : x.toChars.digits = ['0'] → x.toChars.exp = 0 := by
    intro digits
    rcases printed.lead with ⟨_, exp⟩ | lead
    · exact exp
    · rw [digits] at lead
      exact absurd rfl (lead '0' rfl)
  by_cases near : -4 < x.toChars.exp + 1 ∧ x.toChars.exp + 1 ≤ 16
  · exact layout_positional printed.some zero near
  · refine layout_exponent ?_ near
    intro digits
    exact near (by rw [zero digits]; decide)

/-! ### What is written reads back -/

theorem strtod_repr {x : Double} (finite : x.isFinite = true) : strtod (pyRepr x) = some (x, []) := by
  obtain ⟨sp, text, real, value⟩ := pyRepr_spelling finite
  rw [text, strtod_text real.ok, value]

theorem pyRepr_ne_nil {x : Double} (finite : x.isFinite = true) : pyRepr x ≠ [] := by
  obtain ⟨sp, text, real, _⟩ := pyRepr_spelling finite
  obtain ⟨c, t, start, _⟩ := Spelling.text_head real.ok
  simp [text, start]

theorem parseCanonicalDouble_repr {x : Double} (finite : x.isFinite = true) :
    parseCanonicalDouble (pythonRepr x) = some x := by
  have some := pyRepr_ne_nil finite
  have read := strtod_repr finite
  rw [← pythonRepr_eq finite] at some read
  simp only [parseCanonicalDouble, parseDouble, if_neg some, read, finite, if_true, Option.bind_eq_bind, Option.bind_some]

/-- A token is accepted exactly when it is how its value is written. -/
theorem parseCanonicalDouble_iff {tok : Bytes} {x : Double} :
    parseCanonicalDouble tok = some x ↔ x.isFinite = true ∧ tok = pythonRepr x := by
  constructor
  · intro read
    obtain ⟨out, value, canonical⟩ := Option.bind_eq_some_iff.mp read
    split at canonical
    · rename_i same
      obtain rfl := Option.some.inj canonical
      refine ⟨?_, same.symm⟩
      simp only [parseDouble] at value
      split at value
      · cases value
      · split at value
        · split at value
          · rename_i finite
            obtain rfl := Option.some.inj value
            exact finite
          · cases value
        · cases value
    · cases canonical
  · rintro ⟨finite, rfl⟩
    exact parseCanonicalDouble_repr finite

theorem parseUint_toDigits {n : ℕ} : parseUint (Nat.toDigits 10 n) = if n < 10 ^ 10 then some n else none := by
  have some : Nat.toDigits 10 n ≠ [] := Nat.toDigits_ne_nil
  have digits : (Nat.toDigits 10 n).all Char.isDigit = true := List.all_eq_true.mpr (allDigits_toDigits n)
  have length : (Nat.toDigits 10 n).length ≤ 10 ↔ n < 10 ^ 10 := Nat.length_toDigits_le_iff (by decide) (by decide)
  by_cases small : n < 10 ^ 10
  · have short : ¬ (Nat.toDigits 10 n = [] ∨ 10 < (Nat.toDigits 10 n).length) := by
      rw [not_or, not_lt]
      exact ⟨some, length.mpr small⟩
    rw [parseUint, if_neg short, if_pos digits, if_pos small, Nat.ofDigitChars_ten_toDigits]
  · have long : Nat.toDigits 10 n = [] ∨ 10 < (Nat.toDigits 10 n).length := .inr (not_le.mp (small ∘ length.mp))
    rw [parseUint, if_pos long, if_neg small]

theorem parseUint_ok {tok : Bytes} {n : ℕ} (read : parseUint tok = some n) :
    tok ≠ [] ∧ tok.length ≤ 10 ∧ AllDigits tok ∧ Nat.ofDigitChars 10 tok 0 = n := by
  simp only [parseUint] at read
  split at read
  · cases read
  · rename_i long
    rw [not_or, not_lt] at long
    split at read
    · rename_i digits
      exact ⟨long.1, long.2, List.all_eq_true.mp digits, Option.some.inj read⟩
    · cases read

/-! ### Printable text -/

def Printable (s : Bytes) : Prop := ∀ c ∈ s, 0x20 ≤ c.toNat ∧ c.toNat ≤ 0x7e

/-- Printable and without spaces. -/
def IsWord (s : Bytes) : Prop := ∀ c ∈ s, 0x20 < c.toNat ∧ c.toNat ≤ 0x7e

-- along the list: `Char` is finite, and its own instance would run through every character
instance (s : Bytes) : Decidable (Printable s) :=
  decidable_of_iff (s.all fun c => 0x20 ≤ c.toNat && c.toNat ≤ 0x7e) (by simp [Printable])

instance (s : Bytes) : Decidable (IsWord s) :=
  decidable_of_iff (s.all fun c => 0x20 < c.toNat && c.toNat ≤ 0x7e) (by simp [IsWord])

theorem IsWord.printable {s : Bytes} (word : IsWord s) : Printable s := fun c member =>
  ⟨(word c member).1.le, (word c member).2⟩

theorem IsWord.noSpace {s : Bytes} (word : IsWord s) : ' ' ∉ s := fun member => absurd (word ' ' member).1 (by decide)

theorem Printable.noNewline {s : Bytes} (printable : Printable s) : '\n' ∉ s := fun member =>
  absurd (printable '\n' member).1 (by decide)

theorem Printable.append {s t : Bytes} (left : Printable s) (right : Printable t) : Printable (s ++ t) := by
  intro c member
  rcases List.mem_append.mp member with member | member
  · exact left c member
  · exact right c member

theorem IsWord.append {s t : Bytes} (left : IsWord s) (right : IsWord t) : IsWord (s ++ t) := by
  intro c member
  rcases List.mem_append.mp member with member | member
  · exact left c member
  · exact right c member

theorem digits_word {ds : Bytes} (all : AllDigits ds) : IsWord ds := by
  intro c member
  obtain ⟨d, small, rfl⟩ := digit_cases (all c member)
  interval_cases d <;> decide

theorem numberChars_word {s : Bytes} (number : ∀ c ∈ s, Spelling.isNumberChar c = true) : IsWord s := by
  intro c member
  have number := number c member
  simp only [Spelling.isNumberChar, Bool.or_eq_true, decide_eq_true_eq] at number
  rcases number with ((((digit | rfl) | rfl) | rfl) | rfl) | rfl
  · exact digits_word (show AllDigits [c] by simpa [AllDigits] using digit) c (by simp)
  all_goals decide

theorem pythonRepr_word {x : Double} (finite : x.isFinite = true) : IsWord (pythonRepr x) := by
  obtain ⟨sp, text, real, _⟩ := pyRepr_spelling finite
  rw [pythonRepr_eq finite, text]
  exact numberChars_word (Spelling.signed_chars real.ok x.neg)

end Dyx3.Artifact
