import Dyx3.Lib.Digits
import Mathlib.Data.List.DropRight

/-!
The shortest decimal text of a binary64: the parts `std::to_chars` prints in scientific form, and CPython's
`repr` and `float`.
-/

namespace Dyx3.Lib

/-- `[-]d[.ddd]e±XX`, taken apart: all digits without the point, and the exponent. -/
structure Scientific where
  neg : Bool
  digits : List Char
  exp : ℤ

/-- The parts of `± d * 10 ^ k`, without zeros at the end of the digits. -/
def Scientific.of (neg : Bool) (d : ℕ) (k : ℤ) : Scientific :=
  let ds := Nat.toDigits 10 d
  if d = 0 then { neg, digits := ['0'], exp := 0 }
  else { neg, digits := ds.rdropWhile (· = '0'), exp := k + ds.length - 1 }

namespace Double

/-- `std::to_chars` of a finite number: the shortest digits that round back. -/
def toChars (x : Double) : Scientific := .of x.neg x.shortest.1 x.shortest.2

/-- What the printed digits say. -/
structure Printed (x : Double) (s : Scientific) : Prop where
  neg : s.neg = x.neg
  all : AllDigits s.digits
  some : s.digits ≠ []
  lead : s.digits = ['0'] ∧ s.exp = 0 ∨ NoLeadingZero s.digits
  value : ofDecimal x.neg (Nat.ofDigitChars 10 s.digits 0) (s.exp - s.digits.length + 1) = x

theorem rdropWhile_zeros (ds : List Char) : ∃ j, ds = ds.rdropWhile (· = '0') ++ List.replicate j '0' := by
  refine ⟨(ds.rtakeWhile (· = '0')).length, ?_⟩
  have zeros : ds.rtakeWhile (· = '0') = List.replicate (ds.rtakeWhile (· = '0')).length '0' :=
    List.eq_replicate_of_mem fun c member => by simpa using List.mem_rtakeWhile_imp member
  rw [← zeros, List.rdropWhile_append_rtakeWhile]

theorem printed_of {x : Double} {d : ℕ} {k : ℤ} (rounds : ofDecimal x.neg d k = x) : Printed x (.of x.neg d k) := by
  simp only [Scientific.of]
  split
  · rename_i zero
    refine ⟨rfl, ?_, by simp, .inl ⟨rfl, rfl⟩, ?_⟩
    · intro c member
      rw [List.mem_singleton.mp member]
      rfl
    · rw [zero, ofDecimal_zero] at rounds
      exact (ofDecimal_zero x.neg _).trans rounds
  · rename_i positive
    obtain ⟨j, split⟩ := rdropWhile_zeros (Nat.toDigits 10 d)
    have lead := toDigits_noLeadingZero (Nat.pos_of_ne_zero positive)
    have all := allDigits_toDigits d
    have value : Nat.ofDigitChars 10 (Nat.toDigits 10 d) 0 = d := Nat.ofDigitChars_ten_toDigits
    have length : (Nat.toDigits 10 d).length = ((Nat.toDigits 10 d).rdropWhile (· = '0')).length + j := by
      conv_lhs => rw [split]
      rw [List.length_append, List.length_replicate]
    generalize (Nat.toDigits 10 d).rdropWhile (· = '0') = ds at split length ⊢
    rw [split] at lead all value
    have some : ds ≠ [] := by
      rintro rfl
      cases j with
      | zero =>
        rw [List.replicate_zero, List.append_nil, Nat.ofDigitChars_nil] at value
        exact positive value.symm
      | succ j => exact lead '0' rfl rfl
    refine ⟨rfl, fun c member => all c (List.mem_append_left _ member), some, .inr ?_, ?_⟩
    · cases ds with
      | nil => exact absurd rfl some
      | cons c ds => exact fun e here => lead e here
    · rw [Nat.ofDigitChars_append, Nat.ofDigitChars_replicate_zero] at value
      have same := ofDecimal_zeros x.neg (Nat.ofDigitChars 10 ds 0) j k
      rw [Nat.mul_comm, value, rounds] at same
      have exponent : k + ((ds.length + j : ℕ) : ℤ) - 1 - ds.length + 1 = k + j := by
        push_cast
        ring
      rw [length]
      dsimp only
      rw [exponent, ← same]

theorem toChars_printed {x : Double} (finite : x.isFinite = true) : Printed x x.toChars :=
  printed_of (shortest_rounds finite)

/-- Zero, of either sign. -/
def zero (neg : Bool) : Double := ⟨neg, 0, by decide⟩

theorem zero_shortest (neg : Bool) : (zero neg).shortest.1 = 0 := by
  have scaled : (zero neg).scaled = 0 := by
    rw [Double.scaled, show (zero neg).code = 0 from rfl, units_small (by decide), Nat.zero_mul]
  have zero : ∃ k, (Double.zero neg).withDigits 1 = some (0, k) := by
    have down : decide (ofDecimal neg 0 (0 - minExp) = Double.zero neg) = true := decide_eq_true (ofDecimal_zero neg _)
    refine ⟨0 - minExp, ?_⟩
    simp only [withDigits, scaled]
    simp only [show (Nat.toDigits 10 0).length - 1 = 0 from rfl, Nat.zero_div, Nat.zero_mod]
    split
    · simp
    · rfl
    · rename_i other _
      exact absurd (down.symm.trans other) (by decide)
    · rename_i other _
      exact absurd (down.symm.trans other) (by decide)
  obtain ⟨k, found⟩ := zero
  simp only [shortest, scaled]
  rw [show List.range' 1 (Nat.toDigits 10 0).length = [1] from rfl, List.findSome?_cons, found]
  rfl

theorem zero_toChars (neg : Bool) : (zero neg).toChars = { neg, digits := ['0'], exp := 0 } := by
  rw [toChars, Scientific.of, zero_shortest, if_pos rfl]
  rfl

end Double

/-! ### `repr` -/

/-- `repr(x)` of a finite number: positional while the decimal point is within 16 digits, as in `float_repr_style` short. -/
def reprText (s : Scientific) : List Char :=
  let decpt := s.exp + 1
  let length : ℤ := s.digits.length
  if decpt ≤ -4 ∨ 16 < decpt then
    let e := decpt - 1
    let digits := Nat.toDigits 10 e.natAbs
    signText s.neg ++ s.digits.take 1 ++ (if 1 < length then '.' :: s.digits.drop 1 else []) ++
      'e' :: (if e < 0 then '-' else '+') :: (List.replicate (2 - digits.length) '0' ++ digits)
  else
    let padded := List.replicate (1 - decpt).toNat '0' ++ s.digits ++ List.replicate (decpt + 1 - length).toNat '0'
    let point := (max decpt 1).toNat
    signText s.neg ++ padded.take point ++ '.' :: padded.drop point

def pyRepr (x : Double) : List Char :=
  if x.isFinite then reprText x.toChars
  else if x.code = Double.infCode then signText x.neg ++ "inf".toList
  else "nan".toList

/-- No zero in front of other digits. -/
def Spelling.Lead (sp : Spelling) : Prop := sp.int = ['0'] ∨ NoLeadingZero sp.int

/-- The spelling of a number that is not an integer token. -/
structure Spelling.Real (sp : Spelling) : Prop where
  ok : sp.Ok
  lead : sp.Lead
  real : sp.frac ≠ [] ∨ sp.exp ≠ none

/-- `text` is a real spelling of the digits of `s`. -/
structure Spells (s : Scientific) (text : List Char) (sp : Spelling) : Prop where
  text : text = signText s.neg ++ sp.text
  real : sp.Real
  value : ∀ neg, Double.ofDecimal neg sp.mantissa sp.exponent =
    Double.ofDecimal neg (Nat.ofDigitChars 10 s.digits 0) (s.exp - s.digits.length + 1)

theorem noLeadingZero_append {ds es : List Char} (some : ds ≠ []) (lead : NoLeadingZero ds) : NoLeadingZero (ds ++ es) := by
  cases ds with
  | nil => exact absurd rfl some
  | cons d ds => exact fun c here => lead c here

theorem noLeadingZero_take {ds : List Char} {n : ℕ} (positive : 0 < n) (lead : NoLeadingZero ds) :
    NoLeadingZero (ds.take n) := by
  cases ds with
  | nil => simpa using lead
  | cons d ds =>
    cases n with
    | zero => exact absurd positive (Nat.lt_irrefl 0)
    | succ n => exact fun c here => lead c here

/-- `sp` spells the digits of `s`, with no zero too many in front. -/
structure Writes (s : Scientific) (sp : Spelling) : Prop where
  ok : sp.Ok
  lead : sp.Lead
  value : ∀ neg, Double.ofDecimal neg sp.mantissa sp.exponent =
    Double.ofDecimal neg (Nat.ofDigitChars 10 s.digits 0) (s.exp - s.digits.length + 1)

/-- The digits of an exponent, at least two. -/
def expDigits (e : ℤ) : List Char := List.replicate (2 - (Nat.toDigits 10 e.natAbs).length) '0' ++ Nat.toDigits 10 e.natAbs

theorem expDigits_value (e : ℤ) : Nat.ofDigitChars 10 (expDigits e) 0 = e.natAbs := by
  rw [expDigits, Nat.ofDigitChars_append, Nat.ofDigitChars_replicate_zero, Nat.mul_zero, Nat.ofDigitChars_ten_toDigits]

section

variable {s : Scientific} (all : AllDigits s.digits) (some : s.digits ≠ [])
  (lead : s.digits = ['0'] ∧ s.exp = 0 ∨ NoLeadingZero s.digits)

include all some

theorem writes_exponent (lead : NoLeadingZero s.digits) :
    Writes s { int := s.digits.take 1, frac := s.digits.drop 1, exp := .some (decide (s.exp < 0), expDigits s.exp) } := by
  have length : 0 < s.digits.length := List.length_pos_of_ne_nil some
  have int : s.digits.take 1 ≠ [] := by
    rw [ne_eq, List.take_eq_nil_iff, not_or]
    exact ⟨by omega, some⟩
  refine ⟨⟨int, all.take _, all.drop _, ?_⟩, .inr (noLeadingZero_take (by omega) lead), ?_⟩
  · rintro e ⟨⟩
    exact ⟨(allDigits_zeros _).append (allDigits_toDigits _), by simp [expDigits, Nat.toDigits_ne_nil]⟩
  · intro neg
    simp only [Spelling.mantissa, Spelling.exponent, List.take_append_drop, Spelling.expValue, expDigits_value, decide_eq_true_eq,
      List.length_drop]
    congr 1
    split <;> omega

include lead

/-- Zeros on both sides, and the point behind the first `point` digits. -/
theorem writes_positional {left right point : ℕ} {padded : List Char}
    (zeros : padded = List.replicate left '0' ++ s.digits ++ List.replicate right '0') (place : (point : ℤ) = s.exp + 1 + left)
    (first : left = 0 ∨ point = 1) (positive : 0 < point) (inside : point ≤ left + s.digits.length + right) :
    Writes s { int := padded.take point, frac := padded.drop point } := by
  have size : padded.length = left + s.digits.length + right := by
    rw [zeros]
    simp [Nat.add_assoc]
  have digits : AllDigits padded := by
    rw [zeros]
    exact ((allDigits_zeros _).append all).append (allDigits_zeros _)
  have value : Nat.ofDigitChars 10 padded 0 = Nat.ofDigitChars 10 s.digits 0 * 10 ^ right := by
    rw [zeros, Nat.ofDigitChars_append, Nat.ofDigitChars_append, Nat.ofDigitChars_replicate_zero,
      Nat.ofDigitChars_replicate_zero, Nat.mul_zero, Nat.mul_comm]
  have front : padded.take point = ['0'] ∨ NoLeadingZero (padded.take point) := by
    rw [zeros]
    rcases first with none | one
    · rw [none, List.replicate_zero, List.nil_append]
      rcases lead with ⟨zero, exp⟩ | lead
      · left
        have one : point = 1 := by omega
        rw [one, zero]
        rfl
      · exact .inr (noLeadingZero_take positive (noLeadingZero_append some lead))
    · rcases Nat.eq_zero_or_pos left with none | more
      · rw [none, List.replicate_zero, List.nil_append]
        rcases lead with ⟨zero, -⟩ | lead
        · left
          rw [one, zero]
          rfl
        · exact .inr (noLeadingZero_take positive (noLeadingZero_append some lead))
      · left
        obtain ⟨more, rfl⟩ : ∃ more, left = more + 1 := ⟨left - 1, by omega⟩
        rw [one, List.replicate_succ]
        rfl
  have int : padded.take point ≠ [] := by
    rw [ne_eq, List.take_eq_nil_iff, not_or]
    exact ⟨by omega, List.ne_nil_of_length_pos (by omega)⟩
  refine ⟨⟨int, digits.take _, digits.drop _, by simp⟩, front, ?_⟩
  intro neg
  simp only [Spelling.mantissa, Spelling.exponent, List.take_append_drop, Spelling.expValue, value,
    Double.ofDecimal_zeros, List.length_drop, size]
  congr 1
  omega

theorem repr_exponent (far : s.exp + 1 ≤ -4 ∨ 16 < s.exp + 1) :
    Spells s (reprText s) { int := s.digits.take 1, frac := s.digits.drop 1, exp := .some (decide (s.exp < 0), expDigits s.exp) } := by
  have plain : NoLeadingZero s.digits := by
    rcases lead with ⟨_, zero⟩ | lead
    · omega
    · exact lead
  obtain ⟨ok, front, value⟩ := writes_exponent all some plain
  refine ⟨?_, ⟨ok, front, .inr (by simp)⟩, value⟩
  have here : s.exp + 1 - 1 = s.exp := by ring
  have point : (1 < (s.digits.length : ℤ)) ↔ ¬ s.digits.drop 1 = [] := by
    rw [List.drop_eq_nil_iff]
    omega
  simp only [reprText, if_pos far, here, point, Spelling.text, Spelling.fracText, Spelling.expText, ite_not,
    decide_eq_true_eq, List.append_assoc, expDigits]

theorem repr_positional (near : ¬ (s.exp + 1 ≤ -4 ∨ 16 < s.exp + 1)) : ∃ sp, Spells s (reprText s) sp := by
  have length : 0 < s.digits.length := List.length_pos_of_ne_nil some
  have text := show reprText s = reprText s from rfl
  conv_rhs at text => simp only [reprText, if_neg near]
  generalize short : (1 - (s.exp + 1)).toNat = left at text
  generalize long : (s.exp + 1 + 1 - s.digits.length).toNat = right at text
  generalize place : (max (s.exp + 1) 1).toNat = point at text
  generalize zeros : List.replicate left '0' ++ s.digits ++ List.replicate right '0' = padded at text
  obtain ⟨ok, front, value⟩ := writes_positional all some lead zeros.symm (by omega : (point : ℤ) = s.exp + 1 + left) (by omega) (by omega) (by omega)
  have size : padded.length = left + s.digits.length + right := by
    rw [← zeros]
    simp [Nat.add_assoc]
  have frac : padded.drop point ≠ [] := by
    rw [ne_eq, List.drop_eq_nil_iff]
    omega
  refine ⟨_, ?_, ⟨ok, front, .inl frac⟩, value⟩
  rw [text]
  simp only [Spelling.text, Spelling.fracText, if_neg frac, Spelling.expText, List.append_nil, List.append_assoc]

end

/-- A finite number is written in a spelling whose correctly rounded value it is. -/
theorem pyRepr_spelling {x : Double} (finite : x.isFinite = true) :
    ∃ sp : Spelling, pyRepr x = signText x.neg ++ sp.text ∧ sp.Real ∧ Double.ofDecimal x.neg sp.mantissa sp.exponent = x := by
  have printed := Double.toChars_printed finite
  obtain ⟨sp, spells⟩ : ∃ sp, Spells x.toChars (reprText x.toChars) sp := by
    by_cases far : x.toChars.exp + 1 ≤ -4 ∨ 16 < x.toChars.exp + 1
    · exact ⟨_, repr_exponent printed.all printed.some printed.lead far⟩
    · exact repr_positional printed.all printed.some printed.lead far
  refine ⟨sp, ?_, spells.real, ?_⟩
  · rw [pyRepr, if_pos finite, spells.text, printed.neg]
  · rw [spells.value]
    exact printed.value

/-! ### `%g` -/

namespace Double

/-- `x` rounded to `p` significant digits, to even in a tie. -/
def significant (p : ℕ) (x : Double) : ℕ × ℤ :=
  let drop := (Nat.toDigits 10 x.scaled).length - p
  let d := x.scaled / 10 ^ drop
  let rest := x.scaled % 10 ^ drop
  (if 2 * rest < 10 ^ drop ∨ 2 * rest = 10 ^ drop ∧ d % 2 = 0 then d else d + 1, drop - minExp)

end Double

/-- With an exponent, or with leading zeros and the point in place; no zeros at the end of a fraction. -/
def generalSpelling (p : ℕ) (s : Scientific) : Spelling :=
  if s.exp < -4 ∨ p ≤ s.exp then
    { int := s.digits.take 1, frac := s.digits.drop 1, exp := some (decide (s.exp < 0), expDigits s.exp) }
  else
    let padded := List.replicate (-s.exp).toNat '0' ++ s.digits ++ List.replicate (s.exp + 1 - s.digits.length).toNat '0'
    let point := (max s.exp 0 + 1).toNat
    { int := padded.take point, frac := padded.drop point }

/-- `printf("%.<p>g", x)` of a finite number, in the C locale. -/
def formatGeneral (p : ℕ) (x : Double) : List Char :=
  let (d, k) := x.significant p
  signText x.neg ++ (generalSpelling p (.of x.neg d k)).text

namespace Double

/-- The greatest finite magnitude, counted as `scaled` does. -/
def maxScaled : ℕ := maxUnits * 5 ^ minExp

/-- The number of its digits. -/
def maxDigits : ℕ := 1383

theorem scaled_le {x : Double} (finite : x.isFinite = true) : x.scaled ≤ maxScaled := by
  have below : x.code < infCode := of_decide_eq_true finite
  exact Nat.mul_le_mul_right _ (units_strictMono.monotone (Nat.le_sub_one_of_lt below))

theorem finite_of_scaled (neg : Bool) {d drop : ℕ} (bound : d * 10 ^ drop ≤ maxScaled) : (ofDecimal neg d (drop - minExp)).isFinite = true := by
  apply ofDecimal_finite
  generalize up : ((drop : ℤ) - minExp).toNat = a
  generalize down : (-((drop : ℤ) - minExp)).toNat = b
  have split : a + minExp = drop + b := by omega
  have positive : 0 < 5 ^ minExp := Nat.pow_pos (by decide)
  have ten : 2 ^ minExp * 5 ^ minExp = 10 ^ minExp := by rw [← Nat.mul_pow]
  refine Nat.le_of_mul_le_mul_right ?_ positive
  calc d * 10 ^ a * 2 ^ minExp * 5 ^ minExp = d * 10 ^ (a + minExp) := by rw [Nat.mul_assoc _ (2 ^ minExp), ten, Nat.mul_assoc, ← pow_add]
    _ = d * 10 ^ drop * 10 ^ b := by rw [split, pow_add, Nat.mul_assoc]
    _ ≤ maxScaled * 10 ^ b := Nat.mul_le_mul_right _ bound
    _ = maxUnits * 10 ^ b * 5 ^ minExp := by rw [maxScaled]; ring

/-- Rounding to a few digits does not overflow: the digits after them in the greatest magnitude round down. -/
theorem significant_finite {p : ℕ} (few : p < maxDigits) (down : 2 * (maxScaled % 10 ^ (maxDigits - p)) < 10 ^ (maxDigits - p)) {x : Double}
    (finite : x.isFinite = true) : (ofDecimal x.neg (x.significant p).1 (x.significant p).2).isFinite = true := by
  have size : maxScaled < 10 ^ maxDigits := by decide +kernel
  have large : 10 ^ (maxDigits - 1) ≤ maxScaled := by decide +kernel
  have most := scaled_le finite
  have digits : (Nat.toDigits 10 x.scaled).length ≤ maxDigits := (Nat.length_toDigits_le_iff (by decide) (by decide)).mpr (lt_of_le_of_lt most size)
  have own : x.scaled < 10 ^ (Nat.toDigits 10 x.scaled).length := (Nat.length_toDigits_le_iff (by decide) Nat.length_toDigits_pos).mp le_rfl
  simp only [significant]
  generalize (Nat.toDigits 10 x.scaled).length = len at digits own ⊢
  generalize x.scaled = n at most own ⊢
  apply finite_of_scaled
  have quotient : n / 10 ^ (len - p) * 10 ^ (len - p) ≤ n := Nat.div_mul_le_self _ _
  split
  · exact le_trans quotient most
  rename_i up
  rcases digits.lt_or_eq with less | same
  · -- a power of ten at most
    have front : n / 10 ^ (len - p) * 10 ^ (len - p) < 10 ^ len := lt_of_le_of_lt quotient own
    have split : 10 ^ len = 10 ^ (len - (len - p)) * 10 ^ (len - p) := by
      rw [← pow_add]
      congr 1
      omega
    rw [split] at front
    have next := Nat.succ_le_of_lt (Nat.lt_of_mul_lt_mul_right front)
    calc (n / 10 ^ (len - p) + 1) * 10 ^ (len - p) ≤ 10 ^ (len - (len - p)) * 10 ^ (len - p) := Nat.mul_le_mul_right _ next
      _ = 10 ^ len := split.symm
      _ ≤ 10 ^ (maxDigits - 1) := Nat.pow_le_pow_right (by decide) (by omega)
      _ ≤ maxScaled := large
  · subst same
    generalize 10 ^ (maxDigits - p) = ten at *
    have parts := Nat.div_add_mod n ten
    have parts' := Nat.div_add_mod maxScaled ten
    have less : n / ten < maxScaled / ten := by
      by_contra more
      have equal : n / ten = maxScaled / ten := le_antisymm (Nat.div_le_div_right most) (not_lt.mp more)
      rw [equal] at parts
      exact up (Or.inl (by omega))
    calc (n / ten + 1) * ten ≤ maxScaled / ten * ten := Nat.mul_le_mul_right _ less
      _ ≤ maxScaled := Nat.div_mul_le_self _ _

end Double

theorem generalSpelling_writes {p : ℕ} (positive : 0 < p) {s : Scientific} (all : AllDigits s.digits) (some : s.digits ≠ [])
    (lead : s.digits = ['0'] ∧ s.exp = 0 ∨ NoLeadingZero s.digits) : Writes s (generalSpelling p s) := by
  have length : 0 < s.digits.length := List.length_pos_of_ne_nil some
  unfold generalSpelling
  split
  · rename_i far
    rcases lead with ⟨_, zero⟩ | lead
    · omega
    · exact writes_exponent all some lead
  · exact writes_positional all some lead rfl (by omega) (by omega) (by omega) (by omega)

/-- A number that rounds to a finite one is written in a spelling of what it rounds to. -/
theorem formatGeneral_spelling {p : ℕ} (positive : 0 < p) (x : Double) :
    ∃ sp : Spelling, formatGeneral p x = signText x.neg ++ sp.text ∧ sp.Ok ∧ sp.Lead ∧
      Double.ofDecimal x.neg sp.mantissa sp.exponent = .ofDecimal x.neg (x.significant p).1 (x.significant p).2 := by
  have text : formatGeneral p x = signText x.neg ++ (generalSpelling p (.of x.neg (x.significant p).1 (x.significant p).2)).text := rfl
  rw [text]
  generalize (x.significant p).1 = d
  generalize (x.significant p).2 = k
  have printed := @Double.printed_of (.ofDecimal x.neg d k) d k (by rw [Double.ofDecimal_neg])
  rw [Double.ofDecimal_neg] at printed
  obtain ⟨ok, lead, value⟩ := generalSpelling_writes positive printed.all printed.some printed.lead
  have same := printed.value
  rw [Double.ofDecimal_neg] at same
  exact ⟨_, rfl, ok, lead, (value x.neg).trans same⟩

/-! ### `float` and `int` -/

/-- White space as `str.strip` takes it off, among the ASCII characters. -/
def isPySpace (c : Char) : Bool := c = ' ' || ('\t' ≤ c && c ≤ '\r') || ('\x1c' ≤ c && c ≤ '\x1f')

def strip (s : List Char) : List Char := (s.dropWhile isPySpace).rdropWhile isPySpace

/-- The text without underscores, each of which must be between two digits. -/
def withoutUnderscores : Option Char → List Char → Option (List Char)
  | _, [] => some []
  | before, '_' :: rest =>
    if before.any Char.isDigit && rest.head?.any Char.isDigit then withoutUnderscores (some '_') rest else none
  | _, c :: rest => (withoutUnderscores (some c) rest).map (c :: ·)

/-- `float(text)`: a decimal, an infinity or a NaN, with white space around it. -/
def pyFloat (text : List Char) : Option Double := do
  let text ← withoutUnderscores none (strip text)
  let (neg, s) := scanSign text
  match (scanDecimal s).map fun r => (Double.ofDecimal neg r.1.1 r.1.2, r.2) with
  | some (x, []) => some x
  | _ =>
    if s.map Char.toLower = "inf".toList ∨ s.map Char.toLower = "infinity".toList then some (.infinity neg)
    else if s.map Char.toLower = "nan".toList then some .nan
    else none

/-- The most digits CPython converts to or from an `int`. -/
def intMaxStrDigits : ℕ := 4300

/-- `int(text)` in base 10. -/
def pyInt (text : List Char) : Option ℤ := do
  let text ← withoutUnderscores none (strip text)
  let (neg, s) := scanSign text
  if s ≠ [] ∧ s.all Char.isDigit ∧ s.length ≤ intMaxStrDigits then
    some (if neg then -(Nat.ofDigitChars 10 s 0 : ℤ) else Nat.ofDigitChars 10 s 0)
  else none

theorem numberChar_plain {c : Char} (number : Spelling.isNumberChar c = true) : isPySpace c = false ∧ c ≠ '_' := by
  simp only [Spelling.isNumberChar, Bool.or_eq_true, decide_eq_true_eq] at number
  rcases number with ((((digit | rfl) | rfl) | rfl) | rfl) | rfl
  · obtain ⟨d, small, rfl⟩ := digit_cases digit
    interval_cases d <;> decide
  all_goals decide

theorem strip_plain {s : List Char} (plain : ∀ c ∈ s, isPySpace c = false) : strip s = s := by
  have front : s.dropWhile isPySpace = s := by
    cases s with
    | nil => rfl
    | cons c s => exact List.dropWhile_cons_of_neg (by simp [plain c List.mem_cons_self])
  rw [strip, front, List.rdropWhile_eq_self_iff]
  intro some
  simp [plain _ (List.getLast_mem some)]

theorem withoutUnderscores_plain {s : List Char} (plain : '_' ∉ s) (before : Option Char) :
    withoutUnderscores before s = some s := by
  induction s generalizing before with
  | nil => rfl
  | cons c s ih =>
    rw [List.mem_cons, not_or] at plain
    rw [withoutUnderscores, ih plain.2]
    · rfl
    · exact fun same => plain.1 same.symm

/-- What `float` and `int` read is the text itself when it has the characters of a number only. -/
theorem number_plain {s : List Char} (number : ∀ c ∈ s, Spelling.isNumberChar c = true) :
    withoutUnderscores none (strip s) = some s := by
  rw [strip_plain fun c member => (numberChar_plain (number c member)).1]
  exact withoutUnderscores_plain (fun member => (numberChar_plain (number '_' member)).2 rfl) none

theorem pyFloat_text {sp : Spelling} (ok : sp.Ok) (neg : Bool) :
    pyFloat (signText neg ++ sp.text) = some (.ofDecimal neg sp.mantissa sp.exponent) := by
  have scanned := Spelling.scanDecimal_text ok Spelling.stops_nil
  rw [List.append_nil] at scanned
  simp only [pyFloat, number_plain (Spelling.signed_chars ok neg), Option.bind_eq_bind, Option.bind_some,
    Spelling.scanSign_text ok, scanned, Option.map_some]

theorem pyFloat_repr {x : Double} (finite : x.isFinite = true) : pyFloat (pyRepr x) = some x := by
  obtain ⟨sp, text, real, value⟩ := pyRepr_spelling finite
  rw [text, pyFloat_text real.ok, value]

theorem pyInt_digits {ds : List Char} (all : AllDigits ds) (some : ds ≠ []) (short : ds.length ≤ intMaxStrDigits) :
    pyInt ds = .some (Nat.ofDigitChars 10 ds 0) := by
  have number : ∀ c ∈ ds, Spelling.isNumberChar c = true := fun c member => by simp [Spelling.isNumberChar, all c member]
  have digits : ds.all Char.isDigit = true := List.all_eq_true.mpr all
  have sign : scanSign ds = (false, ds) := by
    cases ds with
    | nil => rfl
    | cons d ds =>
      have digit := all d List.mem_cons_self
      rw [scanSign]
      · exact fun t same => digit_ne digit rfl (List.cons.inj same).1
      · exact fun t same => digit_ne digit rfl (List.cons.inj same).1
  simp only [pyInt, number_plain number, Option.bind_eq_bind, Option.bind_some, sign, ne_eq, some, not_false_iff, digits,
    short, and_self, if_true, Bool.false_eq_true, if_false]

end Dyx3.Lib
