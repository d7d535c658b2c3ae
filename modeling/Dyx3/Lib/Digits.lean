import Dyx3.Lib.Binary64
import Mathlib.Data.List.TakeWhile
import Mathlib.Data.List.Induction
import Mathlib.Tactic.IntervalCases

/-!
Decimal text: digit strings and their values, the spelling of a decimal number as integer part, fraction and
exponent, and the C function `strtod`.
-/

namespace Dyx3.Lib

/-! ### Digit strings -/

def AllDigits (ds : List Char) : Prop := ∀ c ∈ ds, c.isDigit = true

/-- The text does not go on with a digit. -/
def NoDigit (rest : List Char) : Prop := ∀ c ∈ rest.head?, c.isDigit = false

theorem allDigits_toDigits (n : ℕ) : AllDigits (Nat.toDigits 10 n) := fun _ member =>
  Nat.isDigit_of_mem_toDigits (by decide) (by decide) member

theorem AllDigits.append {ds es : List Char} (left : AllDigits ds) (right : AllDigits es) : AllDigits (ds ++ es) := by
  intro c member
  rcases List.mem_append.mp member with member | member
  · exact left c member
  · exact right c member

theorem allDigits_zeros (n : ℕ) : AllDigits (List.replicate n '0') := by
  intro c member
  rw [List.eq_of_mem_replicate member]
  rfl

theorem AllDigits.take {ds : List Char} (all : AllDigits ds) (n : ℕ) : AllDigits (ds.take n) :=
  fun c member => all c (List.mem_of_mem_take member)

theorem AllDigits.drop {ds : List Char} (all : AllDigits ds) (n : ℕ) : AllDigits (ds.drop n) :=
  fun c member => all c (List.mem_of_mem_drop member)

theorem noDigit_nil : NoDigit [] := nofun

theorem noDigit_cons {c : Char} {rest : List Char} (other : c.isDigit = false) : NoDigit (c :: rest) := by
  rintro d ⟨⟩
  exact other

theorem scan_digits {ds rest : List Char} (all : AllDigits ds) (stop : NoDigit rest) :
    (ds ++ rest).takeWhile Char.isDigit = ds ∧ (ds ++ rest).dropWhile Char.isDigit = rest := by
  induction ds with
  | nil =>
    cases rest with
    | nil => exact ⟨rfl, rfl⟩
    | cons c rest =>
      have other := stop c rfl
      exact ⟨List.takeWhile_cons_of_neg (by simp [other]), List.dropWhile_cons_of_neg (by simp [other])⟩
  | cons d ds ih =>
    have digit := all d List.mem_cons_self
    obtain ⟨taken, dropped⟩ := ih fun c member => all c (List.mem_cons_of_mem _ member)
    rw [List.cons_append, List.takeWhile_cons_of_pos digit, List.dropWhile_cons_of_pos digit, taken, dropped]
    exact ⟨rfl, rfl⟩

theorem digit_cases {c : Char} (digit : c.isDigit = true) : ∃ d < 10, c = Nat.digitChar d := by
  simp only [Char.isDigit, Bool.and_eq_true, decide_eq_true_eq] at digit
  obtain ⟨low, high⟩ := digit
  have low : 48 ≤ c.toNat := low
  have high : c.toNat ≤ 57 := high
  refine ⟨c.toNat - 48, by omega, ?_⟩
  apply Char.ext
  apply UInt32.toNat.inj
  have value := Nat.toNat_digitChar_of_lt_ten (n := c.toNat - 48) (by omega)
  show c.toNat = (Nat.digitChar (c.toNat - 48)).toNat
  omega

/-- The value of digits with one more at the end. -/
theorem ofDigitChars_concat (ds : List Char) {d : ℕ} (small : d < 10) :
    Nat.ofDigitChars 10 (ds ++ [Nat.digitChar d]) 0 = 10 * Nat.ofDigitChars 10 ds 0 + d := by
  rw [Nat.ofDigitChars_append, Nat.ofDigitChars_cons_digitChar_of_lt_ten small, Nat.ofDigitChars_nil]

theorem ofDigitChars_lt {ds : List Char} (all : AllDigits ds) : Nat.ofDigitChars 10 ds 0 < 10 ^ ds.length := by
  induction ds using List.reverseRecOn with
  | nil => exact Nat.one_pos
  | append_singleton ds c ih =>
    obtain ⟨d, small, rfl⟩ := digit_cases (all c (by simp))
    have before := ih fun e member => all e (List.mem_append_left _ member)
    rw [ofDigitChars_concat ds small, List.length_append, List.length_singleton, pow_succ]
    omega

/-- The first digit is not a zero. -/
def NoLeadingZero (ds : List Char) : Prop := ∀ c ∈ ds.head?, c ≠ '0'

theorem ofDigitChars_pos {ds : List Char} (all : AllDigits ds) (some : ds ≠ []) (lead : NoLeadingZero ds) :
    0 < Nat.ofDigitChars 10 ds 0 := by
  induction ds using List.reverseRecOn with
  | nil => exact absurd rfl some
  | append_singleton ds c ih =>
    obtain ⟨d, small, rfl⟩ := digit_cases (all c (by simp))
    rw [ofDigitChars_concat ds small]
    cases ds with
    | nil =>
      have : d ≠ 0 := by
        rintro rfl
        exact lead '0' rfl rfl
      omega
    | cons e ds =>
      have := ih (fun c member => all c (List.mem_append_left _ member)) (by simp) (fun c here => lead c here)
      omega

/-- A digit string without a leading zero is how its value is written. -/
theorem toDigits_ofDigitChars {ds : List Char} (all : AllDigits ds) (some : ds ≠ []) (lead : NoLeadingZero ds) :
    Nat.toDigits 10 (Nat.ofDigitChars 10 ds 0) = ds := by
  induction ds using List.reverseRecOn with
  | nil => exact absurd rfl some
  | append_singleton ds c ih =>
    obtain ⟨d, small, rfl⟩ := digit_cases (all c (by simp))
    rw [ofDigitChars_concat ds small]
    cases ds with
    | nil =>
      rw [Nat.ofDigitChars_nil, Nat.mul_zero, Nat.zero_add, Nat.toDigits_of_lt_base small]
      rfl
    | cons e ds =>
      have rest : AllDigits (e :: ds) := fun c member => all c (List.mem_append_left _ member)
      have positive := ofDigitChars_pos rest (by simp) (fun c here => lead c here)
      rw [← Nat.toDigits_append_toDigits (by decide) positive small, ih rest (by simp) (fun c here => lead c here),
        Nat.toDigits_of_lt_base small]

theorem toDigits_noLeadingZero {n : ℕ} (positive : 0 < n) : NoLeadingZero (Nat.toDigits 10 n) := by
  induction n using Nat.strongRecOn with
  | ind n ih =>
    rcases Nat.lt_or_ge n 10 with small | large
    · rw [Nat.toDigits_of_lt_base small]
      rintro c ⟨⟩ zero
      have : n = 0 := by
        have value := Nat.toNat_digitChar_of_lt_ten small
        rw [zero] at value
        have : ('0' : Char).toNat = 48 := rfl
        omega
      omega
    · rw [Nat.toDigits_of_base_le (by decide) large]
      have lead := ih (n / 10) (by omega) (by omega)
      have some : Nat.toDigits 10 (n / 10) ≠ [] := Nat.toDigits_ne_nil
      cases digits : Nat.toDigits 10 (n / 10) with
      | nil => exact absurd digits some
      | cons d ds =>
        rw [digits] at lead
        exact fun c here => lead c here

/-! ### Spellings -/

/-- A decimal number as it is written, without its sign. No fraction means no point. -/
structure Spelling where
  int : List Char
  frac : List Char := []
  exp : Option (Bool × List Char) := none

namespace Spelling

def expText : Option (Bool × List Char) → List Char
  | none => []
  | some (neg, ds) => 'e' :: (if neg then '-' else '+') :: ds

def fracText (frac : List Char) : List Char := if frac = [] then [] else '.' :: frac

def text (sp : Spelling) : List Char := sp.int ++ fracText sp.frac ++ expText sp.exp

structure Ok (sp : Spelling) : Prop where
  some : sp.int ≠ []
  int : AllDigits sp.int
  frac : AllDigits sp.frac
  exp : ∀ e ∈ sp.exp, AllDigits e.2 ∧ e.2 ≠ []

def expValue : Option (Bool × List Char) → ℤ
  | none => 0
  | some (neg, ds) => if neg then -(Nat.ofDigitChars 10 ds 0 : ℤ) else Nat.ofDigitChars 10 ds 0

/-- The number is `mantissa * 10 ^ exponent`. -/
def mantissa (sp : Spelling) : ℕ := Nat.ofDigitChars 10 (sp.int ++ sp.frac) 0

def exponent (sp : Spelling) : ℤ := expValue sp.exp - sp.frac.length

end Spelling

/-! ### `strtod` -/

def isSpace (c : Char) : Bool := c = ' ' || ('\t' ≤ c && c ≤ '\r')

/-- A sign in front. -/
def scanSign : List Char → Bool × List Char
  | '-' :: rest => (true, rest)
  | '+' :: rest => (false, rest)
  | rest => (false, rest)

/-- An exponent that starts with the letter `mark` in either case; a mark without digits is not one. -/
def scanExponent (mark : Char) (s : List Char) : ℤ × List Char :=
  match s with
  | [] => (0, [])
  | c :: t =>
    if c.toLower = mark then
      let (neg, u) := scanSign t
      let ds := u.takeWhile Char.isDigit
      if ds = [] then (0, s)
      else (if neg then -(Nat.ofDigitChars 10 ds 0 : ℤ) else Nat.ofDigitChars 10 ds 0, u.dropWhile Char.isDigit)
    else (0, s)

/-- The digits before and after a point. -/
def scanPoint (digit : Char → Bool) (s : List Char) : List Char × List Char × List Char :=
  match s.dropWhile digit with
  | '.' :: t => (s.takeWhile digit, t.takeWhile digit, t.dropWhile digit)
  | t => (s.takeWhile digit, [], t)

/-- `mantissa * 10 ^ exponent`. -/
def scanDecimal (s : List Char) : Option ((ℕ × ℤ) × List Char) :=
  let (int, frac, t) := scanPoint Char.isDigit s
  if int ++ frac = [] then none
  else
    let (exp, rest) := scanExponent 'e' t
    some ((Nat.ofDigitChars 10 (int ++ frac) 0, exp - frac.length), rest)

def isHexDigit (c : Char) : Bool := c.isDigit || ('a' ≤ c.toLower && c.toLower ≤ 'f')

def hexValue (c : Char) : ℕ := if c.isDigit then c.toNat - 48 else c.toLower.toNat - 87

/-- `mantissa * 2 ^ exponent`, after the `0x`. -/
def scanHex (s : List Char) : Option ((ℕ × ℤ) × List Char) :=
  let (int, frac, t) := scanPoint isHexDigit s
  if int ++ frac = [] then none
  else
    let (exp, rest) := scanExponent 'p' t
    some (((int ++ frac).foldl (fun n c => 16 * n + hexValue c) 0, exp - 4 * frac.length), rest)

/-- The text after a word, which is matched in either case. -/
def dropWord (word : List Char) (s : List Char) : Option (List Char) :=
  if (s.take word.length).map Char.toLower = word then some (s.drop word.length) else none

namespace Double

def infinity (neg : Bool) : Double := ⟨neg, infCode, by decide⟩

def nan : Double := ⟨false, infCode + 2 ^ 51, by decide⟩

/-- `± n * 2 ^ k`. -/
def ofBinary (neg : Bool) (n : ℕ) (k : ℤ) : Double :=
  ofFraction neg (n * 2 ^ k.toNat * 2 ^ minExp) (2 ^ (-k).toNat)

end Double

/-- `inf`, `infinity`, `nan` or `nan(…)`. -/
def scanSpecial (neg : Bool) (s : List Char) : Option (Double × List Char) :=
  match dropWord "infinity".toList s, dropWord "inf".toList s, dropWord "nan".toList s with
  | some rest, _, _ => some (.infinity neg, rest)
  | none, some rest, _ => some (.infinity neg, rest)
  | none, none, some ('(' :: t) =>
    match t.dropWhile (fun c => c.isAlphanum || c = '_') with
    | ')' :: rest => some (.nan, rest)
    | _ => some (.nan, '(' :: t)
  | none, none, some rest => some (.nan, rest)
  | none, none, none => none

/-- `strtod` in the C locale: the value and the text after it, or nothing when there is no number. -/
def strtod (s : List Char) : Option (Double × List Char) :=
  let (neg, s) := scanSign (s.dropWhile isSpace)
  let decimal := (scanDecimal s).map fun r => (Double.ofDecimal neg r.1.1 r.1.2, r.2)
  match s with
  | '0' :: x :: t =>
    match if x.toLower = 'x' then scanHex t else none with
    | some ((n, k), rest) => some (.ofBinary neg n k, rest)
    | none => decimal
  | _ => decimal.or (scanSpecial neg s)

theorem scanExponent_mark {mark c : Char} {t ds rest : List Char} {neg : Bool} (lower : c.toLower = mark) (sign : scanSign t = (neg, ds ++ rest))
    (all : AllDigits ds) (some : ds ≠ []) (stop : NoDigit rest) :
    scanExponent mark (c :: t) = (if neg then -(Nat.ofDigitChars 10 ds 0 : ℤ) else Nat.ofDigitChars 10 ds 0, rest) := by
  obtain ⟨taken, dropped⟩ := scan_digits all stop
  simp only [scanExponent, if_pos lower, sign, taken, dropped, if_neg some]

/-! ### Reading a spelling back -/

namespace Spelling

variable {sp : Spelling} {rest : List Char}

/-- The text does not go on with a digit, a point or an exponent. -/
def Stops (rest : List Char) : Prop := ∀ c ∈ rest.head?, c.isDigit = false ∧ c ≠ '.' ∧ c.toLower ≠ 'e'

theorem Stops.noDigit (stops : Stops rest) : NoDigit rest := fun c here => (stops c here).1

theorem stops_nil : Stops [] := nofun

theorem expText_noDigit (exp : Option (Bool × List Char)) (stops : Stops rest) : NoDigit (expText exp ++ rest) := by
  cases exp with
  | none => exact stops.noDigit
  | some e => exact noDigit_cons rfl

theorem expText_notPoint (exp : Option (Bool × List Char)) (stops : Stops rest) (t : List Char) :
    expText exp ++ rest ≠ '.' :: t := by
  intro same
  cases exp with
  | none =>
    have here : '.' ∈ rest.head? := by
      rw [show rest = '.' :: t from same]
      rfl
    exact (stops '.' here).2.1 rfl
  | some e => cases same

theorem scanExponent_text (ok : sp.Ok) (stops : Stops rest) :
    scanExponent 'e' (expText sp.exp ++ rest) = (expValue sp.exp, rest) := by
  cases exp : sp.exp with
  | none =>
    cases rest with
    | nil => rfl
    | cons c rest =>
      have other : c.toLower ≠ 'e' := (stops c rfl).2.2
      simp only [expText, List.nil_append, scanExponent, if_neg other, expValue]
  | some e =>
    obtain ⟨neg, ds⟩ := e
    obtain ⟨all, some⟩ := ok.exp (neg, ds) exp
    have sign : scanSign ((if neg then '-' else '+') :: ds ++ rest) = (neg, ds ++ rest) := by
      cases neg <;> rfl
    exact scanExponent_mark rfl sign all some stops.noDigit

theorem scanPoint_text (ok : sp.Ok) (stops : Stops rest) :
    scanPoint Char.isDigit (sp.text ++ rest) = (sp.int, sp.frac, expText sp.exp ++ rest) := by
  have after := expText_noDigit sp.exp stops
  by_cases none : sp.frac = []
  · have text : sp.text ++ rest = sp.int ++ (expText sp.exp ++ rest) := by
      simp [Spelling.text, fracText, none]
    obtain ⟨taken, dropped⟩ := scan_digits ok.int after
    rw [text, scanPoint, taken, dropped, none]
    split
    · rename_i t point
      exact absurd point (expText_notPoint sp.exp stops t)
    · rfl
  · have text : sp.text ++ rest = sp.int ++ ('.' :: (sp.frac ++ (expText sp.exp ++ rest))) := by
      simp [Spelling.text, fracText, none]
    obtain ⟨taken, dropped⟩ := scan_digits ok.int (show NoDigit ('.' :: (sp.frac ++ (expText sp.exp ++ rest))) from noDigit_cons rfl)
    obtain ⟨taken', dropped'⟩ := scan_digits ok.frac after
    rw [text, scanPoint, taken, dropped]
    simp only [taken', dropped']

theorem scanDecimal_text (ok : sp.Ok) (stops : Stops rest) :
    scanDecimal (sp.text ++ rest) = some ((sp.mantissa, sp.exponent), rest) := by
  have some : sp.int ++ sp.frac ≠ [] := fun none => ok.some (List.append_eq_nil_iff.mp none).1
  simp only [scanDecimal, scanPoint_text ok stops, if_neg some, scanExponent_text ok stops]
  rfl

/-- The characters of a number. -/
def isNumberChar (c : Char) : Bool := c.isDigit || c = '+' || c = '-' || c = '.' || c = 'e' || c = 'E'

theorem text_chars (ok : sp.Ok) : ∀ c ∈ sp.text, isNumberChar c = true := by
  have digits : ∀ ds, AllDigits ds → ∀ c ∈ ds, isNumberChar c = true := by
    intro ds all c member
    simp [isNumberChar, all c member]
  intro c member
  simp only [text, fracText, List.mem_append] at member
  rcases member with (member | member) | member
  · exact digits _ ok.int c member
  · split at member
    · cases member
    · rcases List.mem_cons.mp member with rfl | member
      · rfl
      · exact digits _ ok.frac c member
  · cases exp : sp.exp with
    | none =>
      rw [exp] at member
      cases member
    | some e =>
      obtain ⟨neg, ds⟩ := e
      rw [exp] at member
      simp only [expText, List.mem_cons] at member
      rcases member with rfl | rfl | member
      · rfl
      · cases neg <;> rfl
      · exact digits _ (ok.exp (neg, ds) exp).1 c member

theorem isNumberChar_lower {c : Char} (number : isNumberChar c = true) : c.toLower ≠ 'x' := by
  simp only [isNumberChar, Bool.or_eq_true, decide_eq_true_eq] at number
  rcases number with ((((digit | rfl) | rfl) | rfl) | rfl) | rfl
  · obtain ⟨d, small, rfl⟩ := digit_cases digit
    interval_cases d <;> decide
  all_goals decide

theorem text_head (ok : sp.Ok) : ∃ c t, sp.text = c :: t ∧ c.isDigit = true := by
  cases digits : sp.int with
  | nil => exact absurd digits ok.some
  | cons c ds =>
    have digit := ok.int c (by rw [digits]; exact List.mem_cons_self)
    exact ⟨c, ds ++ fracText sp.frac ++ expText sp.exp, by rw [text, digits]; rfl, digit⟩

end Spelling

/-- The text of a sign. -/
def signText (neg : Bool) : List Char := if neg then ['-'] else []

theorem digit_ne {c d : Char} (digit : c.isDigit = true) (other : d.isDigit = false) : c ≠ d := by
  rintro rfl
  rw [digit] at other
  cases other

theorem digit_notSpace {c : Char} (digit : c.isDigit = true) : isSpace c = false := by
  obtain ⟨d, small, rfl⟩ := digit_cases digit
  interval_cases d <;> rfl

theorem scanSign_digit (neg : Bool) {s t : List Char} {c : Char} (first : s = c :: t) (digit : c.isDigit = true) :
    scanSign (signText neg ++ s) = (neg, s) := by
  cases neg with
  | true => rfl
  | false =>
    rw [signText, if_neg (by decide), List.nil_append, first, scanSign]
    · exact fun rest same => digit_ne digit rfl (List.cons.inj same).1
    · exact fun rest same => digit_ne digit rfl (List.cons.inj same).1

namespace Spelling

theorem scanSign_text {sp : Spelling} (ok : sp.Ok) (neg : Bool) : scanSign (signText neg ++ sp.text) = (neg, sp.text) := by
  obtain ⟨c, t, text, digit⟩ := text_head ok
  exact scanSign_digit neg text digit

theorem signed_chars {sp : Spelling} (ok : sp.Ok) (neg : Bool) : ∀ c ∈ signText neg ++ sp.text, isNumberChar c = true := by
  intro c member
  rcases List.mem_append.mp member with sign | member
  · cases neg with
    | true =>
      rw [List.mem_singleton.mp sign]
      rfl
    | false => cases sign
  · exact text_chars ok c member

end Spelling

theorem strtod_decimal {text s : List Char} {neg : Bool} {n : ℕ} {k : ℤ} (signed : scanSign (text.dropWhile isSpace) = (neg, s))
    (chars : ∀ c ∈ s, Spelling.isNumberChar c = true) (scanned : scanDecimal s = some ((n, k), [])) :
    strtod text = some (.ofDecimal neg n k, []) := by
  simp only [strtod, signed, scanned, Option.map_some, Option.some_or]
  split
  · rename_i x u
    have number := chars x (List.mem_cons_of_mem _ List.mem_cons_self)
    rw [if_neg (Spelling.isNumberChar_lower number)]
  · rfl

theorem dropSpace_signed {neg : Bool} {s t : List Char} {c : Char} (first : s = c :: t) (digit : c.isDigit = true) :
    (signText neg ++ s).dropWhile isSpace = signText neg ++ s := by
  cases neg with
  | true => rfl
  | false =>
    rw [signText, if_neg (by decide), List.nil_append, first]
    exact List.dropWhile_cons_of_neg (by simp [digit_notSpace digit])

/-- `strtod` reads a spelling to its end. -/
theorem strtod_text {sp : Spelling} (ok : sp.Ok) (neg : Bool) :
    strtod (signText neg ++ sp.text) = some (.ofDecimal neg sp.mantissa sp.exponent, []) := by
  obtain ⟨c, t, text, digit⟩ := Spelling.text_head ok
  have scanned := Spelling.scanDecimal_text ok Spelling.stops_nil
  rw [List.append_nil] at scanned
  have signed : scanSign ((signText neg ++ sp.text).dropWhile isSpace) = (neg, sp.text) := by
    rw [dropSpace_signed text digit, Spelling.scanSign_text ok]
  exact strtod_decimal signed (Spelling.text_chars ok) scanned

end Dyx3.Lib
