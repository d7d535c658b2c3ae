import Dyx3.Gateway.JsonAccepted
import Dyx3.Lib.FloatText
import Mathlib.Data.Bool.AllAny

/-!
The writers of the gateway's JSON (dyx3_system_gateway/json): `json_escape`, the numbers and `JsonLine`, which builds one object on
one line. Whatever it is given, the line is well-formed UTF-8 without a control character and the parser reads the members back.
-/

namespace Dyx3.Gateway

open Lib Lib.ByteReader

/-! ### The writers -/

/-- A byte below 0x80. -/
def escapeAscii (c : UInt8) : ByteString :=
  if c = byte '"' then ascii "\\\""
  else if c = byte '\\' then ascii "\\\\"
  else if c = byte '\n' then ascii "\\n"
  else if c = byte '\r' then ascii "\\r"
  else if c = byte '\t' then ascii "\\t"
  else if c < 0x20 then (unitText c.toNat).map byte
  else [c]

def jsonEscape : ByteString → ByteString
  | [] => []
  | c :: t =>
    if 0x80 ≤ c then
      if utf8Seq (c :: t) = 0 then ascii "\\ufffd" ++ jsonEscape t
      else (c :: t).take (utf8Seq (c :: t)) ++ jsonEscape (t.drop (utf8Seq (c :: t) - 1))
    else escapeAscii c ++ jsonEscape t
termination_by s => s.length
decreasing_by
  all_goals simp only [List.length_cons, List.length_drop]; omega

def jsonStr (s : ByteString) : ByteString := byte '"' :: jsonEscape s ++ [byte '"']

/-- `%.9g`. -/
def jsonNum (x : Double) : ByteString := if !x.isFinite then ascii "null" else (formatGeneral 9 x).map byte

/-- `%.17g`. -/
def jsonDbl (x : Double) : ByteString := if !x.isFinite then ascii "null" else (formatGeneral 17 x).map byte

def jsonBool (b : Bool) : ByteString := ascii (if b then "true" else "false")

/-- `std::to_string`. -/
def toStringInt (i : Int64) : ByteString := Numeral.sign (decide (i.toInt < 0)) ++ decimal i.toInt.natAbs

structure JsonLine where
  body : ByteString := []

namespace JsonLine

def raw (l : JsonLine) (k json : ByteString) : JsonLine :=
  { body := l.body ++ ((if l.body = [] then [] else ascii ",") ++ jsonStr k ++ ascii ":" ++ json) }

def str (l : JsonLine) (k v : ByteString) : JsonLine := l.raw k (jsonStr v)

def num (l : JsonLine) (k : ByteString) (x : Double) : JsonLine := l.raw k (jsonNum x)

def integer (l : JsonLine) (k : ByteString) (i : Int64) : JsonLine := l.raw k (toStringInt i)

def boolean (l : JsonLine) (k : ByteString) (b : Bool) : JsonLine := l.raw k (jsonBool b)

def dump (l : JsonLine) : ByteString := ascii "\x7b" ++ l.body ++ ascii "\x7d"

end JsonLine

/-- A call on a line. -/
inductive Call where
  | str (k v : ByteString)
  | num (k : ByteString) (x : Double)
  | integer (k : ByteString) (i : Int64)
  | boolean (k : ByteString) (b : Bool)
  | raw (k json : ByteString)

namespace Call

def run (l : JsonLine) : Call → JsonLine
  | str k v => l.str k v
  | num k x => l.num k x
  | integer k i => l.integer k i
  | boolean k b => l.boolean k b
  | raw k json => l.raw k json

def key : Call → ByteString
  | str k _ | num k _ | integer k _ | boolean k _ | raw k _ => k

/-- The text of the value. -/
def json : Call → ByteString
  | str _ v => jsonStr v
  | num _ x => jsonNum x
  | integer _ i => toStringInt i
  | boolean _ b => jsonBool b
  | raw _ json => json

theorem run_raw (l : JsonLine) (c : Call) : c.run l = l.raw c.key c.json := by
  cases c <;> rfl

end Call

/-- What a line dumps after the calls. -/
def dumped (calls : List Call) : ByteString := (calls.foldl Call.run {}).dump

/-! ### Repaired strings -/

/-- U+FFFD. -/
def replacement : Char := Char.ofNat 0xFFFD

/-- Every byte that does not start a well-formed sequence is replaced. -/
def repair : ByteString → ByteString
  | [] => []
  | c :: t =>
    if utf8Seq (c :: t) = 0 then utf8 replacement ++ repair t
    else (c :: t).take (utf8Seq (c :: t)) ++ repair (t.drop (utf8Seq (c :: t) - 1))
termination_by s => s.length
decreasing_by
  all_goals simp only [List.length_cons, List.length_drop]; omega

/-- What the helpers write as a value, nested less than so many levels deep. -/
inductive Output : ℕ → ByteString → Prop
  | str {levels : ℕ} (s : ByteString) : Output (levels + 1) (jsonStr s)
  | num {levels : ℕ} (x : Double) : Output (levels + 1) (jsonNum x)
  | dbl {levels : ℕ} (x : Double) : Output (levels + 1) (jsonDbl x)
  | integer {levels : ℕ} (i : Int64) : Output (levels + 1) (toStringInt i)
  | boolean {levels : ℕ} (b : Bool) : Output (levels + 1) (jsonBool b)
  | line {levels : ℕ} {calls : List Call} (values : ∀ c ∈ calls, Output levels c.json) (keys : (calls.map fun c => repair c.key).Nodup) :
    Output (levels + 1) (dumped calls)

/-! ### Clean text -/

/-- Well-formed UTF-8 without control characters. -/
structure Clean (s : ByteString) : Prop where
  printable : ∀ b ∈ s, 0x20 ≤ b.toNat
  utf8 : WellFormed s

theorem WellFormed.append {s t : ByteString} (left : WellFormed s) (right : WellFormed t) : WellFormed (s ++ t) := by
  obtain ⟨cs, rfl⟩ := left
  obtain ⟨ds, rfl⟩ := right
  exact ⟨cs ++ ds, List.flatMap_append.symm⟩

theorem clean_nil : Clean [] := ⟨nofun, [], rfl⟩

theorem Clean.append {s t : ByteString} (left : Clean s) (right : Clean t) : Clean (s ++ t) := by
  refine ⟨fun b member => ?_, left.utf8.append right.utf8⟩
  rcases List.mem_append.mp member with member | member
  · exact left.printable b member
  · exact right.printable b member

theorem Clean.flatten {texts : List ByteString} (all : ∀ text ∈ texts, Clean text) : Clean texts.flatten := by
  induction texts with
  | nil => exact clean_nil
  | cons text texts ih =>
    obtain ⟨first, others⟩ := List.forall_mem_cons.mp all
    exact first.append (ih others)

theorem clean_ascii {s : ByteString} (range : ∀ b ∈ s, 0x20 ≤ b.toNat ∧ b.toNat < 0x80) : Clean s := by
  refine ⟨fun b member => (range b member).1, s.map char, ?_⟩
  induction s with
  | nil => rfl
  | cons b s ih =>
    obtain ⟨here, others⟩ := List.forall_mem_cons.mp range
    rw [List.map_cons, List.flatMap_cons, utf8_byte here.2, ← ih others]
    rfl

theorem clean_text {s : ByteString} (range : (s.all fun b => 0x20 ≤ b.toNat ∧ b.toNat < 0x80) = true) : Clean s :=
  clean_ascii (List.all_iff_forall_prop.mp range)

theorem clean_utf8 {c : Char} (printable : 0x20 ≤ c.toNat) : Clean (utf8 c) := by
  refine ⟨fun b member => ?_, [c], by simp⟩
  rcases Nat.lt_or_ge c.toNat 0x80 with small | large
  · obtain ⟨d, t, head, one, -⟩ := utf8_head c
    obtain ⟨code, rfl⟩ := one small
    rw [head] at member
    rw [List.mem_singleton.mp member, code]
    exact printable
  · exact le_trans (by decide) (utf8_bytes large b member)

/-! ### Strings -/

theorem unitText_hex : ∀ n < 0x20, HexText n ((hexText n).map byte) ∧ ∀ b ∈ (unitText n).map byte, 0x20 ≤ b.toNat ∧ b.toNat < 0x80 := by
  have all : ∀ n < 0x20, ((hexText n).map byte).length = 4 ∧ (∀ d ∈ (hexText n).map byte, isHexDigit (char d) = true) ∧
      (((hexText n).map byte).map char).foldl (fun n c => 16 * n + hexValue c) 0 = n ∧
      ∀ b ∈ (unitText n).map byte, 0x20 ≤ b.toNat ∧ b.toNat < 0x80 := by decide +kernel
  intro n small
  obtain ⟨four, hex, value, range⟩ := all n small
  exact ⟨⟨four, hex, value⟩, range⟩

theorem escapeAscii_unit {c : UInt8} (small : c.toNat < 0x80) : UnitText (char c) (escapeAscii c) ∧ Clean (escapeAscii c) := by
  have code := char_toNat c
  unfold escapeAscii
  split_ifs with quote slash newline back tab control
  · subst quote
    exact ⟨.short (by decide), clean_text (by decide)⟩
  · subst slash
    exact ⟨.short (by decide), clean_text (by decide)⟩
  · subst newline
    exact ⟨.short (by decide), clean_text (by decide)⟩
  · subst back
    exact ⟨.short (by decide), clean_text (by decide)⟩
  · subst tab
    exact ⟨.short (by decide), clean_text (by decide)⟩
  · obtain ⟨hex, range⟩ := unitText_hex c.toNat (UInt8.lt_iff_toNat_lt.mp control)
    exact ⟨.code (code ▸ hex), clean_ascii range⟩
  · have printable : 0x20 ≤ c.toNat := not_lt.mp fun less => control (UInt8.lt_iff_toNat_lt.mpr less)
    refine ⟨?_, clean_ascii (by simpa using ⟨printable, small⟩)⟩
    rw [← utf8_byte small]
    refine .plain (code ▸ printable) ?_ ?_
    · intro same
      exact quote (by rw [← byte_char c, same])
    · intro same
      exact slash (by rw [← byte_char c, same])

theorem escape_units (s : ByteString) : ∃ cs texts, List.Forall₂ UnitText cs texts ∧ jsonEscape s = texts.flatten ∧ repair s = cs.flatMap utf8 ∧
    ∀ text ∈ texts, Clean text := by
  induction s using jsonEscape.induct with
  | case1 => exact ⟨[], [], .nil, by rw [jsonEscape]; rfl, by rw [repair]; rfl, nofun⟩
  | case2 c t large bad ih =>
    obtain ⟨cs, texts, units, escaped, repaired, clean⟩ := ih
    refine ⟨replacement :: cs, ascii "\\ufffd" :: texts, .cons ?_ units, ?_, ?_, ?_⟩
    · exact .code ⟨rfl, List.all_iff_forall_prop.mp (by decide), by decide⟩
    · rw [jsonEscape, if_pos large, if_pos bad, escaped, List.flatten_cons]
    · rw [repair, if_pos bad, repaired, List.flatMap_cons]
    · exact List.forall_mem_cons.mpr ⟨clean_text (by decide), clean⟩
  | case3 c t large long ih =>
    obtain ⟨cs, texts, units, escaped, repaired, clean⟩ := ih
    obtain ⟨x, rest, split, size⟩ := utf8Seq_sound long
    have front : (c :: t).take (utf8Seq (c :: t)) = utf8 x := by
      rw [size, split, List.take_left]
    have wide : 0x80 ≤ x.toNat := by
      obtain ⟨b, u, head, one, -⟩ := utf8_head x
      rw [head] at split
      have same := (List.cons.inj split).1
      by_contra less
      have code := (one (not_le.mp less)).1
      have high := UInt8.le_iff_toNat_le.mp large
      rw [same] at high
      exact less (code ▸ high)
    refine ⟨x :: cs, utf8 x :: texts, .cons (.plain (by omega) ?_ ?_) units, ?_, ?_, ?_⟩
    · rintro rfl
      exact absurd wide (by decide)
    · rintro rfl
      exact absurd wide (by decide)
    · rw [jsonEscape, if_pos large, if_neg long, escaped, front, List.flatten_cons]
    · rw [repair, if_neg long, repaired, front, List.flatMap_cons]
    · exact List.forall_mem_cons.mpr ⟨clean_utf8 (by omega), clean⟩
  | case4 c t small ih =>
    obtain ⟨cs, texts, units, escaped, repaired, clean⟩ := ih
    have low : c.toNat < 0x80 := not_le.mp fun large => small (UInt8.le_iff_toNat_le.mpr large)
    have one : utf8Seq (c :: t) = 1 := if_pos (UInt8.lt_iff_toNat_lt.mpr low)
    obtain ⟨unit, printable⟩ := escapeAscii_unit low
    refine ⟨char c :: cs, escapeAscii c :: texts, .cons unit units, ?_, ?_, ?_⟩
    · rw [jsonEscape, if_neg small, escaped, List.flatten_cons]
    · rw [repair, one, if_neg (by decide), List.drop_zero, repaired, List.flatMap_cons, utf8_byte low]
      rfl
    · exact List.forall_mem_cons.mpr ⟨printable, clean⟩

theorem jsonStr_text (s : ByteString) : StringText (repair s) (jsonStr s) ∧ Clean (jsonStr s) := by
  obtain ⟨cs, texts, units, escaped, repaired, clean⟩ := escape_units s
  refine ⟨⟨cs, _, ⟨texts, units, rfl⟩, repaired, by rw [jsonStr, escaped]; rfl⟩, ?_⟩
  rw [jsonStr, escaped]
  have quote : Clean [byte '"'] := clean_text (by decide)
  exact (quote.append (Clean.flatten clean)).append quote

/-! ### Numbers -/

/-- A spelling as the grammar has it. -/
def numeralOf (neg : Bool) (sp : Spelling) : Numeral where
  neg := neg
  int := sp.int.map byte
  frac := if sp.frac = [] then none else some (sp.frac.map byte)
  exp := sp.exp.map fun e => (byte 'e', some (byte (if e.1 then '-' else '+')), e.2.map byte)

theorem digits_bytes {ds : List Char} (all : AllDigits ds) (some : ds ≠ []) : Digits (ds.map byte) :=
  ⟨chars_digits all, fun none => some (List.map_eq_nil_iff.mp none)⟩

theorem digitsValue_bytes {ds : List Char} (all : AllDigits ds) : digitsValue (ds.map byte) = Nat.ofDigitChars 10 ds 0 := by
  rw [digitsValue, map_char_byte fun c member => digit_small (all c member)]

theorem numeralOf_text (neg : Bool) (sp : Spelling) : (numeralOf neg sp).text = (signText neg ++ sp.text).map byte := by
  have sign : Numeral.sign neg = (signText neg).map byte := by cases neg <;> rfl
  have frac : Numeral.fracText (numeralOf neg sp).frac = (Spelling.fracText sp.frac).map byte := by
    simp only [numeralOf, Spelling.fracText]
    split <;> rfl
  have exp : Numeral.expText (numeralOf neg sp).exp = (Spelling.expText sp.exp).map byte := by
    simp only [numeralOf]
    cases sp.exp <;> rfl
  rw [Numeral.text, Numeral.unsigned, frac, exp]
  show Numeral.sign neg ++ (sp.int.map byte ++ _) = _
  rw [sign, Spelling.text]
  simp only [List.map_append, List.append_assoc]

section

variable {sp : Spelling} (ok : sp.Ok)

include ok

theorem numeralOf_ok (lead : sp.Lead) (neg : Bool) : (numeralOf neg sp).Ok where
  int := by
    refine ⟨digits_bytes ok.int ok.some, fun zero => ?_⟩
    rcases lead with one | plain
    · rw [numeralOf, one]
      rfl
    · rw [numeralOf, List.head?_map] at zero
      obtain ⟨c, here, same⟩ := Option.map_eq_some_iff.mp zero
      have digit := ok.int c (List.mem_of_mem_head? here)
      have back := congrArg char same
      rw [char_byte (digit_small digit)] at back
      exact absurd back (plain c here)
  frac := by
    intro ds here
    rw [Option.mem_def, numeralOf] at here
    dsimp only at here
    split_ifs at here with none
    exact Option.some.inj here ▸ digits_bytes ok.frac none
  exp := by
    intro e here
    obtain ⟨⟨minus, ds⟩, found, rfl⟩ := Option.map_eq_some_iff.mp here
    obtain ⟨all, some⟩ := ok.exp _ found
    refine ⟨Or.inl rfl, ?_, digits_bytes all some⟩
    rintro _ ⟨⟩
    cases minus
    · exact Or.inl rfl
    · exact Or.inr rfl

theorem numeralOf_double (neg : Bool) : (numeralOf neg sp).double = .ofDecimal neg sp.mantissa sp.exponent := by
  have frac : (numeralOf neg sp).frac.getD [] = sp.frac.map byte := by
    simp only [numeralOf]
    split
    · rename_i none
      rw [none]
      rfl
    · rfl
  have exp : Numeral.expValue (numeralOf neg sp).exp = Spelling.expValue sp.exp := by
    simp only [numeralOf]
    cases found : sp.exp with
    | none => rfl
    | some e =>
      obtain ⟨minus, ds⟩ := e
      have value := digitsValue_bytes (ok.exp _ found).1
      dsimp only at value
      cases minus with
      | true =>
        simp only [Option.map_some, Numeral.expValue, Spelling.expValue, value, if_true]
      | false =>
        have other : (some (byte '+') : Option UInt8) ≠ some (byte '-') := by decide
        simp only [Option.map_some, Numeral.expValue, Spelling.expValue, value, Bool.false_eq_true, if_false, if_neg other]
  have mantissa : digitsValue (sp.int.map byte ++ sp.frac.map byte) = sp.mantissa := by
    rw [← List.map_append, digitsValue_bytes (ok.int.append ok.frac)]
    rfl
  rw [Numeral.double, frac, exp, List.length_map]
  show Double.ofDecimal neg (digitsValue (sp.int.map byte ++ sp.frac.map byte)) _ = _
  rw [mantissa]
  rfl

theorem number_clean (neg : Bool) : Clean ((signText neg ++ sp.text).map byte) := by
  have ascii : ∀ c : Char, Spelling.isNumberChar c = true → 0x20 ≤ (byte c).toNat ∧ (byte c).toNat < 0x80 := by
    intro c number
    simp only [Spelling.isNumberChar, Bool.or_eq_true, decide_eq_true_eq] at number
    rcases number with ((((digit | rfl) | rfl) | rfl) | rfl) | rfl
    · obtain ⟨d, small, rfl⟩ := digit_cases digit
      revert small d
      decide
    all_goals decide
  refine clean_ascii fun b member => ?_
  obtain ⟨c, inside, rfl⟩ := List.mem_map.mp member
  exact ascii c (Spelling.signed_chars ok neg c inside)

end

/-- A finite number as `%g` writes it: what it rounds to. -/
theorem formatGeneral_text {p : ℕ} (positive : 0 < p) {x : Double}
    (finite : (Double.ofDecimal x.neg (x.significant p).1 (x.significant p).2).isFinite = true) :
    (∃ i, NumberText (.ofDecimal x.neg (x.significant p).1 (x.significant p).2) i ((formatGeneral p x).map byte)) ∧
      Clean ((formatGeneral p x).map byte) := by
  obtain ⟨sp, text, ok, lead, value⟩ := formatGeneral_spelling positive x
  rw [text]
  refine ⟨⟨(numeralOf x.neg sp).integer, finite, _, numeralOf_ok ok lead x.neg, (numeralOf_text x.neg sp).symm, ?_, rfl⟩, number_clean ok x.neg⟩
  rw [numeralOf_double ok, value]

theorem nine_finite {x : Double} (finite : x.isFinite = true) :
    (Double.ofDecimal x.neg (x.significant 9).1 (x.significant 9).2).isFinite = true :=
  Double.significant_finite (by decide) (by decide +kernel) finite

theorem seventeen_finite {x : Double} (finite : x.isFinite = true) :
    (Double.ofDecimal x.neg (x.significant 17).1 (x.significant 17).2).isFinite = true :=
  Double.significant_finite (by decide) (by decide +kernel) finite

/-- What an integer is read as. -/
def integerValue (i : Int64) : JsonValue :=
  .number (.ofDecimal (decide (i.toInt < 0)) i.toInt.natAbs 0) (if (toStringInt i).length ≤ 18 then some i.toInt else none)

theorem toStringInt_text (i : Int64) : (∃ x n, integerValue i = .number x n ∧ NumberText x n (toStringInt i)) ∧ Clean (toStringInt i) := by
  have ok : (⟨decide (i.toInt < 0), decimal i.toInt.natAbs, none, none⟩ : Numeral).Ok :=
    ⟨⟨⟨decimal_digits _, decimal_ne _⟩, decimal_lead⟩, nofun, nofun⟩
  have text : (⟨decide (i.toInt < 0), decimal i.toInt.natAbs, none, none⟩ : Numeral).text = toStringInt i := by
    rw [Numeral.text, Numeral.unsigned, toStringInt]
    exact congrArg _ (List.append_nil _)
  have value : digitsValue (decimal i.toInt.natAbs) = i.toInt.natAbs := decimal_ofDigits _
  have low := i.le_toInt
  have high := i.toInt_lt
  have bound : i.toInt.natAbs ≤ 2 ^ 63 := by omega
  have finite : (Double.ofDecimal (decide (i.toInt < 0)) i.toInt.natAbs 0).isFinite = true := by
    apply Double.ofDecimal_finite
    have large : 2 ^ 63 * 10 ^ (0 : ℤ).toNat * 2 ^ Double.minExp ≤ Double.maxUnits * 10 ^ (-(0 : ℤ)).toNat := by decide +kernel
    exact le_trans (Nat.mul_le_mul_right _ (Nat.mul_le_mul_right _ bound)) large
  refine ⟨⟨_, _, rfl, finite, _, ok, text.symm, ?_, ?_⟩, ?_⟩
  · rw [Numeral.double]
    dsimp only [Option.getD_none]
    rw [List.append_nil, value]
    rfl
  · rw [Numeral.integer, text]
    simp only [true_and, value, decide_eq_true_eq]
    congr 2
    split <;> omega
  · rw [toStringInt]
    refine Clean.append ?_ (clean_ascii fun b member => ?_)
    · cases decide (i.toInt < 0)
      · exact clean_nil
      · exact clean_text (by decide)
    · have digit := decimal_digits _ b member
      rw [isDigit, Bool.and_eq_true, decide_eq_true_eq, decide_eq_true_eq] at digit
      have least := UInt8.le_iff_toNat_le.mp digit.1
      have greatest := UInt8.le_iff_toNat_le.mp digit.2
      exact ⟨le_trans (by decide) least, lt_of_le_of_lt greatest (by decide)⟩

/-! ### Values -/

/-- What the value of a call is read as. -/
def Call.Back : Call → JsonValue → Prop
  | .str _ s, v => v = .string (repair s)
  | .num _ x, v => if x.isFinite then ∃ i, v = .number (.ofDecimal x.neg (x.significant 9).1 (x.significant 9).2) i else v = .null
  | .integer _ i, v => v = integerValue i
  | .boolean _ b, v => v = .bool b
  | .raw _ json, v => ∀ out, parseJson json out = (v, none)

/-- A number, or null when it is not finite. -/
theorem number_value {p : ℕ} (positive : 0 < p) {x : Double}
    (finite : x.isFinite = true → (Double.ofDecimal x.neg (x.significant p).1 (x.significant p).2).isFinite = true) (levels : ℕ) :
    Clean (if !x.isFinite then ascii "null" else (formatGeneral p x).map byte) ∧
      ∃ v, ValueText (levels + 1) v (if !x.isFinite then ascii "null" else (formatGeneral p x).map byte) ∧
        if x.isFinite then ∃ i, v = .number (.ofDecimal x.neg (x.significant p).1 (x.significant p).2) i else v = .null := by
  cases known : x.isFinite with
  | false => exact ⟨clean_text (s := ascii "null") (by decide), .null, rfl, rfl⟩
  | true =>
    obtain ⟨⟨i, number⟩, clean⟩ := formatGeneral_text positive (finite known)
    exact ⟨clean, .number _ i, number, i, rfl⟩

theorem jsonBool_value (b : Bool) (levels : ℕ) : Clean (jsonBool b) ∧ ValueText (levels + 1) (.bool b) (jsonBool b) := by
  cases b with
  | true => exact ⟨clean_text (by decide), rfl⟩
  | false => exact ⟨clean_text (by decide), rfl⟩

theorem toStringInt_value (i : Int64) (levels : ℕ) : Clean (toStringInt i) ∧ ValueText (levels + 1) (integerValue i) (toStringInt i) := by
  obtain ⟨⟨x, n, value, number⟩, clean⟩ := toStringInt_text i
  refine ⟨clean, ?_⟩
  rw [value]
  exact number

/-! ### Lines -/

/-- A member as a call writes it. -/
def Call.member (c : Call) : ByteString := jsonStr c.key ++ ascii ":" ++ c.json

theorem foldl_body {calls : List Call} {l : JsonLine} (some : l.body ≠ []) :
    (calls.foldl Call.run l).body = l.body ++ calls.flatMap fun c => byte ',' :: c.member := by
  induction calls generalizing l with
  | nil => exact (List.append_nil _).symm
  | cons c calls ih =>
    have step : (c.run l).body = l.body ++ byte ',' :: c.member := by
      rw [Call.run_raw, JsonLine.raw, if_neg some, Call.member]
      simp only [List.append_assoc]
      rfl
    rw [List.foldl_cons, ih (by rw [step]; simp), step, List.flatMap_cons, List.append_assoc]

theorem dumped_cons (c : Call) (calls : List Call) :
    dumped (c :: calls) = byte '\x7b' :: (c.member ++ (calls.flatMap fun c => byte ',' :: c.member) ++ [byte '\x7d']) := by
  have first : (c.run {}).body = c.member := by
    rw [Call.run_raw, JsonLine.raw, if_pos rfl, Call.member]
    rfl
  have some : (c.run {}).body ≠ [] := by
    rw [first, Call.member, jsonStr]
    exact List.cons_ne_nil _ _
  rw [dumped, List.foldl_cons, JsonLine.dump, foldl_body some, first]
  rfl

theorem listed_members {V : JsonValue → ByteString → Prop} {c : Call} {calls : List Call} {m : ByteString × JsonValue} {ms : List (ByteString × JsonValue)}
    (first : MemberText V m c.member) (rest : List.Forall₂ (fun c m => MemberText V m c.member) calls ms) :
    Listed (MemberText V) (m :: ms) (c.member ++ calls.flatMap fun c => byte ',' :: c.member) := by
  induction rest generalizing c m with
  | nil =>
    rw [List.flatMap_nil, List.append_nil]
    exact .one first
  | cons second _ ih => exact .more first (ih second)

/-- The members of a line, when the values of the calls are read back. -/
theorem dumped_object {levels : ℕ} {calls : List Call} {vs : List JsonValue}
    (values : List.Forall₂ (fun c v => ValueText levels v c.json) calls vs) (keys : (calls.map fun c => repair c.key).Nodup) :
    ValueText (levels + 1) (.object ((calls.map fun c => repair c.key).zip vs)) (dumped calls) := by
  have sizes := values.length_eq
  have members : List.Forall₂ (fun c m => MemberText (ValueText levels) m c.member) calls ((calls.map fun c => repair c.key).zip vs) := by
    clear keys sizes
    induction values with
    | nil => exact .nil
    | @cons c v _ _ written _ ih =>
      refine .cons ⟨jsonStr c.key, jsonStr c.key, c.json, (jsonStr_text c.key).1, .refl _, ⟨c.json, written, .refl _⟩, ?_⟩ ih
      rw [Call.member, List.append_assoc]
      rfl
  have names : ((calls.map fun c => repair c.key).zip vs).map Prod.fst = calls.map fun c => repair c.key :=
    List.map_fst_zip (by rw [List.length_map, sizes])
  generalize (calls.map fun c => repair c.key).zip vs = ms at members names ⊢
  refine ⟨(dumped calls).tail, ?_, by rw [names]; exact keys, ?_⟩
  · cases members with
    | nil => exact Or.inl ⟨rfl, [], blank_nil, rfl⟩
    | cons first rest =>
      rw [dumped_cons]
      exact Or.inr ⟨_, listed_members first rest, rfl⟩
  · cases calls with
    | nil => rfl
    | cons c calls => rw [dumped_cons]; rfl

theorem dumped_clean {calls : List Call} (clean : ∀ c ∈ calls, Clean c.json) : Clean (dumped calls) := by
  have member : ∀ c ∈ calls, Clean c.member := fun c inside =>
    ((jsonStr_text c.key).2.append (clean_text (by decide))).append (clean c inside)
  cases calls with
  | nil => exact clean_text (by decide)
  | cons c calls =>
    obtain ⟨first, others⟩ := List.forall_mem_cons.mp member
    rw [dumped_cons]
    have rest : Clean (calls.flatMap fun c => byte ',' :: c.member) := by
      rw [List.flatMap_def]
      refine Clean.flatten fun text inside => ?_
      obtain ⟨c, here, rfl⟩ := List.mem_map.mp inside
      exact (clean_text (s := [byte ',']) (by decide)).append (others c here)
    exact (clean_text (s := [byte '\x7b']) (by decide)).append ((first.append rest).append (clean_text (by decide)))

theorem forall₂_exists {α β : Type} {R : α → β → Prop} {xs : List α} (all : ∀ x ∈ xs, ∃ y, R x y) : ∃ ys, List.Forall₂ R xs ys := by
  induction xs with
  | nil => exact ⟨[], .nil⟩
  | cons x xs ih =>
    obtain ⟨⟨y, here⟩, others⟩ := List.forall_mem_cons.mp all
    obtain ⟨ys, rest⟩ := ih others
    exact ⟨y :: ys, .cons here rest⟩

/-- Every value the helpers write is clean and can be read. -/
theorem Output.value {levels : ℕ} {text : ByteString} (output : Output levels text) : Clean text ∧ ∃ v, ValueText levels v text := by
  induction output with
  | str s =>
    obtain ⟨string, clean⟩ := jsonStr_text s
    exact ⟨clean, .string (repair s), string⟩
  | @num levels x =>
    obtain ⟨clean, v, written, -⟩ := number_value (by decide) nine_finite levels
    exact ⟨clean, v, written⟩
  | @dbl levels x =>
    obtain ⟨clean, v, written, -⟩ := number_value (by decide) seventeen_finite levels
    exact ⟨clean, v, written⟩
  | @integer levels i => exact ⟨(toStringInt_value i levels).1, _, (toStringInt_value i levels).2⟩
  | @boolean levels b => exact ⟨(jsonBool_value b levels).1, _, (jsonBool_value b levels).2⟩
  | line _ keys ih =>
    obtain ⟨vs, values⟩ := forall₂_exists fun c member => (ih c member).2
    exact ⟨dumped_clean fun c member => (ih c member).1, _, dumped_object values keys⟩

theorem parse_value {levels : ℕ} (shallow : levels ≤ kMaxDepth + 1) {v : JsonValue} {text : ByteString} (written : ValueText levels v text)
    (out : JsonValue) : parseJson text out = (v, none) := by
  have read := (readJson_iff text v).mpr ⟨text, written.le shallow, .refl text⟩
  rw [parseJson, read]

theorem Call.value {levels : ℕ} (shallow : levels < kMaxDepth) {c : Call} (raws : ∀ k json, c = .raw k json → Output (levels + 1) json) :
    ∃ v, ValueText (levels + 1) v c.json ∧ c.Back v := by
  cases c with
  | str k s => exact ⟨.string (repair s), (jsonStr_text s).1, rfl⟩
  | num k x => exact (number_value (by decide) nine_finite levels).2
  | integer k i => exact ⟨_, (toStringInt_value i levels).2, rfl⟩
  | boolean k b => exact ⟨_, (jsonBool_value b levels).2, rfl⟩
  | raw k json =>
    obtain ⟨-, v, written⟩ := (raws k json rfl).value
    exact ⟨v, written, parse_value (by omega) written⟩

theorem Call.clean {levels : ℕ} {c : Call} (raws : ∀ k json, c = .raw k json → Output levels json) : Clean c.json := by
  cases c with
  | str k s => exact (jsonStr_text s).2
  | num k x => exact (number_value (by decide) nine_finite 0).1
  | integer k i => exact (toStringInt_text i).2
  | boolean k b => exact (jsonBool_value b 0).1
  | raw k json => exact (raws k json rfl).value.1

/-! ### Repair -/

/-- `t` is `s` with U+FFFD for every byte that does not start a well-formed sequence. -/
inductive Repaired : ByteString → ByteString → Prop
  | nil : Repaired [] []
  | char (c : Char) {s t : ByteString} (rest : Repaired s t) : Repaired (utf8 c ++ s) (utf8 c ++ t)
  | byte (b : UInt8) {s t : ByteString} (bad : ∀ c r, b :: s ≠ utf8 c ++ r) (rest : Repaired s t) : Repaired (b :: s) (utf8 replacement ++ t)

theorem repair_repaired (s : ByteString) : Repaired s (repair s) := by
  induction s using repair.induct with
  | case1 =>
    rw [repair]
    exact .nil
  | case2 c t bad ih =>
    rw [repair, if_pos bad]
    refine .byte c (fun x r split => ?_) ih
    have size := utf8Seq_utf8 x r
    have positive := utf8_pos x
    rw [← split, bad] at size
    omega
  | case3 c t long ih =>
    obtain ⟨x, rest, split, size⟩ := utf8Seq_sound long
    obtain ⟨b, u, head⟩ := List.exists_cons_of_ne_nil (String.utf8EncodeChar_ne_nil (c := x))
    have front : (c :: t).take (utf8Seq (c :: t)) = utf8 x := by
      rw [size, split, List.take_left]
    have back : t.drop (utf8Seq (c :: t) - 1) = rest := by
      have whole : (c :: t).drop (utf8Seq (c :: t)) = rest := by
        rw [size, split, List.drop_left]
      rw [← whole]
      conv_rhs => rw [show utf8Seq (c :: t) = utf8Seq (c :: t) - 1 + 1 by omega]
      rfl
    rw [repair, if_neg long, front]
    rw [back] at ih ⊢
    rw [split]
    exact .char x ih

theorem repair_wellFormed {s : ByteString} (valid : WellFormed s) : repair s = s := by
  obtain ⟨cs, rfl⟩ := valid
  induction cs with
  | nil => rw [List.flatMap_nil, repair]
  | cons c cs ih =>
    have size := utf8Seq_utf8 c (cs.flatMap utf8)
    obtain ⟨b, u, head⟩ := List.exists_cons_of_ne_nil (String.utf8EncodeChar_ne_nil (c := c))
    have head : utf8 c = b :: u := head
    rw [head] at size
    rw [List.flatMap_cons, head, List.cons_append, repair]
    rw [List.cons_append] at size
    rw [size, if_neg (by simp), ← List.cons_append, List.take_left, List.length_cons, Nat.add_sub_cancel, List.drop_left, ih]

/-- A line is clean whatever it is given, and the parser reads its members back in order up to its depth: the repaired key and the
value that was written, where a raw value is what it means on its own. Valid text comes back unchanged. -/
theorem dumped_line {calls : List Call} {levels : ℕ} (raws : ∀ k json, Call.raw k json ∈ calls → Output (levels + 1) json)
    (keys : (calls.map fun c => repair c.key).Nodup) :
    Clean (dumped calls) ∧
    (levels < kMaxDepth → ∃ members, (∀ out, parseJson (dumped calls) out = (.object members, none)) ∧
      List.Forall₂ (fun c m => m.1 = repair c.key ∧ c.Back m.2) calls members) ∧
    ∀ s, Repaired s (repair s) ∧ (WellFormed s → repair s = s) := by
  refine ⟨dumped_clean fun c member => Call.clean fun k json same => raws k json (same ▸ member), fun shallow => ?_,
    fun s => ⟨repair_repaired s, repair_wellFormed⟩⟩
  obtain ⟨vs, values⟩ := forall₂_exists fun c (member : c ∈ calls) => Call.value shallow fun k json same => raws k json (same ▸ member)
  have written := dumped_object (values.imp fun _ _ both => both.1) keys
  refine ⟨_, parse_value (by omega) written, ?_⟩
  clear written raws keys
  induction values with
  | nil => exact .nil
  | cons both _ ih => exact .cons ⟨rfl, both.2⟩ ih

/-- A line with an invalid byte in a string and a line inside it. -/
theorem dumped_line_nested :
    Clean (dumped [.str (ascii "a") [0xc3], .raw (ascii "b") (dumped [])]) ∧
    ∃ members, (∀ out, parseJson (dumped [.str (ascii "a") [0xc3], .raw (ascii "b") (dumped [])]) out = (.object members, none)) ∧
      members.length = 2 := by
  have keys : (([.str (ascii "a") [0xc3], .raw (ascii "b") (dumped [])] : List Call).map fun c => repair c.key).Nodup := by
    have same : ∀ k ∈ [ascii "a", ascii "b"], repair k = k := by
      have one : ∀ c : UInt8, c < 0x80 → repair [c] = [c] := by
        intro c small
        have size : utf8Seq [c] = 1 := if_pos small
        rw [repair, size, if_neg (by decide), List.drop_nil, repair]
        rfl
      simp only [List.forall_mem_cons]
      exact ⟨one _ (by decide), one _ (by decide), nofun⟩
    rw [List.map_cons, List.map_cons, List.map_nil, Call.key, Call.key, same _ (by decide), same _ (by decide)]
    decide
  have raws : ∀ k json, Call.raw k json ∈ [Call.str (ascii "a") [0xc3], .raw (ascii "b") (dumped [])] → Output (0 + 1) json := by
    intro k json member
    simp only [List.mem_cons, List.not_mem_nil, or_false, reduceCtorEq, false_or, Call.raw.injEq] at member
    rw [member.2]
    exact @Output.line 0 [] nofun (by decide)
  obtain ⟨clean, parsed, -⟩ := dumped_line raws keys
  obtain ⟨members, parse, values⟩ := parsed (by decide)
  exact ⟨clean, members, parse, values.length_eq.symm⟩

end Dyx3.Gateway
