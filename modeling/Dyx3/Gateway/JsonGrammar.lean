import Dyx3.Gateway.Json

/-!
The grammar of the gateway's JSON: RFC 8259 with well-formed UTF-8 in strings, no key twice, numbers that are finite as doubles and
a bounded depth. `parse_json` accepts exactly its texts and returns what they mean.
-/

namespace Dyx3.Gateway

open Lib Lib.ByteReader

/-! ### Strings -/

/-- The letter after the backslash and the character it stands for. -/
def shortEscapes : List (Char × ℕ) := [('"', 0x22), ('\\', 0x5c), ('/', 0x2f), ('b', 0x08), ('f', 0x0c), ('n', 0x0a), ('r', 0x0d), ('t', 0x09)]

/-- Four hexadecimal digits of either case. -/
structure HexText (v : ℕ) (ds : ByteString) : Prop where
  four : ds.length = 4
  hex : ∀ d ∈ ds, isHexDigit (char d) = true
  value : (ds.map char).foldl (fun n c => 16 * n + hexValue c) 0 = v

/-- How a character is written in a string. A surrogate is no character, so that only a pair of them is an escape. -/
inductive UnitText (c : Char) : ByteString → Prop
  | plain (printable : 0x20 ≤ c.toNat) (quote : c ≠ '"') (slash : c ≠ '\\') : UnitText c (utf8 c)
  | short {e : Char} (named : (e, c.toNat) ∈ shortEscapes) : UnitText c [byte '\\', byte e]
  | code {ds : ByteString} (hex : HexText c.toNat ds) : UnitText c (byte '\\' :: byte 'u' :: ds)
  | pair {high low : ℕ} {ds es : ByteString} (hex : HexText high ds) (hex' : HexText low es) (upper : IsHigh high) (lower : IsLow low)
      (value : c.toNat = pairPoint high low) : UnitText c (byte '\\' :: byte 'u' :: ds ++ byte '\\' :: byte 'u' :: es)

/-- A string and the bytes of its characters. -/
def StringText (s text : ByteString) : Prop := ∃ cs t, Quoted UnitText cs t ∧ s = cs.flatMap utf8 ∧ text = byte '"' :: t

/-! ### Numbers -/

/-- A number as it is written. -/
structure Numeral where
  neg : Bool
  int : ByteString
  frac : Option ByteString
  /-- The letter, the sign and the digits. -/
  exp : Option (UInt8 × Option UInt8 × ByteString)

/-- At least one digit. -/
structure Digits (ds : ByteString) : Prop where
  all : ∀ d ∈ ds, isDigit d = true
  nonempty : ds ≠ []

structure IntText (ds : ByteString) : Prop extends Digits ds where
  lead : ds.head? = some (byte '0') → ds.length = 1

structure ExpText (e : UInt8 × Option UInt8 × ByteString) : Prop where
  letter : e.1 = byte 'e' ∨ e.1 = byte 'E'
  sign : ∀ c ∈ e.2.1, c = byte '+' ∨ c = byte '-'
  digits : Digits e.2.2

def digitsValue (ds : ByteString) : ℕ := Nat.ofDigitChars 10 (ds.map char) 0

namespace Numeral

structure Ok (n : Numeral) : Prop where
  int : IntText n.int
  frac : ∀ ds ∈ n.frac, Digits ds
  exp : ∀ e ∈ n.exp, ExpText e

def sign (neg : Bool) : ByteString := if neg then [byte '-'] else []

def fracText : Option ByteString → ByteString
  | none => []
  | some ds => byte '.' :: ds

def expText : Option (UInt8 × Option UInt8 × ByteString) → ByteString
  | none => []
  | some (letter, sign, ds) => letter :: (sign.toList ++ ds)

def unsigned (n : Numeral) : ByteString := n.int ++ (fracText n.frac ++ expText n.exp)

def text (n : Numeral) : ByteString := sign n.neg ++ n.unsigned

def expValue : Option (UInt8 × Option UInt8 × ByteString) → ℤ
  | none => 0
  | some (_, sign, ds) => if sign = some (byte '-') then -(digitsValue ds : ℤ) else digitsValue ds

/-- The number rounded to a double. -/
def double (n : Numeral) : Double :=
  .ofDecimal n.neg (digitsValue (n.int ++ n.frac.getD [])) (expValue n.exp - (n.frac.getD []).length)

/-- The integer of at most 18 bytes. -/
def integer (n : Numeral) : Option ℤ :=
  if n.frac = none ∧ n.exp = none ∧ n.text.length ≤ 18 then some (if n.neg then -(digitsValue n.int : ℤ) else digitsValue n.int) else none

end Numeral

structure NumberText (x : Double) (i : Option ℤ) (text : ByteString) : Prop where
  finite : x.isFinite = true
  written : ∃ n : Numeral, n.Ok ∧ text = n.text ∧ x = n.double ∧ i = n.integer

/-! ### Values -/

def ElementText (V : JsonValue → ByteString → Prop) (v : JsonValue) (text : ByteString) : Prop := ∃ core, V v core ∧ Spaced core text

def MemberText (V : JsonValue → ByteString → Prop) (kv : ByteString × JsonValue) (text : ByteString) : Prop :=
  ∃ name before after, StringText kv.1 name ∧ Spaced name before ∧ ElementText V kv.2 after ∧ text = before ++ byte ':' :: after

/-- A value that nests less than so many levels deep. -/
def ValueText : ℕ → JsonValue → ByteString → Prop
  | 0, _, _ => False
  | _ + 1, .null, text => text = ascii "null"
  | _ + 1, .bool b, text => text = ascii (if b then "true" else "false")
  | _ + 1, .number x i, text => NumberText x i text
  | _ + 1, .string s, text => StringText s text
  | levels + 1, .array a, text => ∃ t, Bracketed (ElementText (ValueText levels)) (byte ']') a t ∧ text = byte '[' :: t
  | levels + 1, .object o, text =>
    ∃ t, Bracketed (MemberText (ValueText levels)) (byte '\x7d') o t ∧ (o.map Prod.fst).Nodup ∧ text = byte '\x7b' :: t

theorem ElementText.imp {V V' : JsonValue → ByteString → Prop} (weaker : ∀ {v core}, V v core → V' v core) {v : JsonValue} {text : ByteString}
    (element : ElementText V v text) : ElementText V' v text := by
  obtain ⟨core, written, spaced⟩ := element
  exact ⟨core, weaker written, spaced⟩

theorem MemberText.imp {V V' : JsonValue → ByteString → Prop} (weaker : ∀ {v core}, V v core → V' v core) {kv : ByteString × JsonValue}
    {text : ByteString} (member : MemberText V kv text) : MemberText V' kv text := by
  obtain ⟨name, before, after, string, spaced, element, split⟩ := member
  exact ⟨name, before, after, string, spaced, element.imp weaker, split⟩

/-- A value may nest less deep than it is allowed to. -/
theorem ValueText.le {levels levels' : ℕ} (le : levels ≤ levels') {v : JsonValue} {text : ByteString} (written : ValueText levels v text) :
    ValueText levels' v text := by
  induction levels generalizing levels' v text with
  | zero => cases written
  | succ levels ih =>
    obtain ⟨levels', rfl⟩ : ∃ n, levels' = n + 1 := ⟨levels' - 1, by omega⟩
    have deeper : ∀ {v text}, ValueText levels v text → ValueText levels' v text := fun inner => ih (by omega) inner
    cases v with
    | null => exact written
    | bool b => exact written
    | number x i => exact written
    | string s => exact written
    | array a =>
      obtain ⟨t, inner, split⟩ := written
      exact ⟨t, inner.imp fun element => element.imp deeper, split⟩
    | object o =>
      obtain ⟨t, inner, distinct, split⟩ := written
      exact ⟨t, inner.imp fun member => member.imp deeper, distinct, split⟩

/-- A JSON text and its value. -/
def JsonText (v : JsonValue) (text : ByteString) : Prop := ElementText (ValueText (kMaxDepth + 1)) v text

/-! ### Strings are read exactly -/

theorem HexText.lt {v : ℕ} {ds : ByteString} (hex : HexText v ds) : v < 0x10000 := by
  have digit : ∀ c, isHexDigit (char c) = true → hexValue (char c) < 16 := by
    have all : ∀ n < 256, isHexDigit (char (UInt8.ofNat n)) = true → hexValue (char (UInt8.ofNat n)) < 16 := by decide +kernel
    intro c
    have this := all c.toNat (UInt8.toNat_lt c)
    rwa [UInt8.ofNat_toNat] at this
  obtain ⟨four, all, value⟩ := hex
  match ds, four with
  | [a, b, c, d], _ =>
    have := digit a (all a (by simp))
    have := digit b (all b (by simp))
    have := digit c (all c (by simp))
    have := digit d (all d (by simp))
    simp only [List.map_cons, List.map_nil, List.foldl_cons, List.foldl_nil] at value
    omega

namespace P

theorem hexDigit_char (c : UInt8) : hexDigit c = if isHexDigit (char c) = true then some (hexValue (char c)) else none := by
  have all : ∀ n < 256, hexDigit (UInt8.ofNat n) =
      if isHexDigit (char (UInt8.ofNat n)) = true then some (hexValue (char (UInt8.ofNat n))) else none := by decide +kernel
  have this := all c.toNat (UInt8.toNat_lt c)
  rwa [UInt8.ofNat_toNat] at this

theorem hexLoop_sound {k r v : ℕ} {s rest : ByteString} (read : hexLoop k r s = .ok (v, rest)) :
    ∃ ds, s = ds ++ rest ∧ ds.length = k ∧ (∀ d ∈ ds, isHexDigit (char d) = true) ∧
      (ds.map char).foldl (fun n c => 16 * n + hexValue c) r = v := by
  induction k generalizing r s with
  | zero =>
    cases read
    exact ⟨[], rfl, rfl, nofun, rfl⟩
  | succ k ih =>
    cases s with
    | nil => cases read
    | cons c s =>
      rw [hexLoop, hexDigit_char] at read
      split at read
      · cases read
      · rename_i d digit
        split_ifs at digit with hex
        cases digit
        obtain ⟨ds, rfl, size, all, value⟩ := ih read
        refine ⟨c :: ds, rfl, by rw [List.length_cons, size], ?_, ?_⟩
        · exact List.forall_mem_cons.mpr ⟨hex, all⟩
        · rw [List.map_cons, List.foldl_cons, Nat.mul_comm 16]
          exact value

theorem hexLoop_complete {ds : ByteString} (all : ∀ d ∈ ds, isHexDigit (char d) = true) (r : ℕ) (rest : ByteString) :
    hexLoop ds.length r (ds ++ rest) = .ok ((ds.map char).foldl (fun n c => 16 * n + hexValue c) r, rest) := by
  induction ds generalizing r with
  | nil => rfl
  | cons d ds ih =>
    obtain ⟨hex, others⟩ := List.forall_mem_cons.mp all
    rw [List.length_cons, List.cons_append, hexLoop, hexDigit_char, if_pos hex]
    dsimp only
    rw [ih others, List.map_cons, List.foldl_cons, Nat.mul_comm 16]

theorem hex4_reads : Reads hex4 HexText fun _ => True where
  sound := by
    intro s v rest read
    rw [hex4] at read
    split at read
    · cases read
    · obtain ⟨ds, split, size, all, value⟩ := hexLoop_sound read
      exact ⟨ds, split, size, all, value⟩
  complete := by
    rintro v ds rest ⟨four, all, rfl⟩ -
    have long : ¬(ds ++ rest).length < 4 := by
      rw [List.length_append]
      omega
    have read := hexLoop_complete all 0 rest
    rw [four] at read
    rw [hex4, if_neg long, read]

/-- A unit of a string: the bytes of one character. -/
def CharText (out text : ByteString) : Prop := ∃ c, UnitText c text ∧ out = utf8 c

theorem utf8_of_toNat {c : Char} {n : ℕ} (code : c.toNat = n) : putUtf8 n = utf8 c := by
  rw [← code, putUtf8_utf8]

theorem pairPoint_char {high low : ℕ} (upper : IsHigh high) (lower : IsLow low) : ∃ c : Char, c.toNat = pairPoint high low := by
  obtain ⟨_, _⟩ := upper
  obtain ⟨_, _⟩ := lower
  apply exists_char
  · unfold pairPoint
    omega
  · unfold pairPoint
    omega

theorem codePoint_sound {s out rest : ByteString} (read : codePoint s = .ok (out, rest)) :
    ∃ text, s = text ++ rest ∧ CharText out (byte '\\' :: byte 'u' :: text) := by
  obtain ⟨⟨cp, t⟩, first, more⟩ := bind_ok read
  obtain ⟨ds, rfl, hex⟩ := hex4_reads.sound first
  dsimp only at more
  split at more
  · rename_i high
    split at more
    · cases more
    rename_i mark
    obtain ⟨⟨lo, u⟩, second, last⟩ := bind_ok more
    obtain ⟨es, split, hex'⟩ := hex4_reads.sound second
    dsimp only at last
    split at last
    · cases last
    rename_i low
    rw [not_not] at low mark
    obtain ⟨c, code⟩ := pairPoint_char high low
    have decoded : putUtf8 (0x10000 + (cp - 0xD800) * 0x400 + (lo - 0xDC00)) = utf8 c := by
      exact utf8_of_toNat (code.trans (by unfold pairPoint; omega))
    rw [decoded] at last
    obtain ⟨rfl, rfl⟩ := Prod.mk.inj (Except.ok.inj last)
    refine ⟨ds ++ byte '\\' :: byte 'u' :: es, ?_, c, .pair hex hex' high low code, rfl⟩
    have front : t = ascii "\\u" ++ t.drop 2 := by
      conv_lhs => rw [← List.take_append_drop 2 t, mark]
    rw [front, split, List.append_assoc]
    rfl
  · split at more
    · cases more
    rename_i high low
    cases more
    have small := hex.lt
    obtain ⟨c, code⟩ : ∃ c : Char, c.toNat = cp := by
      unfold IsHigh at high
      unfold IsLow at low
      exact exists_char (by omega) (by omega)
    exact ⟨ds, rfl, c, .code (code ▸ hex), utf8_of_toNat code⟩

theorem codePoint_code {c : Char} {ds : ByteString} (hex : HexText c.toNat ds) (rest : ByteString) : codePoint (ds ++ rest) = .ok (utf8 c, rest) := by
  have range := char_range c
  have high : ¬IsHigh c.toNat := by
    unfold IsHigh
    omega
  have low : ¬IsLow c.toNat := by
    unfold IsLow
    omega
  rw [codePoint, hex4_reads.complete hex trivial]
  simp only [bind, Except.bind, if_neg high, if_neg low, putUtf8_utf8]
  rfl

theorem codePoint_pair {c : Char} {high low : ℕ} {ds es : ByteString} (hex : HexText high ds) (hex' : HexText low es) (upper : IsHigh high)
    (lower : IsLow low) (value : c.toNat = pairPoint high low) (rest : ByteString) :
    codePoint (ds ++ byte '\\' :: byte 'u' :: es ++ rest) = .ok (utf8 c, rest) := by
  have decoded : putUtf8 (0x10000 + (high - 0xD800) * 0x400 + (low - 0xDC00)) = utf8 c :=
    utf8_of_toNat (value.trans (by unfold pairPoint; omega))
  have first : hex4 (ds ++ byte '\\' :: byte 'u' :: es ++ rest) = .ok (high, byte '\\' :: byte 'u' :: (es ++ rest)) := by
    rw [List.append_assoc]
    exact hex4_reads.complete hex trivial
  have second : hex4 (es ++ rest) = .ok (low, rest) := hex4_reads.complete hex' trivial
  have mark : ¬(byte '\\' :: byte 'u' :: (es ++ rest)).take 2 ≠ ascii "\\u" := not_not.mpr rfl
  rw [codePoint, first]
  simp only [bind, Except.bind, if_pos upper, if_neg mark, List.drop_succ_cons, List.drop_zero, second, not_not.mpr lower, if_false, decoded]
  rfl

theorem escape_cons (e : UInt8) (s : ByteString) : escape (e :: s) =
    match shortEscapes.find? fun pair => byte pair.1 = e with
    | some pair => .ok ([UInt8.ofNat pair.2], s)
    | none => if e = byte 'u' then codePoint s else fail "bad escape" s := by
  by_cases listed : e ∈ shortEscapes.map fun pair => byte pair.1
  · simp only [shortEscapes, List.map_cons, List.map_nil, List.mem_cons, List.not_mem_nil, or_false] at listed
    rcases listed with rfl | rfl | rfl | rfl | rfl | rfl | rfl | rfl <;> rfl
  · have other : ∀ pair ∈ shortEscapes, byte pair.1 ≠ e := fun pair member same => listed (List.mem_map.mpr ⟨pair, member, same⟩)
    have none : shortEscapes.find? (fun pair => byte pair.1 = e) = none :=
      List.find?_eq_none.mpr fun pair member => by simpa using other pair member
    simp only [shortEscapes, List.forall_mem_cons] at other
    obtain ⟨one, two, three, four, five, six, seven, eight, -⟩ := other
    rw [none, escape, if_neg one.symm, if_neg two.symm, if_neg three.symm, if_neg four.symm, if_neg five.symm, if_neg six.symm,
      if_neg seven.symm, if_neg eight.symm]

theorem shortEscapes_small : ∀ pair ∈ shortEscapes, pair.2 ≤ 0x7f := by decide

theorem short_unit {c e : Char} (named : (e, c.toNat) ∈ shortEscapes) (rest : ByteString) :
    escape (byte e :: rest) = .ok (utf8 c, rest) := by
  have once : ∀ pair ∈ shortEscapes, shortEscapes.find? (fun other => byte other.1 = byte pair.1) = some pair := by decide
  rw [escape_cons, once _ named, utf8_one (shortEscapes_small _ named)]

theorem escape_sound {s out rest : ByteString} (read : escape s = .ok (out, rest)) :
    ∃ text, s = text ++ rest ∧ CharText out (byte '\\' :: text) := by
  cases s with
  | nil => cases read
  | cons e s =>
    rw [escape_cons] at read
    split at read
    · rename_i pair found
      cases read
      have named := List.mem_of_find?_eq_some found
      have same : byte pair.1 = e := by simpa using List.find?_some found
      have small := shortEscapes_small pair named
      obtain ⟨c, code⟩ := exists_char (v := pair.2) (by omega) (by omega)
      refine ⟨[e], rfl, c, ?_, ?_⟩
      · rw [← same]
        exact .short (code ▸ named)
      · rw [utf8_one (by omega), code]
    · split at read
      · rename_i letter
        obtain ⟨text, rfl, unit⟩ := codePoint_sound read
        exact ⟨e :: text, rfl, letter ▸ unit⟩
      · cases read

theorem unit_reads : ReadsUnits unit CharText where
  sound := by
    intro c t out rest quote read
    rw [unit] at read
    split at read
    · cases read
    rename_i printable
    split at read
    · rename_i large
      split at read
      · cases read
      rename_i long
      obtain ⟨x, more, front, size⟩ := utf8Seq_sound long
      rw [size, front, List.take_left, List.drop_left] at read
      cases read
      obtain ⟨b, u, head, one, -⟩ := utf8_head x
      have same : c = b := by
        rw [head] at front
        exact (List.cons.inj front).1
      have high : 0x80 ≤ c.toNat := UInt8.le_iff_toNat_le.mp large
      have wide : 0x80 ≤ x.toNat := by
        by_contra less
        have := (one (not_le.mp less)).1
        rw [same] at high
        omega
      refine ⟨utf8 x, front, x, .plain (by omega) ?_ ?_, rfl⟩
      · rintro rfl
        exact absurd wide (by decide)
      · rintro rfl
        exact absurd wide (by decide)
    · rename_i small
      have low : c.toNat < 0x80 := not_le.mp fun large => small (UInt8.le_iff_toNat_le.mpr large)
      split at read
      · rename_i slash
        cases read
        refine ⟨[c], rfl, char c, ?_, (utf8_byte low).symm⟩
        rw [← utf8_byte low]
        refine .plain ?_ ?_ ?_
        · rw [char_toNat]
          exact not_lt.mp fun less => printable (UInt8.lt_iff_toNat_lt.mpr less)
        · intro same
          exact quote (by rw [← byte_char c, same])
        · intro same
          exact slash (by rw [← byte_char c, same])
      · rename_i slash
        rw [not_not] at slash
        obtain ⟨text, rfl, unit⟩ := escape_sound read
        exact ⟨c :: text, rfl, slash ▸ unit⟩
  complete := by
    rintro _ text rest ⟨c, written, rfl⟩
    have slash : ∀ t, unit (byte '\\' :: t) = escape t := fun _ => rfl
    cases written with
    | plain printable quote back =>
      obtain ⟨b, t, head, one, many⟩ := utf8_head c
      rcases Nat.lt_or_ge c.toNat 0x80 with small | large
      · obtain ⟨code, rfl⟩ := one small
        have other : b ≠ byte '\\' := by
          rintro rfl
          exact back (by rw [← Char.toNat_inj, ← code]; rfl)
        rw [head, List.singleton_append, unit, if_neg (by rw [UInt8.lt_iff_toNat_lt, code]; exact not_lt.mpr printable),
          if_neg (by rw [UInt8.le_iff_toNat_le, code]; exact not_le.mpr small), if_pos other]
      · have high := many large
        have size := utf8Seq_utf8 c rest
        have positive := utf8_pos c
        rw [head, List.cons_append] at size
        rw [head, List.cons_append, unit, if_neg (by rw [UInt8.lt_iff_toNat_lt]; exact not_lt.mpr (le_trans (by decide) high)),
          if_pos (show 0x80 ≤ b from UInt8.le_iff_toNat_le.mpr high), if_neg (by rw [size]; rw [head] at positive; exact positive.ne'), size, ← List.cons_append,
          List.take_left, List.drop_left]
    | short named =>
      rw [List.cons_append, slash]
      exact short_unit named rest
    | code hex =>
      rw [List.cons_append, slash]
      exact codePoint_code hex rest
    | pair hex hex' upper lower value =>
      rw [List.cons_append, List.cons_append, List.cons_append, slash]
      exact codePoint_pair hex hex' upper lower value rest
  inside := by
    rintro _ text ⟨c, written, -⟩
    cases written with
    | plain printable quote back =>
      obtain ⟨b, t, head, one, many⟩ := utf8_head c
      refine ⟨b, t, head, ?_⟩
      rintro rfl
      rcases Nat.lt_or_ge c.toNat 0x80 with small | large
      · exact quote (by rw [← Char.toNat_inj, ← (one small).1]; rfl)
      · exact absurd (many large) (by decide)
    | short => exact ⟨_, _, rfl, by decide⟩
    | code => exact ⟨_, _, rfl, by decide⟩
    | pair => exact ⟨_, _, rfl, by decide⟩

/-- The units of a string are characters. -/
theorem chars_units {vs texts : List ByteString} (units : List.Forall₂ CharText vs texts) :
    ∃ cs, List.Forall₂ UnitText cs texts ∧ vs.flatten = cs.flatMap utf8 := by
  induction units with
  | nil => exact ⟨[], .nil, rfl⟩
  | cons first _ ih =>
    obtain ⟨c, written, rfl⟩ := first
    obtain ⟨cs, others, rest⟩ := ih
    exact ⟨c :: cs, .cons written others, by rw [List.flatten_cons, rest, List.flatMap_cons]⟩

theorem units_chars {cs : List Char} {texts : List ByteString} (written : List.Forall₂ UnitText cs texts) :
    List.Forall₂ CharText (cs.map utf8) texts :=
  List.forall₂_map_left_iff.mpr (written.imp fun c _ text => ⟨c, text, rfl⟩)

theorem string_reads : Reads string StringText fun _ => True where
  sound := by
    intro s v rest read
    cases s with
    | nil => cases read
    | cons c s =>
      rw [string] at read
      split at read
      · cases read
      rename_i quote
      rw [not_not] at quote
      obtain ⟨⟨vs, t⟩, taken, last⟩ := bind_ok read
      cases last
      obtain ⟨text, split, texts, units, rfl⟩ := quoted_sound unit_reads taken
      obtain ⟨cs, written, value⟩ := chars_units units
      exact ⟨c :: (texts.flatten ++ [byte '"']), by rw [split]; rfl, cs, _, ⟨texts, written, rfl⟩, value, by rw [quote]⟩
  complete := by
    rintro _ _ rest ⟨cs, t, ⟨texts, written, rfl⟩, rfl, rfl⟩ -
    have taken := @quoted_complete _ _ unit (fun s => (⟨"unterminated string", s⟩ : JsonError)) _ unit_reads _ _ ⟨texts, units_chars written, rfl⟩
      ((texts.flatten ++ [byte '"'] ++ rest).length + 1) (by simp only [List.length_append]; omega) rest
    rw [List.cons_append, string, if_neg (by simp), taken]
    simp only [bind, Except.bind, List.flatMap_def]
    rfl

/-! ### Numbers are read exactly -/

/-- What is left does not go on with a digit. -/
def NoDigit (rest : ByteString) : Prop := ∀ c ∈ rest.head?, isDigit c = false

/-- What is left does not go on with the number. -/
def NumberStops (rest : ByteString) : Prop := ∀ c ∈ rest.head?, isDigit c = false ∧ c ≠ byte '.' ∧ c ≠ byte 'e' ∧ c ≠ byte 'E'

theorem NumberStops.noDigit {rest : ByteString} (stops : NumberStops rest) : NoDigit rest := fun c here => (stops c here).1

theorem noDigit_cons {c : UInt8} (other : isDigit c = false) (t : ByteString) : NoDigit (c :: t) := by
  rintro _ ⟨⟩
  exact other

theorem dropDigits {ds rest : ByteString} (all : ∀ d ∈ ds, isDigit d = true) (stop : NoDigit rest) : (ds ++ rest).dropWhile isDigit = rest := by
  rw [List.dropWhile_append_of_pos all]
  cases rest with
  | nil => rfl
  | cons c t => exact List.dropWhile_cons_of_neg (by simp [stop c rfl])

theorem digitNext_digits {ds : ByteString} (digits : Digits ds) (rest : ByteString) : digitNext (ds ++ rest) = true := by
  obtain ⟨d, t, rfl⟩ := List.exists_cons_of_ne_nil digits.nonempty
  exact digits.all d List.mem_cons_self

theorem digitNext_stop {rest : ByteString} (stop : NoDigit rest) : digitNext rest = false := by
  cases rest with
  | nil => rfl
  | cons c t => exact stop c rfl

/-- A run of digits is taken as long as it goes. -/
theorem digits_split {s : ByteString} (next : digitNext s = true) : ∃ ds, Digits ds ∧ s = ds ++ s.dropWhile isDigit := by
  refine ⟨s.takeWhile isDigit, ⟨fun d member => List.mem_takeWhile_imp member, ?_⟩, List.takeWhile_append_dropWhile.symm⟩
  cases s with
  | nil => cases next
  | cons c t =>
    rw [List.takeWhile_cons_of_pos (p := isDigit) next]
    exact List.cons_ne_nil _ _

theorem intPart_sound {s rest : ByteString} (read : intPart s = .ok rest) : ∃ ds, IntText ds ∧ s = ds ++ rest := by
  cases s with
  | nil => cases read
  | cons c s =>
    rw [intPart] at read
    split at read
    · rename_i zero
      split at read
      · cases read
      cases read
      refine ⟨[c], ⟨⟨?_, List.cons_ne_nil _ _⟩, fun _ => rfl⟩, rfl⟩
      rintro d (member : d ∈ [c])
      rw [List.mem_singleton.mp member, zero]
      rfl
    · rename_i zero
      split at read
      · rename_i range
        cases read
        have digit : isDigit c = true := by
          rw [isDigit, Bool.and_eq_true, decide_eq_true_eq, decide_eq_true_eq]
          exact ⟨UInt8.le_trans (by decide) range.1, range.2⟩
        obtain ⟨ds, digits, split⟩ := digits_split (s := c :: s) digit
        refine ⟨ds, ⟨digits, fun lead => absurd ?_ zero⟩, split⟩
        obtain ⟨t, rfl⟩ := List.head?_eq_some_iff.mp lead
        exact (List.cons.inj split).1
      · cases read

theorem intPart_complete {ds rest : ByteString} (int : IntText ds) (stop : NoDigit rest) : intPart (ds ++ rest) = .ok rest := by
  obtain ⟨c, t, rfl⟩ := List.exists_cons_of_ne_nil int.nonempty
  rw [List.cons_append, intPart]
  split
  · rename_i zero
    have size := int.lead (by rw [zero]; rfl)
    obtain rfl : t = [] := List.length_eq_zero_iff.mp (by simpa using size)
    rw [List.nil_append, digitNext_stop stop]
    rfl
  · rename_i zero
    have digit := int.all c List.mem_cons_self
    rw [isDigit, Bool.and_eq_true, decide_eq_true_eq, decide_eq_true_eq] at digit
    have range : byte '1' ≤ c := by
      have apart : c.toNat ≠ (byte '0').toNat := fun same => zero (UInt8.toNat_inj.mp same)
      have low := UInt8.le_iff_toNat_le.mp digit.1
      exact UInt8.le_iff_toNat_le.mpr (show (byte '0').toNat + 1 ≤ c.toNat by omega)
    rw [if_pos ⟨range, digit.2⟩, ← List.cons_append, dropDigits int.all stop]

theorem fraction_sound {s rest : ByteString} (read : fraction s = .ok rest) :
    ∃ frac, (∀ ds ∈ frac, Digits ds) ∧ s = Numeral.fracText frac ++ rest := by
  rw [fraction] at read
  split at read
  · rename_i point
    obtain ⟨t, rfl⟩ := List.head?_eq_some_iff.mp point
    rw [List.tail_cons] at read
    split at read
    · rename_i next
      cases read
      obtain ⟨ds, digits, split⟩ := digits_split next
      refine ⟨some ds, ?_, ?_⟩
      · rintro _ ⟨⟩
        exact digits
      · conv_lhs => rw [split]
        rfl
    · cases read
  · cases read
    exact ⟨none, nofun, rfl⟩

theorem fraction_complete {frac : Option ByteString} {rest : ByteString} (ok : ∀ ds ∈ frac, Digits ds) (stop : NoDigit rest)
    (point : rest.head? ≠ some (byte '.')) : fraction (Numeral.fracText frac ++ rest) = .ok rest := by
  cases frac with
  | none => exact if_neg point
  | some ds =>
    have digits := ok ds rfl
    rw [Numeral.fracText, List.cons_append, fraction, List.head?_cons, if_pos rfl, List.tail_cons, digitNext_digits digits, if_pos rfl,
      dropDigits digits.all stop]

theorem afterSign_split (t : ByteString) :
    ∃ sign : Option UInt8, (∀ c ∈ sign, c = byte '+' ∨ c = byte '-') ∧ t = sign.toList ++ afterSign t := by
  unfold afterSign
  split
  · rename_i mark
    obtain here | here := mark
    · obtain ⟨u, rfl⟩ := List.head?_eq_some_iff.mp here
      exact ⟨some (byte '+'), by rintro _ ⟨⟩; exact Or.inl rfl, rfl⟩
    · obtain ⟨u, rfl⟩ := List.head?_eq_some_iff.mp here
      exact ⟨some (byte '-'), by rintro _ ⟨⟩; exact Or.inr rfl, rfl⟩
  · exact ⟨none, nofun, rfl⟩

theorem afterSign_digits {sign : Option UInt8} {ds : ByteString} (signed : ∀ c ∈ sign, c = byte '+' ∨ c = byte '-') (digits : Digits ds)
    (rest : ByteString) : afterSign (sign.toList ++ ds ++ rest) = ds ++ rest := by
  cases sign with
  | some mark =>
    have known : mark = byte '+' ∨ mark = byte '-' := signed mark rfl
    exact if_pos (known.imp (fun same => by rw [same]; rfl) fun same => by rw [same]; rfl)
  | none =>
    obtain ⟨d, t, rfl⟩ := List.exists_cons_of_ne_nil digits.nonempty
    have digit := digits.all d List.mem_cons_self
    refine if_neg ?_
    rintro (⟨⟨⟩⟩ | ⟨⟨⟩⟩)
    · exact absurd digit (by decide)
    · exact absurd digit (by decide)

theorem exponent_sound {s rest : ByteString} (read : exponent s = .ok rest) :
    ∃ exp, (∀ e ∈ exp, ExpText e) ∧ s = Numeral.expText exp ++ rest := by
  rw [exponent] at read
  split at read
  · rename_i marked
    obtain ⟨c, t, rfl, letter⟩ : ∃ c t, s = c :: t ∧ (c = byte 'e' ∨ c = byte 'E') := by
      obtain here | here := marked
      · obtain ⟨t, rfl⟩ := List.head?_eq_some_iff.mp here
        exact ⟨_, t, rfl, Or.inl rfl⟩
      · obtain ⟨t, rfl⟩ := List.head?_eq_some_iff.mp here
        exact ⟨_, t, rfl, Or.inr rfl⟩
    rw [List.tail_cons] at read
    obtain ⟨sign, signed, front⟩ := afterSign_split t
    split at read
    · rename_i next
      cases read
      obtain ⟨ds, digits, split⟩ := digits_split next
      refine ⟨some (c, sign, ds), ?_, ?_⟩
      · rintro _ ⟨⟩
        exact ⟨letter, signed, digits⟩
      · conv_lhs => rw [front, split]
        simp only [Numeral.expText, List.cons_append, List.append_assoc]
    · cases read
  · cases read
    exact ⟨none, nofun, rfl⟩

theorem exponent_complete {exp : Option (UInt8 × Option UInt8 × ByteString)} {rest : ByteString} (ok : ∀ e ∈ exp, ExpText e)
    (stops : NumberStops rest) : exponent (Numeral.expText exp ++ rest) = .ok rest := by
  cases exp with
  | none =>
    refine if_neg ?_
    rintro (here | here)
    · exact (stops _ here).2.2.1 rfl
    · exact (stops _ here).2.2.2 rfl
  | some e =>
    obtain ⟨c, sign, ds⟩ := e
    obtain ⟨letter, signed, digits⟩ := ok _ rfl
    dsimp only at letter signed digits
    have marked : (c :: (sign.toList ++ ds) ++ rest).head? = some (byte 'e') ∨ (c :: (sign.toList ++ ds) ++ rest).head? = some (byte 'E') :=
      letter.imp (fun same => by rw [same]; rfl) fun same => by rw [same]; rfl
    rw [Numeral.expText, exponent, if_pos marked, List.cons_append, List.tail_cons, afterSign_digits signed digits, digitNext_digits digits, if_pos rfl, dropDigits digits.all stops.noDigit]

section

variable {n : Numeral} (ok : n.Ok)

include ok

theorem expText_noDigit : Lib.NoDigit ((Numeral.expText n.exp).map char) := by
  cases exp : n.exp with
  | none => exact nofun
  | some e =>
    refine Lib.noDigit_cons ?_
    obtain same | same := (ok.exp e exp).letter <;> rw [same] <;> rfl

theorem expText_notPoint (t : List Char) : (Numeral.expText n.exp).map char ≠ '.' :: t := by
  intro same
  cases exp : n.exp with
  | none =>
    rw [exp] at same
    cases same
  | some e =>
    rw [exp] at same
    have here := (List.cons.inj same).1
    obtain letter | letter := (ok.exp e exp).letter <;> rw [letter] at here <;> exact absurd here (by decide)

theorem scanPoint_numeral : scanPoint Char.isDigit (n.unsigned.map char) =
    (n.int.map char, (n.frac.getD []).map char, (Numeral.expText n.exp).map char) := by
  have ints := digits_chars ok.int.all
  rw [Numeral.unsigned, List.map_append]
  cases frac : n.frac with
  | none =>
    obtain ⟨taken, dropped⟩ := scan_digits ints (expText_noDigit ok)
    rw [Numeral.fracText, List.nil_append, scanPoint, taken, dropped]
    split
    · rename_i t point
      exact absurd point (expText_notPoint ok t)
    · rfl
  | some ds =>
    obtain ⟨taken, dropped⟩ := scan_digits ints (show Lib.NoDigit ((byte '.' :: (ds ++ Numeral.expText n.exp)).map char) from Lib.noDigit_cons rfl)
    obtain ⟨taken', dropped'⟩ := scan_digits (digits_chars (ok.frac ds frac).all) (expText_noDigit ok)
    rw [Numeral.fracText, List.cons_append, scanPoint, taken, dropped]
    show (n.int.map char, ((ds ++ Numeral.expText n.exp).map char).takeWhile Char.isDigit,
      ((ds ++ Numeral.expText n.exp).map char).dropWhile Char.isDigit) = _
    rw [List.map_append, taken', dropped']
    rfl

theorem scanExponent_numeral : scanExponent 'e' ((Numeral.expText n.exp).map char) = (Numeral.expValue n.exp, []) := by
  cases exp : n.exp with
  | none => rfl
  | some e =>
    obtain ⟨letter, sign, ds⟩ := e
    obtain ⟨known, signed, digits⟩ := ok.exp _ exp
    dsimp only at known signed digits
    have lower : (char letter).toLower = 'e' := by
      obtain rfl | rfl := known <;> rfl
    have all := digits_chars digits.all
    have some : ds.map char ≠ [] := fun none => digits.nonempty (List.map_eq_nil_iff.mp none)
    have scanned : scanSign ((sign.toList ++ ds).map char) = (decide (sign = Option.some (byte '-')), ds.map char ++ []) := by
      rw [List.append_nil]
      cases sign with
      | none =>
        obtain ⟨d, t, rfl⟩ := List.exists_cons_of_ne_nil digits.nonempty
        exact scanSign_digit false rfl (all (char d) List.mem_cons_self)
      | some mark =>
        obtain rfl | rfl := signed mark rfl
        · rfl
        · rfl
    rw [Numeral.expText, List.map_cons, scanExponent_mark lower scanned all some Lib.noDigit_nil, Numeral.expValue, digitsValue]
    simp only [decide_eq_true_eq]

theorem unsigned_digit : ∃ d t, n.unsigned = d :: t ∧ isDigit d = true := by
  obtain ⟨d, t, int⟩ := List.exists_cons_of_ne_nil ok.int.nonempty
  refine ⟨d, t ++ (Numeral.fracText n.frac ++ Numeral.expText n.exp), by rw [Numeral.unsigned, int]; rfl, ?_⟩
  exact ok.int.all d (by rw [int]; exact List.mem_cons_self)

theorem unsigned_head : ∃ d t, n.unsigned.map char = d :: t ∧ d.isDigit = true := by
  obtain ⟨d, t, head, digit⟩ := unsigned_digit ok
  rw [isDigit_char] at digit
  exact ⟨char d, t.map char, by rw [head]; rfl, digit⟩

theorem unsigned_chars : ∀ c ∈ n.unsigned.map char, Spelling.isNumberChar c = true := by
  have digits : ∀ ds : ByteString, (∀ d ∈ ds, isDigit d = true) → ∀ d ∈ ds, Spelling.isNumberChar (char d) = true := by
    intro ds all d member
    have digit := all d member
    rw [isDigit_char] at digit
    simp [Spelling.isNumberChar, digit]
  intro c member
  obtain ⟨b, inside, rfl⟩ := List.mem_map.mp member
  simp only [Numeral.unsigned, List.mem_append] at inside
  rcases inside with member | member | member
  · exact digits _ ok.int.all b member
  · cases frac : n.frac with
    | none =>
      rw [frac] at member
      cases member
    | some ds =>
      rw [frac] at member
      rcases List.mem_cons.mp member with rfl | member
      · rfl
      · exact digits ds (ok.frac ds frac).all b member
  · cases exp : n.exp with
    | none =>
      rw [exp] at member
      cases member
    | some e =>
      obtain ⟨letter, sign, ds⟩ := e
      obtain ⟨known, signed, all⟩ := ok.exp _ exp
      rw [exp] at member
      simp only [Numeral.expText, List.mem_cons, List.mem_append, Option.mem_toList] at member
      rcases member with rfl | here | member
      · obtain rfl | rfl := known <;> rfl
      · obtain rfl | rfl := signed b here <;> rfl
      · exact digits ds all.all b member

theorem strtod_text : strtod n.text = n.double := by
  obtain ⟨d, t, head, first⟩ := unsigned_head ok
  have whole : n.text.map char = signText n.neg ++ n.unsigned.map char := by
    rw [Numeral.text, List.map_append]
    cases n.neg <;> rfl
  have scanned : scanDecimal (n.unsigned.map char) =
      some ((digitsValue (n.int ++ n.frac.getD []), Numeral.expValue n.exp - (n.frac.getD []).length), []) := by
    have some : n.int.map char ++ (n.frac.getD []).map char ≠ [] :=
      List.append_ne_nil_of_left_ne_nil (fun none => ok.int.nonempty (List.map_eq_nil_iff.mp none)) _
    simp only [scanDecimal, scanPoint_numeral ok, if_neg some, scanExponent_numeral ok, digitsValue, List.map_append, List.length_map]
  have signed : scanSign ((n.text.map char).dropWhile isSpace) = (n.neg, n.unsigned.map char) := by
    rw [whole, dropSpace_signed head first, scanSign_digit n.neg head first]
  rw [strtod, strtod_decimal signed (unsigned_chars ok) scanned]
  rfl

/-- An integral number. -/
theorem strtoll_text (whole : n.frac = none) (plain : n.exp = none) :
    strtoll n.text = if n.neg then -(digitsValue n.int : ℤ) else digitsValue n.int := by
  have text : n.unsigned = n.int := by
    rw [Numeral.unsigned, whole, plain]
    exact List.append_nil _
  rw [Numeral.text, text, strtoll]
  cases n.neg with
  | true => rfl
  | false =>
    obtain ⟨d, t, int⟩ := List.exists_cons_of_ne_nil ok.int.nonempty
    have digit := ok.int.all d (by rw [int]; exact List.mem_cons_self)
    refine if_neg ?_
    rw [int]
    rintro ⟨⟩
    exact absurd digit (by decide)

end

theorem consumed_append (s t : ByteString) : consumed (s ++ t) t = s := by
  rw [consumed, List.length_append, Nat.add_sub_cancel, List.take_left]

/-- What is left after the integer part tells whether it was the whole number. -/
theorem integral_length (n : Numeral) (rest : ByteString) :
    rest.length = (Numeral.fracText n.frac ++ (Numeral.expText n.exp ++ rest)).length ↔ n.frac = none ∧ n.exp = none := by
  obtain ⟨_, _, frac, exp⟩ := n
  cases frac <;> cases exp <;> simp [Numeral.fracText, Numeral.expText]
  all_goals omega

/-- The value of a numeral as the parser computes it. -/
theorem number_value {n : Numeral} (ok : n.Ok) (rest : ByteString) :
    (if rest.length = (Numeral.fracText n.frac ++ (Numeral.expText n.exp ++ rest)).length ∧ n.text.length ≤ 18 then some (strtoll n.text) else none) =
      n.integer := by
  simp only [Numeral.integer, integral_length, and_assoc]
  split
  · rename_i whole
    rw [strtoll_text ok whole.1 whole.2.1]
  · rfl

theorem number_reads : Reads number (fun v text => ∃ x i, v = .number x i ∧ NumberText x i text) NumberStops where
  sound := by
    intro s v rest read
    obtain ⟨afterInt, first, more⟩ := bind_ok read
    obtain ⟨afterFraction, second, more⟩ := bind_ok more
    obtain ⟨t, third, last⟩ := bind_ok more
    obtain ⟨ds, intText, split⟩ := intPart_sound first
    obtain ⟨frac, fracOk, rfl⟩ := fraction_sound second
    obtain ⟨exp, expOk, rfl⟩ := exponent_sound third
    obtain ⟨neg, signed⟩ : ∃ neg, s = Numeral.sign neg ++ if s.head? = some (byte '-') then s.tail else s := by
      split
      · rename_i minus
        obtain ⟨u, rfl⟩ := List.head?_eq_some_iff.mp minus
        exact ⟨true, rfl⟩
      · exact ⟨false, rfl⟩
    rw [split] at signed
    have ok : (⟨neg, ds, frac, exp⟩ : Numeral).Ok := ⟨intText, fracOk, expOk⟩
    have text : s = (⟨neg, ds, frac, exp⟩ : Numeral).text ++ t := by
      rw [signed]
      simp only [Numeral.text, Numeral.unsigned, List.append_assoc]
    have value := number_value ok t
    dsimp only at value last
    rw [text, consumed_append, strtod_text ok, value] at last
    split at last
    · cases last
    rename_i finite
    cases last
    exact ⟨_, text, _, _, rfl, by simpa using finite, _, ok, rfl, rfl, rfl⟩
  complete := by
    rintro _ text rest ⟨_, _, rfl, finite, n, ok, rfl, rfl, rfl⟩ stops
    have after : (if (n.text ++ rest).head? = some (byte '-') then (n.text ++ rest).tail else n.text ++ rest) = n.unsigned ++ rest := by
      rw [Numeral.text]
      cases n.neg with
      | true => rfl
      | false =>
        obtain ⟨c, t, head, digit⟩ := unsigned_digit ok
        refine if_neg ?_
        rw [head]
        rintro ⟨⟩
        exact absurd digit (by decide)
    have next : ∀ c ∈ (Numeral.expText n.exp ++ rest).head?, isDigit c = false ∧ c ≠ byte '.' := by
      cases exp : n.exp with
      | none => exact fun c here => ⟨(stops c here).1, (stops c here).2.1⟩
      | some e =>
        rintro _ ⟨⟩
        obtain letter | letter := (ok.exp e exp).letter <;> rw [letter] <;> exact ⟨by decide, by decide⟩
    have stop : NoDigit (Numeral.expText n.exp ++ rest) := fun c here => (next c here).1
    have point : (Numeral.expText n.exp ++ rest).head? ≠ some (byte '.') := fun here => (next _ here).2 rfl
    have stop' : NoDigit (Numeral.fracText n.frac ++ (Numeral.expText n.exp ++ rest)) := by
      cases n.frac with
      | none => exact stop
      | some ds => exact noDigit_cons rfl _
    have int : intPart (n.unsigned ++ rest) = .ok (Numeral.fracText n.frac ++ (Numeral.expText n.exp ++ rest)) := by
      rw [Numeral.unsigned, List.append_assoc, List.append_assoc]
      exact intPart_complete ok.int stop'
    rw [number, after, int]
    simp only [bind, Except.bind, fraction_complete ok.frac stop point, exponent_complete ok.exp stops, consumed_append, strtod_text ok, finite,
      number_value ok]
    rfl

end P

end Dyx3.Gateway
