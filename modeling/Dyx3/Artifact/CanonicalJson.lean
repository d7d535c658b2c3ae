import Dyx3.Artifact.Numbers
import Dyx3.Lib.JsonReader

/-!
`CanonicalJson` (dyx3_mission, path_artifact): the recogniser of the `meta` line. It accepts exactly the canonical
text of an object with at most 65 levels of nesting.
-/

namespace Dyx3.Artifact.CanonicalJson

open Lib Json

/-! ### The recogniser -/

/-- Nesting is at depths 0 to 64: stricter than Python on purpose. -/
def kMaxDepth : ℕ := 64

/-- Upper-case hex is not what `json.dumps` writes. -/
def lowerHex (c : Char) : Option ℕ :=
  if '0' ≤ c ∧ c ≤ '9' then some (c.toNat - 48)
  else if 'a' ≤ c ∧ c ≤ 'f' then some (c.toNat - 87)
  else none

def hex4 : Bytes → Option ℕ := readHex4 lowerHex

/-- The escapes of one letter. -/
def letter : Char → Option ℕ
  | '"' => some 0x22
  | '\\' => some 0x5c
  | 'n' => some 0x0a
  | 'r' => some 0x0d
  | 't' => some 0x09
  | 'b' => some 0x08
  | 'f' => some 0x0c
  | _ => none

/-- One character of a string. -/
def character : Bytes → Option (ℕ × Bytes)
  | [] => none
  | c :: t =>
    if c.toNat < 0x20 ∨ 0x7e < c.toNat then none
    else if c ≠ '\\' then some (c.toNat, t)
    else
      match t with
      | [] => none
      | e :: t =>
        if e = 'u' then do
          let u ← hex4 t
          let t := t.drop 4
          -- would have been written literally
          if IsPrintable u then none
          else if u = 0x08 ∨ u = 0x09 ∨ u = 0x0a ∨ u = 0x0c ∨ u = 0x0d then none
          else some (withLow hex4 u t)
        else (letter e).map (·, t)

/-- A string after its opening quote. -/
def string (s : Bytes) : Option (Str × Bytes) := readString character (s.length + 1) s

/-- At least one digit. -/
def digits : Bytes → Option Bytes
  | [] => none
  | c :: t => if c.isDigit then some (t.dropWhile Char.isDigit) else none

/-- A zero stands alone. -/
def intEnd : Bytes → Option Bytes
  | '0' :: t => some t
  | s => digits s

def fractionEnd : Bytes → Option (Bool × Bytes)
  | '.' :: t => (digits t).map (true, ·)
  | s => some (false, s)

def exponentEnd (isFloat : Bool) (s : Bytes) : Option (Bool × Bytes) :=
  match s with
  | [] => some (isFloat, [])
  | c :: t => if c = 'e' ∨ c = 'E' then (digits (scanSign t).2).map (true, ·) else some (isFloat, s)

/-- Where a number ends, and whether it is a float. -/
def numberEnd (s : Bytes) : Option (Bool × Bytes) := do
  let s ← intEnd (scanMinus s).2
  let (isFloat, s) ← fractionEnd s
  exponentEnd isFloat s

def number (s : Bytes) : Option Bytes := do
  let (isFloat, rest) ← numberEnd s
  let tok := s.take (s.length - rest.length)
  if isFloat then (parseCanonicalDouble tok).map fun _ => rest
  -- json.loads gives int 0, which dumps as "0"
  else if tok ≠ "-0".toList then some rest
  else none

/-- One member; the keys must be in strict order. -/
def member (value : Bytes → Option Bytes) (isObject : Bool) : ItemReader (Option Str) := fun prev s =>
  if isObject then do
    let s ← afterWord ['"'] s
    let (key, s) ← string s
    if ∀ p ∈ prev, p < key then
      let s ← afterWord [':'] s
      let s ← value s
      some (some key, s)
    else none
  else (value s).map (prev, ·)

/-- With so many levels left. -/
def value : ℕ → Bytes → Option Bytes
  | 0, _ => none
  | levels + 1, s =>
    match s with
    | [] => none
    | c :: t =>
      if c = '{' then (readSequence (member (value levels) true) '}' none t).map (·.2)
      else if c = '[' then (readSequence (member (value levels) false) ']' none t).map (·.2)
      else if c = '"' then (string t).map (·.2)
      else if c = 't' then afterWord "true".toList s
      else if c = 'f' then afterWord "false".toList s
      else if c = 'n' then afterWord "null".toList s
      else number s

def object (s : Bytes) : Bool := s.head? = some '{' && value (kMaxDepth + 1) s = some []

/-! ### Strings -/

theorem lowerHex_digit : ∀ d < 16, lowerHex (Nat.digitChar d) = some d := by decide

theorem lowerHex_only {c : Char} {d : ℕ} (read : lowerHex c = some d) : d < 16 ∧ c = Nat.digitChar d := by
  have back := Char.ofNat_toNat c
  rw [lowerHex] at read
  split at read
  · rename_i range
    have low : 48 ≤ c.toNat := range.1
    have high : c.toNat ≤ 57 := range.2
    obtain rfl := Option.some.inj read
    generalize c.toNat = n at low high back ⊢
    subst back
    interval_cases n <;> decide
  · split at read
    · rename_i range
      have low : 97 ≤ c.toNat := range.1
      have high : c.toNat ≤ 102 := range.2
      obtain rfl := Option.some.inj read
      generalize c.toNat = n at low high back ⊢
      subst back
      interval_cases n <;> decide
    · cases read

theorem hex_reads (u : ℕ) (t : Bytes) (small : u < 0x10000) : hex4 (hexText u ++ t) = some u :=
  readHex4_text lowerHex_digit small t

theorem hex_sound (s : Bytes) (u : ℕ) (read : hex4 s = some u) : u < 0x10000 ∧ s = hexText u ++ s.drop 4 :=
  readHex4_sound (fun _ _ => lowerHex_only) read

theorem withLow_apart {u : ℕ} {t : Bytes} (apart : IsHigh u → lowUnit hex4 t = none) : withLow hex4 u t = (u, t) := by
  rw [withLow]
  split
  · rename_i high
    rw [apart high]
  · rfl

/-- A written unit that is not a character of its own. -/
theorem character_unit {u : ℕ} {t : Bytes} (none : shortEscape u = none) (other : ¬ IsPrintable u) (small : u < 0x10000) :
    character (unitText u ++ t) = some (withLow hex4 u t) := by
  have read := hex_reads u t small
  have after : (hexText u ++ t).drop 4 = t := rfl
  have control : ¬ (u = 0x08 ∨ u = 0x09 ∨ u = 0x0a ∨ u = 0x0c ∨ u = 0x0d) := by
    rintro (rfl | rfl | rfl | rfl | rfl) <;> cases none
  have visible : ¬ (('\\' : Char).toNat < 0x20 ∨ 0x7e < ('\\' : Char).toNat) := by decide
  simp only [unitText, List.cons_append, character, if_neg visible, ne_eq, not_true, if_false, if_true, read,
    Option.bind_eq_bind, Option.bind_some, after, if_neg other, if_neg control]

theorem character_escaped : ReadsEscaped hex4 character := by
  intro c t point apart
  have written := escapeChar_escaped c
  generalize escapeChar c = text at written ⊢
  cases written with
  | short short =>
    have listed := shortEscape_cases short
    simp only [List.mem_cons, Prod.mk.injEq, List.not_mem_nil, or_false] at listed
    rcases listed with ⟨rfl, rfl⟩ | ⟨rfl, rfl⟩ | ⟨rfl, rfl⟩ | ⟨rfl, rfl⟩ | ⟨rfl, rfl⟩ | ⟨rfl, rfl⟩ | ⟨rfl, rfl⟩ <;> rfl
  | plain none printable =>
    have value := printable_toNat printable
    have other := plain_ne none printable (d := '\\') rfl
    have visible : ¬ ((Char.ofNat c).toNat < 0x20 ∨ 0x7e < (Char.ofNat c).toNat) := by
      rw [value, not_or, not_lt, not_lt]
      exact printable
    simp only [List.cons_append, List.nil_append, character, if_neg visible, if_pos other]
    rw [value]
  | unit none other small => rw [character_unit none other small, withLow_apart apart]
  | pair large =>
    have high : IsHigh (0xd800 + (c - 0x10000) / 0x400 % 0x400) := ⟨by omega, by omega⟩
    have low : IsLow (0xdc00 + c % 0x400) := ⟨by omega, by omega⟩
    have value : pairPoint (0xd800 + (c - 0x10000) / 0x400 % 0x400) (0xdc00 + c % 0x400) = c := by
      unfold pairPoint
      omega
    have second := lowUnit_unit hex_reads (t := t) (u := 0xdc00 + c % 0x400) (by omega)
    rw [if_pos low] at second
    rw [List.append_assoc, character_unit (shortEscape_large (by omega)) (by unfold IsPrintable; omega) (by omega), withLow,
      if_pos high, second]
    dsimp only
    rw [value]

theorem letter_short {e : Char} {c : ℕ} (read : letter e = some c) : escapeChar c = ['\\', e] ∧ c < 0x80 := by
  unfold letter at read
  split at read <;> cases read <;> exact ⟨rfl, by decide⟩

theorem withLow_sound {u c : ℕ} {t rest : Bytes} (none : shortEscape u = none) (other : ¬ IsPrintable u) (small : u < 0x10000)
    (taken : withLow hex4 u t = (c, rest)) :
    c < 0x110000 ∧ unitText u ++ t = escapeChar c ++ rest ∧ (IsHigh c → lowUnit hex4 rest = Option.none) := by
  rw [withLow] at taken
  split at taken
  · rename_i high
    split at taken
    · rename_i lo v next
      rw [Prod.mk.injEq] at taken
      obtain ⟨rfl, rfl⟩ := taken
      obtain ⟨low, text⟩ := lowUnit_sound (fun s u read => (hex_sound s u read).2) next
      have range := pairPoint_range high low
      refine ⟨range.2, ?_, ?_⟩
      · rw [escapeChar_pair high low, text, List.append_assoc]
      · intro again
        have := again.2
        omega
    · rename_i apart
      cases taken
      exact ⟨by omega, by rw [escapeChar_unit none other small], fun _ => apart⟩
  · rename_i single
    cases taken
    exact ⟨by omega, by rw [escapeChar_unit none other small], fun high => absurd high single⟩

theorem character_sound (s : Bytes) (c : ℕ) (t : Bytes) (more : s.head? ≠ some '"') (read : character s = some (c, t)) :
    c < 0x110000 ∧ s = escapeChar c ++ t ∧ (IsHigh c → lowUnit hex4 t = none) := by
  cases s with
  | nil => cases read
  | cons d s =>
    unfold character at read
    dsimp only at read
    split at read
    · cases read
    · rename_i visible
      rw [not_or, not_lt, not_lt] at visible
      split at read
      · rename_i other
        cases read
        have quote : d ≠ '"' := fun same => more (congrArg some same)
        refine ⟨by omega, ?_, ?_⟩
        · rw [escapeChar_plain visible quote other]
          rfl
        · rintro ⟨_, _⟩
          omega
      · rename_i back
        rw [ne_eq, not_not] at back
        subst back
        cases s with
        | nil => cases read
        | cons e s =>
          dsimp only at read
          split at read
          · rename_i unit
            subst unit
            simp only [Option.bind_eq_bind, Option.bind_eq_some_iff] at read
            obtain ⟨u, hex, read⟩ := read
            obtain ⟨small, text⟩ := hex_sound s u hex
            split at read
            · cases read
            · rename_i other
              split at read
              · cases read
              · rename_i control
                have none : shortEscape u = none := by
                  cases short : shortEscape u with
                  | none => rfl
                  | some e =>
                    have listed := shortEscape_cases short
                    simp only [List.mem_cons, Prod.mk.injEq, List.not_mem_nil, or_false] at listed
                    unfold IsPrintable at other
                    omega
                have sound := withLow_sound none other small (Option.some.inj read)
                rw [← sound.2.1]
                refine ⟨sound.1, ?_, sound.2.2⟩
                conv_lhs => rw [text]
                rfl
          · obtain ⟨u, found, same⟩ := Option.map_eq_some_iff.mp read
            cases same
            obtain ⟨text, small⟩ := letter_short found
            refine ⟨by omega, by rw [text]; rfl, ?_⟩
            rintro ⟨_, _⟩
            omega

theorem string_quote {s : Str} (joined : Joined s) (rest : Bytes) : string (escape s ++ '"' :: rest) = some (s, rest) := by
  have length := length_le_escape s
  refine readString_escape hex_reads character_escaped joined ?_ rest
  rw [List.length_append]
  omega

theorem string_sound {s : Bytes} {cs : Str} {rest : Bytes} (read : string s = some (cs, rest)) :
    Joined cs ∧ s = escape cs ++ '"' :: rest := readString_sound hex_reads character_sound read

/-! ### Numbers -/

theorem digits_text {ds rest : Bytes} (all : AllDigits ds) (some : ds ≠ []) (stop : NoDigit rest) :
    digits (ds ++ rest) = .some rest := by
  obtain ⟨_, dropped⟩ := scan_digits all stop
  cases ds with
  | nil => exact absurd rfl some
  | cons d ds =>
    have digit := all d List.mem_cons_self
    rw [List.cons_append, List.dropWhile_cons_of_pos digit] at dropped
    rw [List.cons_append, digits, if_pos digit, dropped]

theorem digits_sound {s rest : Bytes} (read : digits s = some rest) : ∃ ds, s = ds ++ rest ∧ AllDigits ds ∧ ds ≠ [] := by
  cases s with
  | nil => cases read
  | cons c t =>
    rw [digits] at read
    split at read
    · rename_i digit
      cases read
      refine ⟨c :: t.takeWhile Char.isDigit, by simp, ?_, by simp⟩
      intro d member
      rcases List.mem_cons.mp member with rfl | member
      · exact digit
      · exact List.mem_takeWhile_imp member
    · cases read

theorem intEnd_sound {s rest : Bytes} (read : intEnd s = some rest) :
    ∃ int, s = int ++ rest ∧ AllDigits int ∧ int ≠ [] ∧ (int = ['0'] ∨ NoLeadingZero int) := by
  unfold intEnd at read
  split at read
  · cases read
    exact ⟨['0'], rfl, allDigits_zeros 1, by simp, .inl rfl⟩
  · rename_i other
    obtain ⟨ds, text, all, some⟩ := digits_sound read
    refine ⟨ds, text, all, some, .inr ?_⟩
    cases ds with
    | nil => exact absurd rfl some
    | cons d ds =>
      rintro c ⟨⟩ rfl
      exact other _ text

theorem fractionEnd_sound {s rest : Bytes} {isFloat : Bool} (read : fractionEnd s = some (isFloat, rest)) :
    (∃ tok, s = tok ++ rest) ∧ (isFloat = false → rest = s) := by
  unfold fractionEnd at read
  split at read
  · rename_i t
    obtain ⟨rest', found, same⟩ := Option.map_eq_some_iff.mp read
    cases same
    obtain ⟨ds, rfl, _⟩ := digits_sound found
    exact ⟨⟨'.' :: ds, rfl⟩, nofun⟩
  · cases read
    exact ⟨⟨[], rfl⟩, fun _ => rfl⟩

theorem scanSign_suffix (s : Bytes) : ∃ tok, s = tok ++ (scanSign s).2 := by
  unfold scanSign
  split
  · exact ⟨['-'], rfl⟩
  · exact ⟨['+'], rfl⟩
  · exact ⟨[], rfl⟩

theorem exponentEnd_sound {s rest : Bytes} {before isFloat : Bool} (read : exponentEnd before s = some (isFloat, rest)) :
    (∃ tok, s = tok ++ rest) ∧ (isFloat = false → before = false ∧ rest = s) := by
  unfold exponentEnd at read
  split at read
  · cases read
    exact ⟨⟨[], rfl⟩, fun float => ⟨float, rfl⟩⟩
  · rename_i c t
    split at read
    · obtain ⟨rest', found, same⟩ := Option.map_eq_some_iff.mp read
      cases same
      obtain ⟨sign, signed⟩ := scanSign_suffix t
      obtain ⟨ds, text, _⟩ := digits_sound found
      refine ⟨⟨c :: (sign ++ ds), ?_⟩, nofun⟩
      rw [signed, text]
      simp
    · cases read
      exact ⟨⟨[], rfl⟩, fun float => ⟨float, rfl⟩⟩

theorem scanMinus_suffix (s : Bytes) : s = signText (scanMinus s).1 ++ (scanMinus s).2 := by
  unfold scanMinus
  split <;> rfl

theorem numberEnd_sound {s rest : Bytes} {isFloat : Bool} (read : numberEnd s = some (isFloat, rest)) :
    (∃ tok, s = tok ++ rest) ∧ (isFloat = false →
      ∃ neg int, s = signText neg ++ int ++ rest ∧ AllDigits int ∧ int ≠ [] ∧ (int = ['0'] ∨ NoLeadingZero int)) := by
  have signed := scanMinus_suffix s
  simp only [numberEnd, Option.bind_eq_bind, Option.bind_eq_some_iff] at read
  obtain ⟨s₁, before, ⟨fraction, s₂⟩, second, third⟩ := read
  obtain ⟨int, first, all, some, lead⟩ := intEnd_sound before
  obtain ⟨⟨tok, second⟩, plain⟩ := fractionEnd_sound second
  obtain ⟨⟨tok', third⟩, plain'⟩ := exponentEnd_sound third
  dsimp only at second third plain plain'
  constructor
  · refine ⟨signText (scanMinus s).1 ++ int ++ tok ++ tok', ?_⟩
    conv_lhs => rw [signed, first, second, third]
    simp
  · intro float
    obtain ⟨still, rfl⟩ := plain' float
    obtain rfl := plain still
    refine ⟨(scanMinus s).1, int, ?_, all, some, lead⟩
    conv_lhs => rw [signed, first]
    simp

/-- An integer token that is not `-0` is the text of its value. -/
theorem int_dumps {neg : Bool} {int : Bytes} (all : AllDigits int) (some : int ≠ []) (lead : int = ['0'] ∨ NoLeadingZero int)
    (zero : signText neg ++ int ≠ "-0".toList) : ∃ i, (Json.int i).dumps = signText neg ++ int := by
  have value : Nat.toDigits 10 (Nat.ofDigitChars 10 int 0) = int := by
    rcases lead with rfl | lead
    · rfl
    · exact toDigits_ofDigitChars all some lead
  cases neg with
  | false =>
    refine ⟨Nat.ofDigitChars 10 int 0, ?_⟩
    have positive : ¬ ((Nat.ofDigitChars 10 int 0 : ℕ) : ℤ) < 0 := by omega
    rw [dumps, intText, decide_eq_false positive, Int.natAbs_natCast, value]
  | true =>
    have lead : NoLeadingZero int := by
      rcases lead with rfl | lead
      · exact absurd rfl zero
      · exact lead
    have positive := ofDigitChars_pos all some lead
    refine ⟨-(Nat.ofDigitChars 10 int 0 : ℤ), ?_⟩
    have negative : -((Nat.ofDigitChars 10 int 0 : ℕ) : ℤ) < 0 := by omega
    rw [dumps, intText, decide_eq_true negative, Int.natAbs_neg, Int.natAbs_natCast, value]

theorem number_sound {s rest : Bytes} (read : number s = some rest) :
    ∃ v, (∀ levels, Canonical (levels + 1) v) ∧ s = v.dumps ++ rest := by
  simp only [number, Option.bind_eq_bind, Option.bind_eq_some_iff] at read
  obtain ⟨⟨isFloat, rest'⟩, found, read⟩ := read
  obtain ⟨⟨tok, text⟩, whole⟩ := numberEnd_sound found
  dsimp only at read text whole
  have token : s.take (s.length - rest'.length) = tok := by
    rw [text, List.length_append, Nat.add_sub_cancel, List.take_left]
  rw [token] at read
  cases isFloat with
  | true =>
    obtain ⟨x, canonical, rfl⟩ := Option.map_eq_some_iff.mp read
    obtain ⟨finite, rfl⟩ := parseCanonicalDouble_iff.mp canonical
    refine ⟨.float x, fun _ => finite, ?_⟩
    rw [text, dumps, pythonRepr_eq finite]
  | false =>
    obtain ⟨neg, int, text', all, some, lead⟩ := whole rfl
    have same : tok = signText neg ++ int := List.append_cancel_right (text.symm.trans text')
    split at read
    · rename_i float
      cases float
    · split at read
      · rename_i zero
        cases read
        rw [same] at zero
        obtain ⟨i, written⟩ := int_dumps all some lead zero
        exact ⟨.int i, fun _ => trivial, by rw [text', written]⟩
      · cases read

theorem intEnd_text {sp : Spelling} (ok : sp.Ok) (lead : sp.Lead) {tail : Bytes} (stop : NoDigit tail) :
    intEnd (sp.int ++ tail) = some tail := by
  rcases lead with zero | lead
  · rw [zero]
    rfl
  · rw [intEnd, digits_text ok.int ok.some stop]
    intro t same
    cases int : sp.int with
    | nil => exact ok.some int
    | cons c ds =>
      rw [int] at lead same
      exact lead c rfl (List.cons.inj same).1

theorem fractionEnd_text {sp : Spelling} (ok : sp.Ok) {rest : Bytes} (stops : Spelling.Stops rest) :
    fractionEnd (Spelling.fracText sp.frac ++ (Spelling.expText sp.exp ++ rest)) =
      some (decide (sp.frac ≠ []), Spelling.expText sp.exp ++ rest) := by
  by_cases none : sp.frac = []
  · rw [Spelling.fracText, if_pos none, List.nil_append, fractionEnd]
    · simp [none]
    · exact Spelling.expText_notPoint sp.exp stops
  · rw [Spelling.fracText, if_neg none, List.cons_append, fractionEnd,
      digits_text ok.frac none (Spelling.expText_noDigit sp.exp stops)]
    simp [none]

theorem exponentEnd_text {sp : Spelling} (ok : sp.Ok) {rest : Bytes} (stops : Spelling.Stops rest) (before : Bool) :
    exponentEnd before (Spelling.expText sp.exp ++ rest) = some (before || sp.exp.isSome, rest) := by
  cases exp : sp.exp with
  | none =>
    cases rest with
    | nil => simp [Spelling.expText, exponentEnd]
    | cons c t =>
      have other : ¬ (c = 'e' ∨ c = 'E') := by
        rintro (rfl | rfl) <;> exact (stops _ rfl).2.2 rfl
      simp only [Spelling.expText, List.nil_append, exponentEnd, if_neg other, Option.isSome_none, Bool.or_false]
  | some e =>
    obtain ⟨neg, ds⟩ := e
    obtain ⟨all, some⟩ := ok.exp (neg, ds) exp
    have sign : (scanSign ((if neg then '-' else '+') :: (ds ++ rest))).2 = ds ++ rest := by
      cases neg <;> rfl
    simp only [Spelling.expText, List.cons_append, exponentEnd, true_or, if_true, sign, digits_text all some stops.noDigit,
      Option.map_some, Option.isSome_some, Bool.or_true]

theorem numberEnd_text {v : Json} {neg : Bool} {sp : Spelling} (written : NumberText v neg sp) {rest : Bytes}
    (follows : Follows rest) : numberEnd (v.dumps ++ rest) = some (decide (sp.frac ≠ []) || sp.exp.isSome, rest) := by
  have tail : NoDigit (Spelling.fracText sp.frac ++ (Spelling.expText sp.exp ++ rest)) := by
    by_cases none : sp.frac = []
    · rw [none]
      exact Spelling.expText_noDigit sp.exp follows.stops
    · rw [Spelling.fracText, if_neg none]
      exact noDigit_cons rfl
  obtain ⟨c, t, head, digit⟩ := Spelling.text_head written.ok
  have text : v.dumps ++ rest = signText neg ++ c :: (t ++ rest) := by
    rw [written.text, head, List.append_assoc, List.cons_append]
  have parts : c :: (t ++ rest) = sp.int ++ (Spelling.fracText sp.frac ++ (Spelling.expText sp.exp ++ rest)) := by
    rw [← List.cons_append, ← head, Spelling.text, List.append_assoc, List.append_assoc]
  rw [text, numberEnd, scanMinus_sign digit]
  simp only [parts, intEnd_text written.ok written.lead tail, fractionEnd_text written.ok follows.stops, Option.bind_eq_bind,
    Option.bind_some, exponentEnd_text written.ok follows.stops]

theorem number_text {v : Json} {neg : Bool} {sp : Spelling} (written : NumberText v neg sp) {levels : ℕ}
    (canonical : Canonical (levels + 1) v) {rest : Bytes} (follows : Follows rest) : number (v.dumps ++ rest) = some rest := by
  have token : (v.dumps ++ rest).take ((v.dumps ++ rest).length - rest.length) = v.dumps := by
    rw [List.length_append, Nat.add_sub_cancel, List.take_left]
  simp only [number, numberEnd_text written follows, Option.bind_eq_bind, Option.bind_some, token]
  rcases written.kind with ⟨_, frac, exp, zero⟩ | ⟨value, real⟩
  · have other : v.dumps ≠ "-0".toList := by
      intro same
      rw [written.text, Spelling.text, frac, exp] at same
      cases neg with
      | true => exact zero rfl (by simpa [signText, Spelling.fracText, Spelling.expText] using same)
      | false =>
        obtain ⟨c, t, head, digit⟩ := Spelling.text_head written.ok
        rw [Spelling.text, frac, exp] at head
        rw [head] at same
        cases same
        cases digit
    rw [frac, exp]
    simpa using other
  · have float : (decide (sp.frac ≠ []) || sp.exp.isSome) = true := by
      simpa [Option.isSome_iff_ne_none] using real
    rw [if_pos float]
    subst value
    have read := parseCanonicalDouble_repr (x := .ofDecimal neg sp.mantissa sp.exponent) canonical
    rw [pythonRepr_eq canonical] at read
    rw [dumps, read]
    rfl

/-! ### Values -/

/-- The keys of a list of members, one after the other. -/
def keyStep (prev : Option Str) (kv : Str × Json) : Option (Option Str) :=
  if ∀ p ∈ prev, p < kv.1 then some (some kv.1) else none

theorem keyStep_sound {prev last : Option Str} {fields : List (Str × Json)} (steps : fields.foldlM keyStep prev = some last) :
    fields.Pairwise (fun a b => a.1 < b.1) ∧ ∀ p ∈ prev, ∀ kv ∈ fields, p < kv.1 := by
  induction fields generalizing prev with
  | nil => exact ⟨.nil, nofun⟩
  | cons kv fields ih =>
    rw [List.foldlM_cons, keyStep] at steps
    split at steps
    · rename_i before
      obtain ⟨sorted, after⟩ := ih steps
      refine ⟨List.pairwise_cons.mpr ⟨after kv.1 rfl, sorted⟩, ?_⟩
      intro p here other member
      rcases List.mem_cons.mp member with rfl | member
      · exact before p here
      · exact lt_trans (before p here) (after kv.1 rfl other member)
    · cases steps

theorem keyStep_sorted {prev : Option Str} {fields : List (Str × Json)} (sorted : fields.Pairwise fun a b => a.1 < b.1)
    (before : ∀ p ∈ prev, ∀ kv ∈ fields, p < kv.1) : ∃ last, fields.foldlM keyStep prev = some last := by
  induction fields generalizing prev with
  | nil => exact ⟨prev, rfl⟩
  | cons kv fields ih =>
    have first : ∀ p ∈ prev, p < kv.1 := fun p here => before p here kv List.mem_cons_self
    obtain ⟨later, sorted⟩ := List.pairwise_cons.mp sorted
    rw [List.foldlM_cons, keyStep, if_pos first]
    exact ih sorted fun p here => by
      obtain rfl := Option.some.inj here
      exact later

theorem fieldText_eq (kv : Str × Json) (rest : Bytes) :
    fieldText kv ++ rest = '"' :: (escape kv.1 ++ '"' :: (':' :: (kv.2.dumps ++ rest))) := by
  simp [fieldText, memberText, quote]

theorem member_yields {levels : ℕ}
    (sound : ∀ s rest, value levels s = some rest → ∃ v, Canonical levels v ∧ s = v.dumps ++ rest) :
    Yields (member (value levels) true) fieldText keyStep fun kv => Joined kv.1 ∧ Canonical levels kv.2 := by
  intro prev s last rest read
  simp only [member, if_true, Option.bind_eq_bind, Option.bind_eq_some_iff] at read
  obtain ⟨s₁, opened, ⟨key, s₂⟩, quoted, read⟩ := read
  split at read
  · rename_i before
    simp only [Option.bind_eq_some_iff, Option.some.injEq, Prod.mk.injEq] at read
    obtain ⟨s₃, colon, s₄, found, rfl, rfl⟩ := read
    obtain ⟨joined, text⟩ := string_sound quoted
    obtain ⟨v, canonical, rfl⟩ := sound _ _ found
    refine ⟨(key, v), ⟨joined, canonical⟩, if_pos before, ?_⟩
    rw [afterWord_sound opened, text, afterWord_sound colon, fieldText_eq]
    rfl
  · cases read

theorem item_yields {levels : ℕ}
    (sound : ∀ s rest, value levels s = some rest → ∃ v, Canonical levels v ∧ s = v.dumps ++ rest) :
    Yields (member (value levels) false) dumps (fun prev _ => some prev) (Canonical levels) := by
  intro prev s last rest read
  obtain ⟨rest', found, same⟩ := Option.map_eq_some_iff.mp read
  cases same
  obtain ⟨v, canonical, text⟩ := sound _ _ found
  exact ⟨v, canonical, rfl, text⟩

theorem brace_sound {levels : ℕ}
    (sound : ∀ s rest, value levels s = some rest → ∃ v, Canonical levels v ∧ s = v.dumps ++ rest) {t rest : Bytes}
    (read : (readSequence (member (value levels) true) '}' none t).map (·.2) = some rest) :
    ∃ fields, Canonical (levels + 1) (.obj fields) ∧ '{' :: t = (Json.obj fields).dumps ++ rest := by
  obtain ⟨⟨last, rest'⟩, found, rfl⟩ := Option.map_eq_some_iff.mp read
  obtain ⟨fields, fine, steps, rfl⟩ := readSequence_yields (member_yields sound) found
  obtain ⟨sorted, _⟩ := keyStep_sound steps
  refine ⟨fields, ⟨sorted, fine⟩, ?_⟩
  rw [dumps_obj sorted]
  simp

/-- What the recogniser accepts is canonical text. -/
theorem value_sound {levels : ℕ} (s rest : Bytes) (read : value levels s = some rest) :
    ∃ v, Canonical levels v ∧ s = v.dumps ++ rest := by
  induction levels generalizing s rest with
  | zero => cases read
  | succ levels ih =>
    cases s with
    | nil => cases read
    | cons c t =>
      simp only [value] at read
      split at read
      · rename_i brace
        subst brace
        obtain ⟨fields, canonical, text⟩ := brace_sound ih read
        exact ⟨.obj fields, canonical, text⟩
      · split at read
        · rename_i bracket
          subst bracket
          obtain ⟨⟨last, rest'⟩, found, rfl⟩ := Option.map_eq_some_iff.mp read
          obtain ⟨items, fine, _, rfl⟩ := readSequence_yields (item_yields ih) found
          refine ⟨.arr items, fine, ?_⟩
          rw [dumps_arr]
          simp
        · split at read
          · rename_i mark
            subst mark
            obtain ⟨⟨key, rest'⟩, found, rfl⟩ := Option.map_eq_some_iff.mp read
            obtain ⟨joined, rfl⟩ := string_sound found
            refine ⟨.str key, joined, ?_⟩
            rw [dumps]
            simp [quote]
          · split at read
            · refine ⟨.bool true, trivial, ?_⟩
              rw [dumps]
              exact afterWord_sound read
            · split at read
              · refine ⟨.bool false, trivial, ?_⟩
                rw [dumps]
                exact afterWord_sound read
              · split at read
                · refine ⟨.null, trivial, ?_⟩
                  rw [dumps]
                  exact afterWord_sound read
                · obtain ⟨v, canonical, text⟩ := number_sound read
                  exact ⟨v, canonical levels, text⟩

theorem member_takes {levels : ℕ} {kv : Str × Json} (joined : Joined kv.1)
    (complete : ∀ rest, Follows rest → value levels (kv.2.dumps ++ rest) = some rest) :
    Takes (member (value levels) true) '}' fieldText keyStep kv := by
  intro prev c rest mark
  have follows := follows_cons (.inr rfl) mark rest
  rw [fieldText_eq]
  simp only [member, if_true, afterWord_cons, Option.bind_eq_bind, Option.bind_some, string_quote joined, complete _ follows,
    keyStep]
  split <;> rfl

theorem item_takes {levels : ℕ} {v : Json}
    (complete : ∀ rest, Follows rest → value levels (v.dumps ++ rest) = some rest) :
    Takes (member (value levels) false) ']' dumps (fun prev _ => some prev) v := by
  intro prev c rest mark
  simp only [member, Bool.false_eq_true, if_false, complete _ (follows_cons (.inl rfl) mark rest)]
  rfl

theorem value_number {v : Json} {neg : Bool} {sp : Spelling} (written : NumberText v neg sp) {levels : ℕ} {rest : Bytes} :
    value (levels + 1) (v.dumps ++ rest) = number (v.dumps ++ rest) := by
  obtain ⟨c, t, head, start⟩ := written.head
  have other : ∀ d, d ∈ "\x7b[\"tfn".toList → c ≠ d := by
    intro d member
    have all : ("\x7b[\"tfn".toList.all fun d => d != '-' && !d.isDigit) = true := by decide
    have letter : d ≠ '-' ∧ d.isDigit = false := by simpa using List.all_eq_true.mp all d member
    rcases start with rfl | digit
    · exact letter.1.symm
    · exact digit_ne digit letter.2
  rw [head]
  simp only [List.cons_append, value, if_neg (other '{' (by decide)), if_neg (other '[' (by decide)),
    if_neg (other '"' (by decide)), if_neg (other 't' (by decide)), if_neg (other 'f' (by decide)),
    if_neg (other 'n' (by decide))]

/-- Canonical text is accepted to its end. -/
theorem value_dumps {levels : ℕ} {v : Json} (canonical : Canonical levels v) {rest : Bytes} (follows : Follows rest) :
    value levels (v.dumps ++ rest) = some rest := by
  induction levels generalizing v rest with
  | zero => exact canonical.elim
  | succ levels ih =>
    cases v with
    | null =>
      rw [dumps]
      exact afterWord_append "null".toList rest
    | bool b =>
      rw [dumps]
      cases b with
      | true => exact afterWord_append "true".toList rest
      | false => exact afterWord_append "false".toList rest
    | int i => rw [value_number (int_text i), number_text (int_text i) canonical follows]
    | float x =>
      obtain ⟨sp, written⟩ := float_text canonical
      rw [value_number written, number_text written canonical follows]
    | str s =>
      have text : (Json.str s).dumps ++ rest = '"' :: (escape s ++ '"' :: rest) := by
        rw [dumps]
        simp [quote]
      rw [text]
      simp [value, string_quote (show Joined s from canonical)]
    | arr items =>
      have text : (Json.arr items).dumps ++ rest = '[' :: (commas (items.map dumps) ++ ']' :: rest) := by
        rw [dumps_arr]
        simp
      have takes : ∀ v ∈ items, Takes (member (value levels) false) ']' dumps (fun prev _ => some prev) v :=
        fun v member => item_takes fun rest follows => ih (canonical v member) follows
      have starts : ∀ v ∈ items, ∃ c t, v.dumps = c :: t ∧ c ≠ ']' := by
        intro v member
        obtain ⟨c, t, head, opens⟩ := dumps_head (canonical v member)
        exact ⟨c, t, head, opens.ne (by decide) rfl⟩
      have read : readSequence (member (value levels) false) ']' none (commas (items.map dumps) ++ ']' :: rest) =
          (items.foldlM (fun prev _ => some prev) none).map (·, rest) := readSequence_commas (by decide) starts takes
      rw [text]
      simp [value, read, foldlM_some]
    | obj fields =>
      obtain ⟨sorted, fine⟩ := canonical
      have text : (Json.obj fields).dumps ++ rest = '{' :: (commas (fields.map fieldText) ++ '}' :: rest) := by
        rw [dumps_obj sorted]
        simp
      have takes : ∀ kv ∈ fields, Takes (member (value levels) true) '}' fieldText keyStep kv := fun kv member =>
        member_takes (fine kv member).1 fun rest follows => ih (fine kv member).2 follows
      have starts : ∀ kv ∈ fields, ∃ c t, fieldText kv = c :: t ∧ c ≠ '}' := fun kv _ => ⟨'"', _, rfl, by decide⟩
      have read : readSequence (member (value levels) true) '}' none (commas (fields.map fieldText) ++ '}' :: rest) =
          (fields.foldlM keyStep none).map (·, rest) := readSequence_commas (by decide) starts takes
      obtain ⟨last, steps⟩ : ∃ last, fields.foldlM keyStep none = some last := keyStep_sorted sorted (by simp)
      rw [text]
      simp [value, read, steps]

/-- `meta` is the canonical text of an object within the nesting limit. -/
def IsCanonicalObject (s : Bytes) : Prop := ∃ fields, Canonical (kMaxDepth + 1) (.obj fields) ∧ s = (Json.obj fields).dumps

theorem object_iff {s : Bytes} : object s = true ↔ IsCanonicalObject s := by
  simp only [object, Bool.and_eq_true, decide_eq_true_eq]
  constructor
  · rintro ⟨brace, read⟩
    cases s with
    | nil => cases brace
    | cons c t =>
      obtain rfl := Option.some.inj brace
      rw [value, if_pos rfl] at read
      obtain ⟨fields, canonical, text⟩ := brace_sound value_sound read
      exact ⟨fields, canonical, by rw [text, List.append_nil]⟩
  · rintro ⟨fields, canonical, rfl⟩
    have read : value (kMaxDepth + 1) ((Json.obj fields).dumps ++ []) = some [] := value_dumps canonical nofun
    rw [List.append_nil] at read
    refine ⟨?_, read⟩
    rw [dumps]
    rfl

/-! ### The text is printable -/

theorem char_printable {c : Char} {s : Bytes} (mark : 0x20 ≤ c.toNat ∧ c.toNat ≤ 0x7e) (printable : Printable s) :
    Printable (c :: s) := by
  intro d member
  rcases List.mem_cons.mp member with rfl | member
  · exact mark
  · exact printable d member

theorem unitText_printable {u : ℕ} (small : u < 0x10000) : Printable (unitText u) := by
  have digit : ∀ d < 16, 0x20 ≤ (Nat.digitChar d).toNat ∧ (Nat.digitChar d).toNat ≤ 0x7e := by decide
  intro c member
  simp only [unitText, hexText, List.mem_cons, List.not_mem_nil, or_false] at member
  rcases member with rfl | rfl | rfl | rfl | rfl | rfl
  · decide
  · decide
  all_goals exact digit _ (by omega)

theorem escapeChar_printable (c : ℕ) : Printable (escapeChar c) := by
  have written := escapeChar_escaped c
  generalize escapeChar c = text at written ⊢
  cases written with
  | short short =>
    have listed := shortEscape_cases short
    simp only [List.mem_cons, Prod.mk.injEq, List.not_mem_nil, or_false] at listed
    rcases listed with ⟨_, rfl⟩ | ⟨_, rfl⟩ | ⟨_, rfl⟩ | ⟨_, rfl⟩ | ⟨_, rfl⟩ | ⟨_, rfl⟩ | ⟨_, rfl⟩ <;>
      exact char_printable (by decide) (char_printable (by decide) nofun)
  | plain _ printable =>
    refine char_printable ?_ nofun
    rw [printable_toNat printable]
    exact printable
  | unit _ _ small => exact unitText_printable small
  | pair _ => exact (unitText_printable (by omega)).append (unitText_printable (by omega))

theorem quote_printable (s : Str) : Printable (quote s) := by
  have inside : Printable (escape s) := by
    intro c member
    obtain ⟨d, _, member⟩ := List.mem_flatMap.mp member
    exact escapeChar_printable d c member
  exact (char_printable (by decide) inside).append (char_printable (by decide) nofun)

theorem NumberText.printable {v : Json} {neg : Bool} {sp : Spelling} (written : NumberText v neg sp) : Printable v.dumps := by
  rw [written.text]
  exact (numberChars_word (Spelling.signed_chars written.ok neg)).printable

theorem commas_printable {texts : List Bytes} (printable : ∀ text ∈ texts, Printable text) : Printable (commas texts) := by
  induction texts with
  | nil => exact nofun
  | cons text texts ih =>
    have first := printable text List.mem_cons_self
    cases texts with
    | nil => exact first
    | cons text' texts =>
      exact first.append (char_printable (by decide) (ih fun text member => printable text (List.mem_cons_of_mem _ member)))

theorem dumps_printable {levels : ℕ} {v : Json} (canonical : Canonical levels v) : Printable v.dumps := by
  induction levels generalizing v with
  | zero => exact canonical.elim
  | succ levels ih =>
    cases v with
    | null =>
      rw [dumps]
      decide
    | bool b =>
      rw [dumps]
      cases b <;> decide
    | int i => exact NumberText.printable (int_text i)
    | float x =>
      obtain ⟨sp, written⟩ := float_text canonical
      exact NumberText.printable written
    | str s =>
      rw [dumps]
      exact quote_printable s
    | arr items =>
      have inside : Printable (commas (items.map dumps)) := by
        refine commas_printable fun text member => ?_
        obtain ⟨v, here, rfl⟩ := List.mem_map.mp member
        exact ih (canonical v here)
      rw [dumps_arr]
      exact (char_printable (by decide) inside).append (char_printable (by decide) (by simp [Printable]))
    | obj fields =>
      obtain ⟨sorted, fine⟩ := canonical
      have inside : Printable (commas (fields.map fieldText)) := by
        refine commas_printable fun text member => ?_
        obtain ⟨kv, here, rfl⟩ := List.mem_map.mp member
        exact (quote_printable kv.1).append (char_printable (by decide) (ih (fine kv here).2))
      rw [dumps_obj sorted]
      exact (char_printable (by decide) inside).append (char_printable (by decide) (by simp [Printable]))

end Dyx3.Artifact.CanonicalJson
