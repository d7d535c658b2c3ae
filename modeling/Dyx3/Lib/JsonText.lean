import Dyx3.Lib.FloatText
import Dyx3.Lib.Sequence
import Mathlib.Data.List.Chain

/-!
JSON values as CPython reads and writes them, and the canonical text of a value: `json.dumps` with sorted keys,
no blanks and ASCII escapes.
-/

namespace Dyx3.Lib

/-- Code points. A surrogate is one, alone or not. -/
abbrev Str := List ℕ

/-- An object keeps its members in the order of their insertion. -/
inductive Json where
  | null
  | bool (b : Bool)
  | int (i : ℤ)
  | float (x : Double)
  | str (s : Str)
  | arr (items : List Json)
  | obj (fields : List (Str × Json))

/-! ### Strings -/

def IsHigh (c : ℕ) : Prop := 0xd800 ≤ c ∧ c ≤ 0xdbff

def IsLow (c : ℕ) : Prop := 0xdc00 ≤ c ∧ c ≤ 0xdfff

instance (c : ℕ) : Decidable (IsHigh c) := inferInstanceAs (Decidable (_ ∧ _))
instance (c : ℕ) : Decidable (IsLow c) := inferInstanceAs (Decidable (_ ∧ _))

/-- The code point of a surrogate pair. -/
def pairPoint (high low : ℕ) : ℕ := 0x10000 + (high - 0xd800) * 0x400 + (low - 0xdc00)

/-- `XXXX`, in lower case. -/
def hexText (u : ℕ) : List Char :=
  [Nat.digitChar (u / 0x1000), Nat.digitChar (u / 0x100 % 0x10), Nat.digitChar (u / 0x10 % 0x10), Nat.digitChar (u % 0x10)]

def unitText (u : ℕ) : List Char := '\\' :: 'u' :: hexText u

/-- The letter after the backslash. -/
def shortEscape : ℕ → Option Char
  | 0x22 => some '"'
  | 0x5c => some '\\'
  | 0x0a => some 'n'
  | 0x0d => some 'r'
  | 0x09 => some 't'
  | 0x08 => some 'b'
  | 0x0c => some 'f'
  | _ => none

def IsPrintable (c : ℕ) : Prop := 0x20 ≤ c ∧ c ≤ 0x7e

instance (c : ℕ) : Decidable (IsPrintable c) := inferInstanceAs (Decidable (_ ∧ _))

/-- `py_encode_basestring_ascii` of one code point. -/
def escapeChar (c : ℕ) : List Char :=
  match shortEscape c with
  | some e => ['\\', e]
  | none =>
    if IsPrintable c then [Char.ofNat c]
    else if c < 0x10000 then unitText c
    else unitText (0xd800 + (c - 0x10000) / 0x400 % 0x400) ++ unitText (0xdc00 + c % 0x400)

def escape (s : Str) : List Char := s.flatMap escapeChar

def quote (s : Str) : List Char := '"' :: escape s ++ ['"']

/-- Surrogate pairs as one code point, as a reader takes them. -/
def joinPairs : Str → Str
  | c :: d :: rest => if IsHigh c ∧ IsLow d then pairPoint c d :: joinPairs rest else c :: joinPairs (d :: rest)
  | s => s

/-- Code points with no surrogate pair among them. -/
structure Joined (s : Str) : Prop where
  points : ∀ c ∈ s, c < 0x110000
  pairs : s.IsChain fun c d => ¬ (IsHigh c ∧ IsLow d)

theorem Joined.head {c : ℕ} {s : Str} (joined : Joined (c :: s)) : c < 0x110000 := joined.points c List.mem_cons_self

theorem Joined.tail {c : ℕ} {s : Str} (joined : Joined (c :: s)) : Joined s :=
  ⟨fun d member => joined.points d (List.mem_cons_of_mem _ member), joined.pairs.tail⟩

theorem joined_cons {c : ℕ} {s : Str} (point : c < 0x110000) (apart : ∀ d ∈ s.head?, ¬ (IsHigh c ∧ IsLow d))
    (joined : Joined s) : Joined (c :: s) := by
  constructor
  · intro d member
    rcases List.mem_cons.mp member with rfl | member
    · exact point
    · exact joined.points d member
  · exact List.isChain_cons.mpr ⟨apart, joined.pairs⟩

/-- How one code point is written. -/
inductive Escaped (c : ℕ) : List Char → Prop
  | short {e : Char} : shortEscape c = some e → Escaped c ['\\', e]
  | plain : shortEscape c = none → IsPrintable c → Escaped c [Char.ofNat c]
  | unit : shortEscape c = none → ¬ IsPrintable c → c < 0x10000 → Escaped c (unitText c)
  | pair : 0x10000 ≤ c →
    Escaped c (unitText (0xd800 + (c - 0x10000) / 0x400 % 0x400) ++ unitText (0xdc00 + c % 0x400))

theorem shortEscape_cases {c : ℕ} {e : Char} (short : shortEscape c = some e) :
    (c, e) ∈ [(0x22, '"'), (0x5c, '\\'), (0x0a, 'n'), (0x0d, 'r'), (0x09, 't'), (0x08, 'b'), (0x0c, 'f')] := by
  unfold shortEscape at short
  split at short <;> cases short <;> decide

theorem shortEscape_large {c : ℕ} (large : 0x80 ≤ c) : shortEscape c = none := by
  cases short : shortEscape c with
  | none => rfl
  | some e =>
    have listed := shortEscape_cases short
    simp only [List.mem_cons, Prod.mk.injEq, List.not_mem_nil, or_false] at listed
    omega

theorem escapeChar_escaped (c : ℕ) : Escaped c (escapeChar c) := by
  unfold escapeChar
  split
  · rename_i short
    exact .short short
  · rename_i none
    split
    · rename_i printable
      exact .plain none printable
    · rename_i other
      split
      · rename_i small
        exact .unit none other small
      · rename_i large
        exact .pair (not_lt.mp large)

theorem printable_toNat {c : ℕ} (printable : IsPrintable c) : (Char.ofNat c).toNat = c := by
  obtain ⟨_, _⟩ := printable
  have valid : c.isValidChar := .inl (by omega)
  rw [Char.ofNat, dif_pos valid]
  rfl

/-- A character that is written as it is does not start an escape or end the string. -/
theorem plain_ne {c : ℕ} (none : shortEscape c = none) (printable : IsPrintable c) {d : Char}
    (special : (shortEscape d.toNat).isSome = true) : Char.ofNat c ≠ d := by
  rintro rfl
  rw [printable_toNat printable, none] at special
  cases special

theorem escapeChar_plain {c : Char} (printable : IsPrintable c.toNat) (quote : c ≠ '"') (slash : c ≠ '\\') :
    escapeChar c.toNat = [c] := by
  have none : shortEscape c.toNat = none := by
    cases short : shortEscape c.toNat with
    | none => rfl
    | some e =>
      have listed := shortEscape_cases short
      have back := Char.ofNat_toNat c
      simp only [List.mem_cons, Prod.mk.injEq, List.not_mem_nil, or_false] at listed
      obtain ⟨_, _⟩ := printable
      rcases listed with ⟨same, _⟩ | ⟨same, _⟩ | ⟨_, _⟩ | ⟨_, _⟩ | ⟨_, _⟩ | ⟨_, _⟩ | ⟨_, _⟩
      · rw [same] at back
        exact absurd back.symm quote
      · rw [same] at back
        exact absurd back.symm slash
      all_goals omega
  simp only [escapeChar, none, if_pos printable, Char.ofNat_toNat]

/-- Printable text without quotes and backslashes is written as it is. -/
theorem escape_plain {s : List Char} (plain : ∀ c ∈ s, IsPrintable c.toNat ∧ c ≠ '"' ∧ c ≠ '\\') :
    escape (s.map Char.toNat) = s := by
  induction s with
  | nil => rfl
  | cons c s ih =>
    obtain ⟨printable, quote, slash⟩ := plain c List.mem_cons_self
    have rest := ih fun d member => plain d (List.mem_cons_of_mem _ member)
    simp only [escape, List.map_cons, List.flatMap_cons] at rest ⊢
    rw [escapeChar_plain printable quote slash, rest]
    rfl

theorem escapeChar_unit {c : ℕ} (none : shortEscape c = none) (other : ¬ IsPrintable c) (small : c < 0x10000) :
    escapeChar c = unitText c := by
  simp only [escapeChar, none, if_neg other, if_pos small]

theorem escapeChar_surrogate {c : ℕ} (surrogate : IsHigh c ∨ IsLow c) : escapeChar c = unitText c := by
  simp only [IsHigh, IsLow] at surrogate
  exact escapeChar_unit (shortEscape_large (by omega)) (by simp only [IsPrintable]; omega) (by omega)

theorem pairPoint_range {c d : ℕ} (high : IsHigh c) (low : IsLow d) :
    0x10000 ≤ pairPoint c d ∧ pairPoint c d < 0x110000 := by
  obtain ⟨_, _⟩ := high
  obtain ⟨_, _⟩ := low
  unfold pairPoint
  omega

theorem escapeChar_pair {c d : ℕ} (high : IsHigh c) (low : IsLow d) : escapeChar (pairPoint c d) = unitText c ++ unitText d := by
  have range := pairPoint_range high low
  have other : ¬ IsPrintable (pairPoint c d) := by
    simp only [IsPrintable]
    omega
  obtain ⟨_, _⟩ := high
  obtain ⟨_, _⟩ := low
  have first : 0xd800 + (pairPoint c d - 0x10000) / 0x400 % 0x400 = c := by
    unfold pairPoint
    omega
  have second : 0xdc00 + pairPoint c d % 0x400 = d := by
    unfold pairPoint
    omega
  rw [escapeChar, shortEscape_large (by omega), if_neg other, if_neg (not_lt.mpr range.1), first, second]

theorem escape_joinPairs (s : Str) : escape (joinPairs s) = escape s := by
  induction s using joinPairs.induct with
  | case1 c d rest pair ih =>
    rw [joinPairs, if_pos pair]
    simp only [escape, List.flatMap_cons] at ih ⊢
    rw [ih, escapeChar_pair pair.1 pair.2, escapeChar_surrogate (.inl pair.1), escapeChar_surrogate (.inr pair.2),
      List.append_assoc]
  | case2 c d rest apart ih =>
    rw [joinPairs, if_neg apart]
    simp only [escape, List.flatMap_cons] at ih ⊢
    rw [ih]
  | case3 s short => rw [joinPairs.eq_2 s short]

theorem joinPairs_head {d : ℕ} {rest : Str} : ∀ e ∈ (joinPairs (d :: rest)).head?, e = d ∨ 0x10000 ≤ e := by
  cases rest with
  | nil =>
    rintro e ⟨⟩
    exact .inl rfl
  | cons c rest =>
    rw [joinPairs]
    split
    · rename_i pair
      intro e here
      rw [List.head?_cons, Option.mem_some_iff] at here
      exact .inr (here ▸ (pairPoint_range pair.1 pair.2).1)
    · rintro e ⟨⟩
      exact .inl rfl

theorem joined_joinPairs {s : Str} (points : ∀ c ∈ s, c < 0x110000) : Joined (joinPairs s) := by
  induction s using joinPairs.induct with
  | case1 c d rest pair ih =>
    rw [joinPairs, if_pos pair]
    have range := pairPoint_range pair.1 pair.2
    refine joined_cons range.2 ?_ (ih fun e member => points e (by simp [member]))
    rintro e - ⟨high, _⟩
    simp only [IsHigh] at high
    omega
  | case2 c d rest apart ih =>
    rw [joinPairs, if_neg apart]
    refine joined_cons (points c (by simp)) ?_ (ih fun e member => points e (List.mem_cons_of_mem _ member))
    rintro e here ⟨high, low⟩
    rcases joinPairs_head e here with rfl | large
    · exact apart ⟨high, low⟩
    · simp only [IsLow] at low
      omega
  | case3 s short =>
    rw [joinPairs.eq_2 s short]
    refine ⟨points, ?_⟩
    cases s with
    | nil => exact .nil
    | cons c rest =>
      cases rest with
      | nil => exact .singleton c
      | cons d rest => exact (short c d rest rfl).elim

theorem escapeChar_head (c : ℕ) (t : List Char) : ∃ d u, escapeChar c ++ t = d :: u ∧ d ≠ '"' := by
  have written := escapeChar_escaped c
  generalize escapeChar c = text at written ⊢
  cases written with
  | short => exact ⟨_, _, rfl, by decide⟩
  | plain none printable => exact ⟨_, _, rfl, plain_ne none printable rfl⟩
  | unit => exact ⟨_, _, rfl, by decide⟩
  | pair => exact ⟨_, _, rfl, by decide⟩

/-! ### Reading strings -/

/-- The value of four hexadecimal digits. -/
def readHex4 (digit : Char → Option ℕ) : List Char → Option ℕ
  | a :: b :: c :: d :: _ => do
    let a ← digit a
    let b ← digit b
    let c ← digit c
    let d ← digit d
    some (((a * 0x10 + b) * 0x10 + c) * 0x10 + d)
  | _ => none

/-- The low surrogate that is written next. -/
def lowUnit (hex : List Char → Option ℕ) : List Char → Option (ℕ × List Char)
  | '\\' :: 'u' :: t => (hex t).bind fun lo => if IsLow lo then some (lo, t.drop 4) else none
  | _ => none

/-- A high surrogate takes the low one after it. -/
def withLow (hex : List Char → Option ℕ) (u : ℕ) (t : List Char) : ℕ × List Char :=
  if IsHigh u then
    match lowUnit hex t with
    | some (lo, t) => (pairPoint u lo, t)
    | none => (u, t)
  else (u, t)

/-- Characters up to the closing quote. -/
def readString (character : List Char → Option (ℕ × List Char)) : ℕ → List Char → Option (Str × List Char)
  | 0, _ => none
  | fuel + 1, s =>
    if s.head? = some '"' then some ([], s.tail)
    else do
      let (c, t) ← character s
      let (cs, t) ← readString character fuel t
      some (c :: cs, t)

/-- The loop over characters, however many rounds it takes: what it ends with. -/
inductive StringRun (character : List Char → Option (ℕ × List Char)) : List Char → Option (Str × List Char) → Prop
  | closed (t : List Char) : StringRun character ('"' :: t) (some ([], t))
  | refused {s : List Char} : s.head? ≠ some '"' → character s = none → StringRun character s none
  | next {s t : List Char} {c : ℕ} {out : Option (Str × List Char)} : s.head? ≠ some '"' → character s = some (c, t) →
    StringRun character t out → StringRun character s (out.map fun r => (c :: r.1, r.2))

theorem readString_run {character : List Char → Option (ℕ × List Char)}
    (shorter : ∀ {s c t}, s.head? ≠ some '"' → character s = some (c, t) → t.length < s.length) {fuel : ℕ} {s : List Char}
    (enough : s.length < fuel) : StringRun character s (readString character fuel s) := by
  induction fuel generalizing s with
  | zero => exact absurd enough (Nat.not_lt_zero _)
  | succ fuel ih =>
    rw [readString]
    split
    · rename_i last
      cases s with
      | nil => cases last
      | cons c t =>
        cases last
        exact .closed t
    · rename_i more
      cases found : character s with
      | none => exact .refused more found
      | some r =>
        obtain ⟨c, t⟩ := r
        have less := shorter more found
        have rest := StringRun.next more found (ih (s := t) (by omega))
        simp only [Option.bind_eq_bind, Option.bind_some]
        cases tail : readString character fuel t with
        | none =>
          rw [tail] at rest
          exact rest
        | some r =>
          rw [tail] at rest
          exact rest

theorem readHex4_text {digit : Char → Option ℕ} (reads : ∀ d < 16, digit (Nat.digitChar d) = some d) {u : ℕ}
    (small : u < 0x10000) (t : List Char) : readHex4 digit (hexText u ++ t) = some u := by
  simp only [hexText, List.cons_append, readHex4, reads (u / 0x1000) (by omega), reads (u / 0x100 % 0x10) (by omega),
    reads (u / 0x10 % 0x10) (by omega), reads (u % 0x10) (by omega), Option.bind_eq_bind, Option.bind_some]
  congr 1
  omega

theorem readHex4_sound {digit : Char → Option ℕ} (only : ∀ c d, digit c = some d → d < 16 ∧ c = Nat.digitChar d)
    {s : List Char} {u : ℕ} (read : readHex4 digit s = some u) : u < 0x10000 ∧ s = hexText u ++ s.drop 4 := by
  unfold readHex4 at read
  split at read
  · rename_i a b c d t
    simp only [Option.bind_eq_bind, Option.bind_eq_some_iff, Option.some.injEq] at read
    obtain ⟨a', first, b', second, c', third, d', fourth, rfl⟩ := read
    obtain ⟨_, rfl⟩ := only a a' first
    obtain ⟨_, rfl⟩ := only b b' second
    obtain ⟨_, rfl⟩ := only c c' third
    obtain ⟨_, rfl⟩ := only d d' fourth
    refine ⟨by omega, ?_⟩
    have quotients : (((a' * 0x10 + b') * 0x10 + c') * 0x10 + d') / 0x1000 = a' ∧
        (((a' * 0x10 + b') * 0x10 + c') * 0x10 + d') / 0x100 % 0x10 = b' ∧
        (((a' * 0x10 + b') * 0x10 + c') * 0x10 + d') / 0x10 % 0x10 = c' ∧
        (((a' * 0x10 + b') * 0x10 + c') * 0x10 + d') % 0x10 = d' := by omega
    simp only [hexText, quotients]
    rfl
  · cases read

theorem lowUnit_sound {hex : List Char → Option ℕ} (sound : ∀ s u, hex s = some u → s = hexText u ++ s.drop 4)
    {s t : List Char} {lo : ℕ} (found : lowUnit hex s = some (lo, t)) : IsLow lo ∧ s = unitText lo ++ t := by
  unfold lowUnit at found
  split at found
  · rename_i u
    obtain ⟨lo', read, found⟩ := Option.bind_eq_some_iff.mp found
    split at found
    · rename_i low
      cases found
      refine ⟨low, ?_⟩
      conv_lhs => rw [sound u lo read]
      rfl
    · cases found
  · cases found

section

variable {hex : List Char → Option ℕ} (reads : ∀ u t, u < 0x10000 → hex (hexText u ++ t) = some u)

include reads

theorem lowUnit_unit {u : ℕ} {t : List Char} (small : u < 0x10000) :
    lowUnit hex (unitText u ++ t) = if IsLow u then some (u, t) else none := by
  simp only [unitText, List.cons_append, lowUnit, reads u t small, Option.bind_some]
  rfl

theorem lowUnit_escaped {d : ℕ} (other : ¬ IsLow d) (t : List Char) :
    lowUnit hex (escapeChar d ++ t) = none := by
  have written := escapeChar_escaped d
  generalize escapeChar d = text at written ⊢
  cases written with
  | short short =>
    have listed := shortEscape_cases short
    simp only [List.mem_cons, Prod.mk.injEq, List.not_mem_nil, or_false] at listed
    rcases listed with ⟨_, rfl⟩ | ⟨_, rfl⟩ | ⟨_, rfl⟩ | ⟨_, rfl⟩ | ⟨_, rfl⟩ | ⟨_, rfl⟩ | ⟨_, rfl⟩ <;> rfl
  | plain none printable =>
    rw [List.cons_append, lowUnit]
    intro u same
    exact plain_ne none printable rfl (List.cons.inj same).1
  | unit none _ small => rw [lowUnit_unit reads small, if_neg other]
  | pair large =>
    rw [List.append_assoc, lowUnit_unit reads (by omega), if_neg]
    simp only [IsLow]
    omega

/-- `character` reads each code point back, unless a low surrogate follows a high one. -/
def ReadsEscaped (hex : List Char → Option ℕ) (character : List Char → Option (ℕ × List Char)) : Prop :=
  ∀ c t, c < 0x110000 → (IsHigh c → lowUnit hex t = none) → character (escapeChar c ++ t) = some (c, t)

theorem readString_escape {character : List Char → Option (ℕ × List Char)} (escaped : ReadsEscaped hex character)
    {s : Str} (joined : Joined s) {fuel : ℕ} (enough : s.length < fuel) (rest : List Char) :
    readString character fuel (escape s ++ '"' :: rest) = some (s, rest) := by
  induction s generalizing fuel with
  | nil =>
    obtain ⟨fuel, rfl⟩ : ∃ n, fuel = n + 1 := ⟨fuel - 1, by omega⟩
    rfl
  | cons c s ih =>
    obtain ⟨fuel, rfl⟩ : ∃ n, fuel = n + 1 := ⟨fuel - 1, by omega⟩
    have text : escape (c :: s) ++ '"' :: rest = escapeChar c ++ (escape s ++ '"' :: rest) := by
      simp only [escape, List.flatMap_cons, List.append_assoc]
    have apart : IsHigh c → lowUnit hex (escape s ++ '"' :: rest) = none := by
      intro high
      cases s with
      | nil => rfl
      | cons d s =>
        have other : ¬ IsLow d := fun low => (List.isChain_cons_cons.mp joined.pairs).1 ⟨high, low⟩
        simp only [escape, List.flatMap_cons, List.append_assoc]
        exact lowUnit_escaped reads other _
    obtain ⟨d, u, head, differ⟩ := escapeChar_head c (escape s ++ '"' :: rest)
    have read := escaped c _ joined.head apart
    rw [text, readString, if_neg (by rw [head]; simpa using differ), read]
    simp only [Option.bind_eq_bind, Option.bind_some]
    rw [ih joined.tail (by simpa using enough)]
    rfl

/-- What a reader accepts only as an escaped code point, it accepts only as an escaped string. -/
theorem readString_sound {character : List Char → Option (ℕ × List Char)}
    (sound : ∀ s c t, s.head? ≠ some '"' → character s = some (c, t) →
      c < 0x110000 ∧ s = escapeChar c ++ t ∧ (IsHigh c → lowUnit hex t = none))
    {fuel : ℕ} {s : List Char} {cs : Str} {rest : List Char} (read : readString character fuel s = some (cs, rest)) :
    Joined cs ∧ s = escape cs ++ '"' :: rest := by
  induction fuel generalizing s cs with
  | zero => cases read
  | succ fuel ih =>
    rw [readString] at read
    split at read
    · rename_i last
      cases read
      cases s with
      | nil => cases last
      | cons c t =>
        cases last
        exact ⟨⟨nofun, .nil⟩, rfl⟩
    · rename_i more
      simp only [Option.bind_eq_bind, Option.bind_eq_some_iff, Option.some.injEq, Prod.mk.injEq] at read
      obtain ⟨⟨c, t⟩, first, ⟨ds, u⟩, others, rfl, rfl⟩ := read
      obtain ⟨point, rfl, apart⟩ := sound s c t more first
      obtain ⟨joined, text⟩ := ih others
      dsimp only at text ⊢
      constructor
      · refine joined_cons point ?_ joined
        rintro d here ⟨high, low⟩
        cases ds with
        | nil => cases here
        | cons e es =>
          obtain rfl : e = d := Option.some.inj here
          have next : lowUnit hex t = some (e, escape es ++ '"' :: u) := by
            have small : e < 0x10000 := by
              have := low.2
              omega
            rw [text]
            simp only [escape, List.flatMap_cons, List.append_assoc]
            rw [escapeChar_surrogate (.inr low), lowUnit_unit reads small, if_pos low]
          rw [apart high] at next
          cases next
      · rw [text]
        simp only [escape, List.flatMap_cons, List.append_assoc]

end

theorem length_le_escape (s : Str) : s.length ≤ (escape s).length := by
  induction s with
  | nil => exact le_rfl
  | cons c s ih =>
    obtain ⟨d, u, head, _⟩ := escapeChar_head c []
    rw [List.append_nil] at head
    simp only [escape, List.flatMap_cons, head, List.length_append, List.length_cons] at ih ⊢
    omega

/-! ### Values -/

def intText (i : ℤ) : List Char := signText (decide (i < 0)) ++ Nat.toDigits 10 i.natAbs

namespace Json

/-- Keys in the order of their code points. -/
def sortKeys {β : Type} (fields : List (Str × β)) : List (Str × β) := fields.mergeSort fun a b => !decide (b.1 < a.1)

def memberText (member : Str × List Char) : List Char := quote member.1 ++ ':' :: member.2

/-- `json.dumps(v, sort_keys=True, separators=(",", ":"), ensure_ascii=True)`. -/
def dumps : Json → List Char
  | null => "null".toList
  | bool b => if b then "true".toList else "false".toList
  | int i => intText i
  | float x => pyRepr x
  | str s => quote s
  | arr items => '[' :: commas (items.map fun v => v.dumps) ++ [']']
  | obj fields => '{' :: commas ((sortKeys (fields.map fun kv => (kv.1, kv.2.dumps))).map memberText) ++ ['}']
decreasing_by
  all_goals simp_wf
  · have := List.sizeOf_lt_of_mem ‹_›
    omega
  · rename_i member
    have := List.sizeOf_lt_of_mem member
    cases kv
    simp at this ⊢
    omega

/-- The values that are not lists or objects. -/
def leaves : Json → List Json
  | arr items => (items.map fun v => v.leaves).flatten
  | obj fields => (fields.map fun kv => kv.2.leaves).flatten
  | v => [v]
decreasing_by
  all_goals simp_wf
  · have := List.sizeOf_lt_of_mem ‹_›
    omega
  · rename_i member
    have := List.sizeOf_lt_of_mem member
    cases kv
    simp at this ⊢
    omega

theorem leaves_int (i : ℤ) : (int i).leaves = [int i] := by
  rw [leaves] <;> nofun

theorem dumps_arr (items : List Json) : dumps (.arr items) = '[' :: commas (items.map dumps) ++ [']'] := by
  rw [dumps]

def fieldText (kv : Str × Json) : List Char := memberText (kv.1, kv.2.dumps)

/-- What canonical text says within so many levels: finite numbers, joined strings, keys in strict order. -/
def Canonical : ℕ → Json → Prop
  | 0, _ => False
  | _ + 1, float x => x.isFinite = true
  | _ + 1, str s => Joined s
  | levels + 1, arr items => ∀ v ∈ items, Canonical levels v
  | levels + 1, obj fields =>
    fields.Pairwise (fun a b => a.1 < b.1) ∧ ∀ kv ∈ fields, Joined kv.1 ∧ Canonical levels kv.2
  | _ + 1, _ => True

theorem Canonical.mono {levels more : ℕ} {v : Json} (canonical : Canonical levels v) (within : levels ≤ more) :
    Canonical more v := by
  induction levels generalizing more v with
  | zero => exact canonical.elim
  | succ levels ih =>
    obtain ⟨more, rfl⟩ : ∃ n, more = n + 1 := ⟨more - 1, by omega⟩
    cases v with
    | arr items => exact fun v member => ih (canonical v member) (by omega)
    | obj fields => exact ⟨canonical.1, fun kv member => ⟨(canonical.2 kv member).1, ih (canonical.2 kv member).2 (by omega)⟩⟩
    | float x => exact canonical
    | str s => exact canonical
    | _ => trivial

theorem leaves_arr (items : List Json) : (arr items).leaves = (items.map leaves).flatten := by rw [leaves]

theorem leaves_obj (fields : List (Str × Json)) : (obj fields).leaves = (fields.map fun kv => kv.2.leaves).flatten := by
  rw [leaves]

theorem Canonical.finite {levels : ℕ} {v : Json} (canonical : Canonical levels v) :
    ∀ x, float x ∈ v.leaves → x.isFinite = true := by
  induction levels generalizing v with
  | zero => exact canonical.elim
  | succ levels ih =>
    intro x member
    cases v with
    | arr items =>
      rw [leaves_arr, List.mem_flatten] at member
      obtain ⟨_, inside, member⟩ := member
      obtain ⟨v, here, rfl⟩ := List.mem_map.mp inside
      exact ih (canonical v here) x member
    | obj fields =>
      rw [leaves_obj, List.mem_flatten] at member
      obtain ⟨_, inside, member⟩ := member
      obtain ⟨kv, here, rfl⟩ := List.mem_map.mp inside
      exact ih (canonical.2 kv here).2 x member
    | float y =>
      rw [leaves, List.mem_singleton, float.injEq] at member <;> [skip; exact nofun; exact nofun]
      rw [member]
      exact canonical
    | _ =>
      rw [leaves, List.mem_singleton] at member <;> [skip; exact nofun; exact nofun]
      cases member

/-- Sorted keys stay where they are. -/
theorem dumps_obj {fields : List (Str × Json)} (sorted : fields.Pairwise fun a b => a.1 < b.1) :
    dumps (.obj fields) = '{' :: commas (fields.map fieldText) ++ ['}'] := by
  have same : sortKeys (fields.map fun kv => (kv.1, kv.2.dumps)) = fields.map fun kv => (kv.1, kv.2.dumps) := by
    refine List.mergeSort_of_pairwise (List.pairwise_map.mpr (sorted.imp ?_))
    intro a b less
    simp [lt_asymm less]
  rw [dumps, same, List.map_map]
  rfl

/-- How a number is written: an integer has neither a fraction nor an exponent. -/
structure NumberText (v : Json) (neg : Bool) (sp : Spelling) : Prop where
  text : v.dumps = signText neg ++ sp.text
  ok : sp.Ok
  lead : sp.Lead
  kind : v = .int (if neg then -(sp.mantissa : ℤ) else sp.mantissa) ∧ sp.frac = [] ∧ sp.exp = none ∧ (neg = true → sp.int ≠ ['0']) ∨
    v = .float (.ofDecimal neg sp.mantissa sp.exponent) ∧ (sp.frac ≠ [] ∨ sp.exp ≠ none)

theorem int_text (i : ℤ) : NumberText (.int i) (decide (i < 0)) { int := Nat.toDigits 10 i.natAbs } := by
  have value : ({ int := Nat.toDigits 10 i.natAbs } : Spelling).mantissa = i.natAbs := by
    rw [Spelling.mantissa, List.append_nil, Nat.ofDigitChars_ten_toDigits]
  refine ⟨?_, ⟨Nat.toDigits_ne_nil, allDigits_toDigits _, by simp [AllDigits], by simp⟩, ?_, .inl ⟨?_, rfl, rfl, ?_⟩⟩
  · simp [dumps, intText, Spelling.text, Spelling.fracText, Spelling.expText]
  · rcases Nat.eq_zero_or_pos i.natAbs with zero | positive
    · left
      rw [zero]
      rfl
    · exact .inr (toDigits_noLeadingZero positive)
  · rw [value]
    congr 1
    by_cases negative : i < 0
    · rw [if_pos (decide_eq_true negative)]
      omega
    · rw [if_neg (by simpa using negative)]
      omega
  · intro negative zero
    have small := of_decide_eq_true negative
    have lead := toDigits_noLeadingZero (n := i.natAbs) (by omega)
    rw [show Nat.toDigits 10 i.natAbs = ['0'] from zero] at lead
    exact lead '0' rfl rfl

theorem float_text {x : Double} (finite : x.isFinite = true) : ∃ sp, NumberText (.float x) x.neg sp := by
  obtain ⟨sp, text, real, value⟩ := pyRepr_spelling finite
  refine ⟨sp, ?_, real.ok, real.lead, .inr ⟨?_, real.real⟩⟩
  · rw [dumps, text]
  · rw [value]

/-- The first character of a value. -/
def Opens (c : Char) : Prop := c ∈ "ntf\"[\x7b-".toList ∨ c.isDigit = true

theorem NumberText.head {v : Json} {neg : Bool} {sp : Spelling} (number : NumberText v neg sp) :
    ∃ c t, v.dumps = c :: t ∧ (c = '-' ∨ c.isDigit = true) := by
  obtain ⟨c, t, start, digit⟩ := Spelling.text_head number.ok
  rw [number.text, start]
  cases neg with
  | true => exact ⟨'-', c :: t, rfl, .inl rfl⟩
  | false => exact ⟨c, t, rfl, .inr digit⟩

theorem opens_number {c : Char} (number : c = '-' ∨ c.isDigit = true) : Opens c := by
  rcases number with rfl | digit
  · exact .inl (by decide)
  · exact .inr digit

theorem dumps_head {levels : ℕ} {v : Json} (canonical : Canonical levels v) : ∃ c t, v.dumps = c :: t ∧ Opens c := by
  cases levels with
  | zero => exact canonical.elim
  | succ levels =>
    cases v with
    | null => exact ⟨_, _, by rw [dumps]; rfl, .inl (by decide)⟩
    | bool b =>
      cases b with
      | false => exact ⟨_, _, by rw [dumps]; rfl, .inl (by decide)⟩
      | true => exact ⟨_, _, by rw [dumps]; rfl, .inl (by decide)⟩
    | int i =>
      obtain ⟨c, t, text, number⟩ := (int_text i).head
      exact ⟨c, t, text, opens_number number⟩
    | float x =>
      obtain ⟨sp, written⟩ := float_text canonical
      obtain ⟨c, t, text, number⟩ := written.head
      exact ⟨c, t, text, opens_number number⟩
    | str s => exact ⟨_, _, by rw [dumps]; rfl, .inl (by decide)⟩
    | arr items => exact ⟨_, _, by rw [dumps]; rfl, .inl (by decide)⟩
    | obj fields => exact ⟨_, _, by rw [dumps]; rfl, .inl (by decide)⟩

theorem Opens.ne {c d : Char} (opens : Opens c) (other : d ∉ "ntf\"[\x7b-".toList) (letter : d.isDigit = false) : c ≠ d := by
  rintro rfl
  rcases opens with member | digit
  · exact other member
  · rw [letter] at digit
    cases digit

/-- What may follow a value inside canonical text. -/
def Follows (rest : List Char) : Prop := ∀ c ∈ rest.head?, c = ',' ∨ c = ']' ∨ c = '}'

theorem Follows.stops {rest : List Char} (follows : Follows rest) : Spelling.Stops rest := by
  intro c here
  rcases follows c here with rfl | rfl | rfl <;> decide

end Json

end Dyx3.Lib
