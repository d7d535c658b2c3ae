import Dyx3.Lib.JsonText

/-!
The JSON reader of CPython (`json.loads`) and its round trip with `dumps` on canonical values.
-/

namespace Dyx3.Lib.Json

/-! ### The reader -/

def isBlank (c : Char) : Bool := c = ' ' || c = '\t' || c = '\n' || c = '\r'

def skipBlanks (s : List Char) : List Char := s.dropWhile isBlank

/-- A hexadecimal digit in either case. -/
def anyHex (c : Char) : Option ℕ :=
  if '0' ≤ c ∧ c ≤ '9' then some (c.toNat - 48)
  else if 'a' ≤ c ∧ c ≤ 'f' then some (c.toNat - 87)
  else if 'A' ≤ c ∧ c ≤ 'F' then some (c.toNat - 55)
  else none

def backslash : Char → Option ℕ
  | '"' => some 0x22
  | '\\' => some 0x5c
  | '/' => some 0x2f
  | 'b' => some 0x08
  | 'f' => some 0x0c
  | 'n' => some 0x0a
  | 'r' => some 0x0d
  | 't' => some 0x09
  | _ => none

/-- One character of a string, in strict mode. -/
def scanCharacter : List Char → Option (ℕ × List Char)
  | [] => none
  | c :: t =>
    if c = '\\' then
      match t with
      | [] => none
      | e :: t =>
        if e = 'u' then (readHex4 anyHex t).map fun u => withLow (readHex4 anyHex) u (t.drop 4)
        else (backslash e).map (·, t)
    else if c.toNat < 0x20 then none
    else some (c.toNat, t)

def scanString (s : List Char) : Option (Str × List Char) := readString scanCharacter (s.length + 1) s

/-- Python reads NaN and the infinities too. -/
def scanConstant (s : List Char) : Option (Json × List Char) :=
  [("null", null), ("true", bool true), ("false", bool false), ("NaN", float .nan),
    ("Infinity", float (.infinity false)), ("-Infinity", float (.infinity true))].findSome?
    fun entry => (afterWord entry.1.toList s).map (entry.2, ·)

def scanMinus : List Char → Bool × List Char
  | '-' :: t => (true, t)
  | s => (false, s)

/-- `0|[1-9]\d*`, or nothing. -/
def scanInt (s : List Char) : List Char := if s.head? = some '0' then ['0'] else s.takeWhile Char.isDigit

/-- The digits of `(\.\d+)?` and the text after them. -/
def scanFraction (s : List Char) : List Char × List Char :=
  match s with
  | '.' :: t => if t.takeWhile Char.isDigit = [] then ([], s) else (t.takeWhile Char.isDigit, t.dropWhile Char.isDigit)
  | _ => ([], s)

/-- `(-?(?:0|[1-9]\d*))(\.\d+)?([eE][-+]?\d+)?`, where an integer has at most `limit` digits. -/
def scanNumber (limit : Option ℕ) (s : List Char) : Option (Json × List Char) :=
  let (neg, s) := scanMinus s
  let int := scanInt s
  let (frac, s) := scanFraction (s.drop int.length)
  let (exp, rest) := scanExponent 'e' s
  if int = [] then none
  else if frac = [] ∧ rest = s then
    if ∀ most ∈ limit, int.length ≤ most then
      let n : ℤ := Nat.ofDigitChars 10 int 0
      some (.int (if neg then -n else n), rest)
    else none
  else some (.float (.ofDecimal neg (Nat.ofDigitChars 10 (int ++ frac) 0) (exp - frac.length)), rest)

/-- `dict[key] = v`. -/
def insert (fields : List (Str × Json)) (key : Str) (v : Json) : List (Str × Json) :=
  if fields.any fun kv => kv.1 = key then fields.map fun kv => if kv.1 = key then (key, v) else kv
  else fields ++ [(key, v)]

abbrev Reader := List Char → Option (Json × List Char)

def scanElement (value : Reader) : ItemReader (List Json) := fun items s => do
  let (v, s) ← value (skipBlanks s)
  some (items ++ [v], skipBlanks s)

def scanMember (value : Reader) : ItemReader (List (Str × Json)) := fun fields s => do
  let s ← afterWord ['"'] (skipBlanks s)
  let (key, s) ← scanString s
  let s ← afterWord [':'] (skipBlanks s)
  let (v, s) ← value (skipBlanks s)
  some (insert fields key v, skipBlanks s)

/-- `scan_once`, with so many levels of recursion left. -/
def scanOnce (limit : Option ℕ) : ℕ → Reader
  | 0, _ => none
  | levels + 1, s =>
    match s with
    | '"' :: t => (scanString t).map fun r => (str r.1, r.2)
    | '{' :: t => (readSequence (scanMember (scanOnce limit levels)) '}' [] (skipBlanks t)).map fun r => (obj r.1, r.2)
    | '[' :: t => (readSequence (scanElement (scanOnce limit levels)) ']' [] (skipBlanks t)).map fun r => (arr r.1, r.2)
    | _ => (scanConstant s).or (scanNumber limit s)

/-- CPython's default recursion limit; the frames in use before the call are not counted. -/
def recursionLimit : ℕ := 1000

/-- `json.loads`; without a limit on the digits of an integer it is the standard's reader. -/
def loads (limit : Option ℕ) (s : List Char) : Option Json := do
  let (v, rest) ← scanOnce limit recursionLimit (skipBlanks s)
  if skipBlanks rest = [] then some v else none

/-! ### Reading canonical text -/

theorem anyHex_digit : ∀ d < 16, anyHex (Nat.digitChar d) = some d := by decide

theorem hex_reads (u : ℕ) (t : List Char) (small : u < 0x10000) : readHex4 anyHex (hexText u ++ t) = some u :=
  readHex4_text anyHex_digit small t

theorem withLow_apart {u : ℕ} {t : List Char} (apart : IsHigh u → lowUnit (readHex4 anyHex) t = none) :
    withLow (readHex4 anyHex) u t = (u, t) := by
  rw [withLow]
  split
  · rename_i high
    rw [apart high]
  · rfl

theorem scanCharacter_pair {hi lo : ℕ} (high : IsHigh hi) (low : IsLow lo) (t : List Char) :
    scanCharacter (unitText hi ++ (unitText lo ++ t)) = some (pairPoint hi lo, t) := by
  have small : hi < 0x10000 ∧ lo < 0x10000 := by
    obtain ⟨_, _⟩ := high
    obtain ⟨_, _⟩ := low
    omega
  have first := hex_reads hi (unitText lo ++ t) small.1
  have second := lowUnit_unit hex_reads (t := t) small.2
  rw [if_pos low] at second
  have after : (hexText hi ++ (unitText lo ++ t)).drop 4 = unitText lo ++ t := rfl
  rw [unitText]
  simp only [List.cons_append, scanCharacter, if_true, first, Option.map_some, after, withLow, if_pos high, second]

theorem scanCharacter_escaped : ReadsEscaped (readHex4 anyHex) scanCharacter := by
  intro c t point apart
  have written := escapeChar_escaped c
  generalize escapeChar c = text at written ⊢
  cases written with
  | short short =>
    have listed := shortEscape_cases short
    simp only [List.mem_cons, Prod.mk.injEq, List.not_mem_nil, or_false] at listed
    rcases listed with ⟨rfl, rfl⟩ | ⟨rfl, rfl⟩ | ⟨rfl, rfl⟩ | ⟨rfl, rfl⟩ | ⟨rfl, rfl⟩ | ⟨rfl, rfl⟩ | ⟨rfl, rfl⟩ <;> rfl
  | plain none printable =>
    have value := printable_toNat printable
    have other := plain_ne none printable (d := '\\') rfl
    have visible : ¬ (Char.ofNat c).toNat < 0x20 := by
      rw [value]
      exact not_lt.mpr printable.1
    simp only [List.cons_append, List.nil_append, scanCharacter, if_neg other, if_neg visible]
    rw [value]
  | unit _ _ small =>
    have read := hex_reads c t small
    have after : (hexText c ++ t).drop 4 = t := rfl
    simp only [unitText, List.cons_append, scanCharacter, if_true, read, Option.map_some, after, withLow_apart apart]
  | pair large =>
    have value : pairPoint (0xd800 + (c - 0x10000) / 0x400 % 0x400) (0xdc00 + c % 0x400) = c := by
      unfold pairPoint
      omega
    rw [List.append_assoc, scanCharacter_pair ⟨by omega, by omega⟩ ⟨by omega, by omega⟩, value]

theorem scanString_quote {s : Str} (joined : Joined s) (rest : List Char) :
    scanString (escape s ++ '"' :: rest) = some (s, rest) := by
  have length := length_le_escape s
  refine readString_escape hex_reads scanCharacter_escaped joined ?_ rest
  rw [List.length_append]
  omega

theorem skipBlanks_cons {c : Char} {t : List Char} (mark : isBlank c = false) : skipBlanks (c :: t) = c :: t :=
  List.dropWhile_cons_of_neg (by simp [mark])

theorem Opens.notBlank {c : Char} (opens : Opens c) : isBlank c = false := by
  have blank : ∀ d, d ∈ " \t\n\r".toList → c ≠ d := by
    intro d member
    have all : (" \t\n\r".toList.all fun d => !"ntf\"[\x7b-".toList.contains d && !d.isDigit) = true := by decide
    have other : d ∉ "ntf\"[\x7b-".toList ∧ d.isDigit = false := by simpa using List.all_eq_true.mp all d member
    exact opens.ne other.1 other.2
  simp [isBlank, blank]

theorem Follows.skip {rest : List Char} (follows : Follows rest) : skipBlanks rest = rest := by
  cases rest with
  | nil => rfl
  | cons c t =>
    rcases follows c rfl with rfl | rfl | rfl <;> rfl

theorem digit_notMinus {c : Char} (digit : c.isDigit = true) : c ≠ '-' := digit_ne digit rfl

/-- No constant starts like a number. -/
theorem scanConstant_number {neg : Bool} {c : Char} {t : List Char} (digit : c.isDigit = true) :
    scanConstant (signText neg ++ c :: t) = none := by
  have letter : ∀ d, d ∈ "ntfNI-".toList → c ≠ d := by
    intro d member
    have all : ("ntfNI-".toList.all fun d => !d.isDigit) = true := by decide
    have other : d.isDigit = false := by simpa using List.all_eq_true.mp all d member
    exact digit_ne digit other
  have words : ∀ word ∈ ["null", "true", "false", "NaN", "Infinity", "-Infinity"],
      afterWord word.toList (signText neg ++ c :: t) = none := by
    intro word member
    refine afterWord_none fun same => ?_
    have start := congrArg List.head? same
    have second := congrArg (fun s => s.tail.head?) same
    cases neg with
    | true =>
      simp only [List.mem_cons, List.not_mem_nil, or_false] at member
      rcases member with rfl | rfl | rfl | rfl | rfl | rfl
      all_goals first
        | exact letter 'I' (by decide) (Option.some.inj second)
        | cases start
    | false =>
      simp only [List.mem_cons, List.not_mem_nil, or_false] at member
      rcases member with rfl | rfl | rfl | rfl | rfl | rfl
      all_goals exact letter _ (by decide) (Option.some.inj start)
  simp only [List.forall_mem_cons] at words
  obtain ⟨null, true, false, nan, infinity, minus, _⟩ := words
  simp only [scanConstant, List.findSome?_cons, null, true, false, nan, infinity, minus, Option.map_none, List.findSome?_nil]

theorem scanMinus_sign {neg : Bool} {c : Char} {t : List Char} (digit : c.isDigit = true) :
    scanMinus (signText neg ++ c :: t) = (neg, c :: t) := by
  cases neg with
  | true => rfl
  | false =>
    simp only [signText, Bool.false_eq_true, if_false, List.nil_append]
    rw [scanMinus]
    exact fun u same => digit_notMinus digit (List.cons.inj same).1

theorem scanInt_text {sp : Spelling} (ok : sp.Ok) (lead : sp.Lead) {tail : List Char} (stop : NoDigit tail) :
    scanInt (sp.int ++ tail) = sp.int := by
  rcases lead with zero | lead
  · rw [zero]
    rfl
  · have head : (sp.int ++ tail).head? ≠ some '0' := by
      cases digits : sp.int with
      | nil => exact absurd digits ok.some
      | cons c ds =>
        rw [digits] at lead
        simpa using lead c rfl
    rw [scanInt, if_neg head, (scan_digits ok.int stop).1]

theorem scanFraction_text {sp : Spelling} (ok : sp.Ok) {rest : List Char} (stops : Spelling.Stops rest) :
    scanFraction (Spelling.fracText sp.frac ++ (Spelling.expText sp.exp ++ rest)) =
      (sp.frac, Spelling.expText sp.exp ++ rest) := by
  by_cases none : sp.frac = []
  · rw [none, Spelling.fracText, if_pos rfl, List.nil_append, scanFraction]
    exact Spelling.expText_notPoint sp.exp stops
  · obtain ⟨taken, dropped⟩ := scan_digits ok.frac (Spelling.expText_noDigit sp.exp stops)
    rw [Spelling.fracText, if_neg none, List.cons_append, scanFraction, taken, dropped, if_neg none]

theorem scanNumber_text {limit : Option ℕ} {v : Json} {neg : Bool} {sp : Spelling} (number : NumberText v neg sp)
    (short : ∀ i, v = .int i → ∀ most ∈ limit, sp.int.length ≤ most) {rest : List Char}
    (follows : Follows rest) : scanNumber limit (v.dumps ++ rest) = some (v, rest) := by
  have tail : NoDigit (Spelling.fracText sp.frac ++ (Spelling.expText sp.exp ++ rest)) := by
    by_cases none : sp.frac = []
    · rw [none]
      exact Spelling.expText_noDigit sp.exp follows.stops
    · rw [Spelling.fracText, if_neg none]
      exact noDigit_cons rfl
  obtain ⟨c, t, head, digit⟩ := Spelling.text_head number.ok
  have text : v.dumps ++ rest = signText neg ++ c :: (t ++ rest) := by
    rw [number.text, head, List.append_assoc, List.cons_append]
  have parts : c :: (t ++ rest) = sp.int ++ (Spelling.fracText sp.frac ++ (Spelling.expText sp.exp ++ rest)) := by
    rw [← List.cons_append, ← head, Spelling.text, List.append_assoc, List.append_assoc]
  have after : (sp.int ++ (Spelling.fracText sp.frac ++ (Spelling.expText sp.exp ++ rest))).drop sp.int.length =
      Spelling.fracText sp.frac ++ (Spelling.expText sp.exp ++ rest) := List.drop_left
  rw [text, scanNumber, scanMinus_sign digit]
  simp only [parts, scanInt_text number.ok number.lead tail, after, scanFraction_text number.ok follows.stops,
    Spelling.scanExponent_text number.ok follows.stops, if_neg number.ok.some]
  rcases number.kind with ⟨value, frac, exp, _⟩ | ⟨value, real⟩
  · have whole : sp.frac = [] ∧ rest = Spelling.expText sp.exp ++ rest := ⟨frac, by rw [exp]; rfl⟩
    have mantissa : sp.mantissa = Nat.ofDigitChars 10 sp.int 0 := by rw [Spelling.mantissa, frac, List.append_nil]
    rw [if_pos whole, if_pos (short _ value), value, mantissa]
  · have other : ¬ (sp.frac = [] ∧ rest = Spelling.expText sp.exp ++ rest) := by
      rintro ⟨frac, exp⟩
      rcases real with some | some
      · exact some frac
      · cases here : sp.exp with
        | none => exact some here
        | some e =>
          rw [here] at exp
          have length := congrArg List.length exp
          simp only [Spelling.expText, List.cons_append, List.length_cons, List.length_append] at length
          omega
    rw [if_neg other, value]
    rfl

/-- Every integer has at most so many digits. -/
def ShortInts (limit : Option ℕ) (v : Json) : Prop :=
  ∀ i, .int i ∈ v.leaves → ∀ most ∈ limit, (Nat.toDigits 10 i.natAbs).length ≤ most

section

variable {limit : Option ℕ}

theorem ShortInts.item {items : List Json} (short : ShortInts limit (.arr items)) {v : Json} (member : v ∈ items) :
    ShortInts limit v := by
  intro i leaf
  refine short i ?_
  rw [leaves_arr]
  exact List.mem_flatten.mpr ⟨_, List.mem_map.mpr ⟨v, member, rfl⟩, leaf⟩

theorem ShortInts.field {fields : List (Str × Json)} (short : ShortInts limit (.obj fields)) {kv : Str × Json}
    (member : kv ∈ fields) : ShortInts limit kv.2 := by
  intro i leaf
  refine short i ?_
  rw [leaves_obj]
  exact List.mem_flatten.mpr ⟨_, List.mem_map.mpr ⟨kv, member, rfl⟩, leaf⟩

theorem skip_dumps {levels : ℕ} {v : Json} (canonical : Canonical levels v) (rest : List Char) :
    skipBlanks (v.dumps ++ rest) = v.dumps ++ rest := by
  obtain ⟨c, t, head, opens⟩ := dumps_head canonical
  rw [head, List.cons_append, skipBlanks_cons opens.notBlank]

/-- What a reader of single values does on canonical text. -/
def ReadsBack (value : Reader) (v : Json) : Prop := ∀ rest, Follows rest → value (v.dumps ++ rest) = some (v, rest)

theorem follows_cons {c close : Char} (bracket : close = ']' ∨ close = '}') (mark : c = close ∨ c = ',') (rest : List Char) :
    Follows (c :: rest) := by
  rintro d ⟨⟩
  rcases mark with rfl | rfl
  · exact .inr bracket
  · exact .inl rfl

theorem skip_commas {texts : List (List Char)} {close : Char} (starts : ∀ text ∈ texts, ∃ c t, text = c :: t ∧ isBlank c = false)
    (mark : isBlank close = false) (rest : List Char) :
    skipBlanks (commas texts ++ close :: rest) = commas texts ++ close :: rest := by
  cases texts with
  | nil => exact skipBlanks_cons mark
  | cons text texts =>
    obtain ⟨c, t, start, visible⟩ := starts text List.mem_cons_self
    cases texts with
    | nil =>
      rw [commas, start]
      exact skipBlanks_cons visible
    | cons text' texts =>
      rw [commas_cons_cons, start]
      exact skipBlanks_cons visible

theorem scanElement_takes {levels : ℕ} {value : Reader} {v : Json} (canonical : Canonical levels v)
    (back : ReadsBack value v) : Takes (scanElement value) ']' dumps (fun items v => some (items ++ [v])) v := by
  intro items c rest mark
  have follows := follows_cons (.inl rfl) mark rest
  simp only [scanElement, skip_dumps canonical, back _ follows, Option.bind_eq_bind, Option.bind_some, follows.skip]
  rfl

theorem scanMember_takes {levels : ℕ} {value : Reader} {kv : Str × Json} (joined : Joined kv.1)
    (canonical : Canonical levels kv.2) (back : ReadsBack value kv.2) :
    Takes (scanMember value) '}' fieldText (fun fields kv => some (insert fields kv.1 kv.2)) kv := by
  intro fields c rest mark
  have follows := follows_cons (.inr rfl) mark rest
  have text : fieldText kv ++ c :: rest = '"' :: (escape kv.1 ++ '"' :: (':' :: (kv.2.dumps ++ c :: rest))) := by
    simp [fieldText, memberText, quote]
  simp only [text, scanMember, skipBlanks_cons (c := '"') rfl, skipBlanks_cons (c := ':') rfl, afterWord_cons,
    Option.bind_eq_bind, Option.bind_some, scanString_quote joined, skip_dumps canonical, back _ follows, follows.skip]
  rfl

theorem foldlM_some {σ α : Type} (f : σ → α → σ) (acc : σ) (xs : List α) :
    xs.foldlM (fun acc x => some (f acc x)) acc = some (xs.foldl f acc) := by
  induction xs generalizing acc with
  | nil => rfl
  | cons x xs ih => exact ih (f acc x)

theorem insert_new {fields : List (Str × Json)} {key : Str} {v : Json} (new : ∀ kv ∈ fields, kv.1 ≠ key) :
    insert fields key v = fields ++ [(key, v)] := by
  have absent : ¬ (fields.any fun kv => decide (kv.1 = key)) = true := by
    rw [List.any_eq_true]
    rintro ⟨kv, member, same⟩
    exact new kv member (of_decide_eq_true same)
  rw [insert, if_neg absent]

theorem foldl_insert {before fields : List (Str × Json)} (distinct : (before ++ fields).Pairwise fun a b => a.1 ≠ b.1) :
    fields.foldl (fun acc kv => insert acc kv.1 kv.2) before = before ++ fields := by
  induction fields generalizing before with
  | nil => simp
  | cons kv fields ih =>
    have new : ∀ old ∈ before, old.1 ≠ kv.1 := fun old member =>
      (List.pairwise_append.mp distinct).2.2 old member kv List.mem_cons_self
    rw [List.foldl_cons, insert_new new, ih (by simpa using distinct)]
    simp

/-- A number is neither a string nor a container nor a constant. -/
theorem scanOnce_number {v : Json} {neg : Bool} {sp : Spelling} {rest : List Char} {levels : ℕ} (written : NumberText v neg sp)
    (read : scanNumber limit (v.dumps ++ rest) = some (v, rest)) : scanOnce limit (levels + 1) (v.dumps ++ rest) = some (v, rest) := by
  obtain ⟨c, t, head, digit⟩ := Spelling.text_head written.ok
  have text : v.dumps ++ rest = signText neg ++ c :: (t ++ rest) := by
    rw [written.text, head, List.append_assoc, List.cons_append]
  have mark : ∀ d u, d = '"' ∨ d = '{' ∨ d = '[' → signText neg ++ c :: (t ++ rest) ≠ d :: u := by
    intro d u mark same
    cases neg with
    | true =>
      cases same
      simp at mark
    | false =>
      have here : c = d := (List.cons.inj same).1
      rcases mark with rfl | rfl | rfl <;> exact digit_ne digit rfl here
  rw [text] at read ⊢
  rw [scanOnce, scanConstant_number digit, read]
  · rfl
  · exact fun u => mark _ u (.inl rfl)
  · exact fun u => mark _ u (.inr (.inl rfl))
  · exact fun u => mark _ u (.inr (.inr rfl))

theorem scanOnce_dumps {levels : ℕ} {v : Json} (canonical : Canonical levels v) (short : ShortInts limit v)
    {more : ℕ} (within : levels ≤ more) : ReadsBack (scanOnce limit more) v := by
  induction levels generalizing v more with
  | zero => exact canonical.elim
  | succ levels ih =>
    obtain ⟨more, rfl⟩ : ∃ n, more = n + 1 := ⟨more - 1, by omega⟩
    intro rest follows
    cases v with
    | null =>
      rw [dumps]
      rfl
    | bool b =>
      rw [dumps]
      cases b <;> rfl
    | int i =>
      have written := int_text i
      have read : scanNumber limit ((Json.int i).dumps ++ rest) = some (.int i, rest) :=
        scanNumber_text written (fun j same most member => by
          cases same
          exact short i (by rw [leaves_int]; exact List.mem_singleton_self _) most member) follows
      exact scanOnce_number written read
    | float x =>
      obtain ⟨sp, written⟩ := float_text canonical
      exact scanOnce_number written (scanNumber_text written (by simp) follows)
    | str s =>
      have text : (Json.str s).dumps ++ rest = '"' :: (escape s ++ '"' :: rest) := by
        rw [dumps]
        simp [quote]
      rw [text, scanOnce, scanString_quote canonical]
      rfl
    | arr items =>
      have text : (Json.arr items).dumps ++ rest = '[' :: (commas (items.map dumps) ++ ']' :: rest) := by
        rw [dumps_arr]
        simp
      have starts : ∀ v ∈ items, ∃ c t, v.dumps = c :: t ∧ Opens c := fun v member => dumps_head (canonical v member)
      have takes : ∀ v ∈ items, Takes (scanElement (scanOnce limit more)) ']' dumps (fun items v => some (items ++ [v])) v :=
        fun v member => scanElement_takes (canonical v member) (ih (canonical v member) (short.item member) (by omega))
      have read : readSequence (scanElement (scanOnce limit more)) ']' [] (commas (items.map dumps) ++ ']' :: rest) =
          (items.foldlM (fun items v => some (items ++ [v])) []).map (·, rest) :=
        readSequence_commas (by decide) (fun v member => by
          obtain ⟨c, t, head, opens⟩ := starts v member
          exact ⟨c, t, head, opens.ne (by decide) rfl⟩) takes
      rw [text, scanOnce, skip_commas ?_ rfl, read, foldlM_some]
      · have singles : (items.map fun v => [v]).flatten = items := List.flatMap_singleton' items
        rw [List.foldl_append_eq_append, singles]
        rfl
      · intro text member
        obtain ⟨v, inside, rfl⟩ := List.mem_map.mp member
        obtain ⟨c, t, head, opens⟩ := starts v inside
        exact ⟨c, t, head, opens.notBlank⟩
    | obj fields =>
      obtain ⟨sorted, fine⟩ := canonical
      have text : (Json.obj fields).dumps ++ rest = '{' :: (commas (fields.map fieldText) ++ '}' :: rest) := by
        rw [dumps_obj sorted]
        simp
      have takes : ∀ kv ∈ fields, Takes (scanMember (scanOnce limit more)) '}' fieldText
          (fun fields kv => some (insert fields kv.1 kv.2)) kv := fun kv member =>
        scanMember_takes (fine kv member).1 (fine kv member).2 (ih (fine kv member).2 (short.field member) (by omega))
      have starts : ∀ kv ∈ fields, ∃ c t, fieldText kv = c :: t ∧ c ≠ '}' := fun kv _ => ⟨'"', _, rfl, by decide⟩
      have read : readSequence (scanMember (scanOnce limit more)) '}' [] (commas (fields.map fieldText) ++ '}' :: rest) =
          (fields.foldlM (fun fields kv => some (insert fields kv.1 kv.2)) []).map (·, rest) :=
        readSequence_commas (by decide) starts takes
      have distinct : fields.Pairwise fun (a b : Str × Json) => a.1 ≠ b.1 := sorted.imp fun less => ne_of_lt less
      rw [text, scanOnce, skip_commas ?_ rfl, read, foldlM_some,
        foldl_insert (show ([] ++ fields).Pairwise fun (a b : Str × Json) => a.1 ≠ b.1 from distinct)]
      · rfl
      · intro text member
        obtain ⟨kv, _, rfl⟩ := List.mem_map.mp member
        exact ⟨'"', _, rfl, rfl⟩

/-- Canonical text reads back as the value it was written from. -/
theorem loads_dumps {levels : ℕ} {v : Json} (canonical : Canonical levels v) (within : levels ≤ recursionLimit)
    (short : ShortInts limit v) : loads limit v.dumps = some v := by
  have skip := skip_dumps canonical []
  have read := scanOnce_dumps canonical short within [] nofun
  rw [List.append_nil] at skip read
  simp only [loads, skip, read, Option.bind_eq_bind, Option.bind_some]
  rfl

end

/-- Two values have the same canonical text only if they are the same. -/
theorem dumps_inj {levels levels' : ℕ} {v w : Json} (left : Canonical levels v) (right : Canonical levels' w)
    (within : levels ≤ recursionLimit) (within' : levels' ≤ recursionLimit) (same : v.dumps = w.dumps) : v = w := by
  have read : loads none v.dumps = some v := loads_dumps left within nofun
  have read' : loads none w.dumps = some w := loads_dumps right within' nofun
  rw [same, read'] at read
  exact (Option.some.inj read).symm

end Dyx3.Lib.Json
