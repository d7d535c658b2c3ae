import Mathlib.Data.List.Basic
import Mathlib.Data.List.Forall2
import Mathlib.Data.List.TakeWhile
import Dyx3.Lib.Digits

/-!
Readers of byte strings. A reader is exact for a grammar when what it takes is a text of the grammar, and it takes every such
text; the rules below give this for whitespace, for quoted strings and for comma-separated items between brackets.
-/

namespace Dyx3.Lib

abbrev ByteString := List UInt8

/-- A `char` literal. -/
def byte (c : Char) : UInt8 := UInt8.ofNat c.toNat

/-- A string literal. -/
def ascii (s : String) : ByteString := s.toList.map byte

/-- The character with the code of a byte. -/
def char (b : UInt8) : Char := Char.ofNat b.toNat

theorem char_toNat (b : UInt8) : (char b).toNat = b.toNat := by
  have small : b.toNat < 256 := UInt8.toNat_lt b
  have valid : b.toNat.isValidChar := Or.inl (by omega)
  rw [char, Char.ofNat, dif_pos valid]
  rfl

theorem byte_char (b : UInt8) : byte (char b) = b := by
  rw [byte, char_toNat, UInt8.ofNat_toNat]

theorem char_byte {c : Char} (small : c.toNat < 256) : char (byte c) = c := by
  rw [char, byte, UInt8.toNat_ofNat', Nat.mod_eq_of_lt small, Char.ofNat_toNat]

namespace ByteReader

/-! ### Whitespace -/

def isWs (c : UInt8) : Bool := c = byte ' ' || c = byte '\n' || c = byte '\t' || c = byte '\r'

def ws (s : ByteString) : ByteString := s.dropWhile isWs

def Blank (a : ByteString) : Prop := ∀ c ∈ a, isWs c = true

-- along the text: there are only finitely many bytes, and that instance would run through all of them
instance (a : ByteString) : Decidable (Blank a) := decidable_of_iff (a.all isWs = true) List.all_eq_true

theorem blank_nil : Blank [] := nofun

theorem ws_split (s : ByteString) : ∃ a, Blank a ∧ s = a ++ ws s :=
  ⟨s.takeWhile isWs, fun _ member => List.mem_takeWhile_imp member, List.takeWhile_append_dropWhile.symm⟩

theorem ws_append {a : ByteString} (blank : Blank a) (t : ByteString) : ws (a ++ t) = ws t := by
  rw [ws, List.dropWhile_append_of_pos blank]
  rfl

theorem ws_cons {c : UInt8} (mark : isWs c = false) (t : ByteString) : ws (c :: t) = c :: t :=
  List.dropWhile_cons_of_neg (by simp [mark])

theorem ws_nil : ws [] = [] := rfl

/-- What comes next after the whitespace is not whitespace. -/
theorem ws_mark {s : ByteString} {c : UInt8} (head : (ws s).head? = some c) : isWs c = false := by
  rw [ws, ← List.find?_not_eq_head?_dropWhile] at head
  simpa using List.find?_some head

theorem ws_ws (s : ByteString) : ws (ws s) = ws s := by
  cases next : ws s with
  | nil => rfl
  | cons c t => exact ws_cons (ws_mark (by rw [next]; rfl)) t

theorem ws_head {s : ByteString} {c : UInt8} (head : (ws s).head? = some c) (rest : ByteString) : (ws (s ++ rest)).head? = some c := by
  obtain ⟨a, blank, split⟩ := ws_split s
  obtain ⟨t, opened⟩ := List.head?_eq_some_iff.mp head
  rw [split, opened, List.append_assoc, ws_append blank, List.cons_append, ws_cons (ws_mark head)]
  rfl

/-- Whitespace around a text. -/
def Spaced (core text : ByteString) : Prop := ∃ a b, Blank a ∧ Blank b ∧ text = a ++ core ++ b

theorem Spaced.refl (core : ByteString) : Spaced core core := ⟨[], [], blank_nil, blank_nil, by simp⟩

/-! ### Digits -/

def isDigit (c : UInt8) : Bool := byte '0' ≤ c && c ≤ byte '9'

theorem isDigit_char (c : UInt8) : isDigit c = (char c).isDigit := by
  have code : (char c).val.toNat = c.toNat := char_toNat c
  simp only [isDigit, Char.isDigit, ge_iff_le, UInt8.le_iff_toNat_le, UInt32.le_iff_toNat_le, code]
  rfl

theorem digit_value {c : UInt8} (digit : isDigit c = true) : (c - byte '0').toNat = (char c).toNat - '0'.toNat := by
  rw [isDigit, Bool.and_eq_true, decide_eq_true_iff] at digit
  rw [char_toNat, UInt8.toNat_sub_of_le c _ digit.1]
  rfl

def decimal (n : ℕ) : ByteString := (Nat.toDigits 10 n).map byte

theorem digit_mark {c : UInt8} (digit : isDigit c = true) : isWs c = false := by
  rw [Bool.eq_false_iff]
  intro space
  simp only [isWs, Bool.or_eq_true, decide_eq_true_eq] at space
  obtain ((rfl | rfl) | rfl) | rfl := space <;> exact absurd digit (by decide)

theorem digits_chars {ds : ByteString} (all : ∀ c ∈ ds, isDigit c = true) : AllDigits (ds.map char) := by
  intro c member
  obtain ⟨b, inside, rfl⟩ := List.mem_map.mp member
  rw [← isDigit_char]
  exact all b inside

theorem digit_small {c : Char} (digit : c.isDigit = true) : c.toNat < 256 := by
  obtain ⟨n, small, rfl⟩ := digit_cases digit
  revert small n
  decide

theorem chars_digits {ds : List Char} (all : AllDigits ds) : ∀ c ∈ ds.map byte, isDigit c = true := by
  intro c member
  obtain ⟨d, inside, rfl⟩ := List.mem_map.mp member
  rw [isDigit_char, char_byte (digit_small (all d inside))]
  exact all d inside

theorem map_byte_char (s : ByteString) : (s.map char).map byte = s := by
  rw [List.map_map]
  exact List.map_id'' byte_char s

theorem map_char_byte {s : List Char} (small : ∀ c ∈ s, c.toNat < 256) : (s.map byte).map char = s := by
  rw [List.map_map]
  exact (List.map_congr_left fun c member => char_byte (small c member)).trans (List.map_id s)

/-- Digits without a leading zero are the decimal text of their value. -/
theorem decimal_value {ds : ByteString} (all : ∀ c ∈ ds, isDigit c = true) (ne : ds ≠ []) (lead : ds.head? = some (byte '0') → ds.length = 1) :
    ds = decimal (Nat.ofDigitChars 10 (ds.map char) 0) := by
  by_cases zero : ds.head? = some (byte '0')
  · obtain ⟨c, rfl⟩ := List.length_eq_one_iff.mp (lead zero)
    cases zero
    decide
  · have plain : NoLeadingZero (ds.map char) := by
      rintro c head rfl
      rw [Option.mem_def, List.head?_map] at head
      obtain ⟨b, first, code⟩ := Option.map_eq_some_iff.mp head
      exact zero (by rw [first, ← code, byte_char])
    rw [decimal, toDigits_ofDigitChars (digits_chars all) (by simpa using ne) plain, map_byte_char]

theorem decimal_digits (n : ℕ) : ∀ c ∈ decimal n, isDigit c = true := chars_digits (allDigits_toDigits n)

theorem decimal_ne (n : ℕ) : decimal n ≠ [] := by
  rw [decimal, Ne, List.map_eq_nil_iff, ← List.length_eq_zero_iff]
  exact (Nat.length_toDigits_pos).ne'

theorem ws_decimal (n : ℕ) (rest : ByteString) : ws (decimal n ++ rest) = decimal n ++ rest := by
  obtain ⟨c, t, digits⟩ := List.exists_cons_of_ne_nil (decimal_ne n)
  rw [digits, List.cons_append]
  exact ws_cons (digit_mark (decimal_digits n c (by rw [digits]; exact List.mem_cons_self))) _

theorem decimal_lead {n : ℕ} (zero : (decimal n).head? = some (byte '0')) : (decimal n).length = 1 := by
  rcases Nat.eq_zero_or_pos n with rfl | positive
  · rfl
  · exfalso
    rw [decimal, List.head?_map] at zero
    obtain ⟨c, first, code⟩ := Option.map_eq_some_iff.mp zero
    have digit := allDigits_toDigits n c (List.mem_of_mem_head? first)
    have same := congrArg char code
    rw [char_byte (digit_small digit)] at same
    exact toDigits_noLeadingZero positive c first same

theorem decimal_ofDigits (n : ℕ) : Nat.ofDigitChars 10 ((decimal n).map char) 0 = n := by
  rw [decimal, map_char_byte fun c member => digit_small (allDigits_toDigits n c member)]
  exact Nat.ofDigitChars_toDigits (by decide) (by decide)

/-! ### Exact readers -/

variable {ε α σ : Type}

/-- `r` reads the texts of `G`, where the rest of the input lets it. -/
structure Reads (r : ByteString → Except ε (α × ByteString)) (G : α → ByteString → Prop) (stop : ByteString → Prop) : Prop where
  sound : ∀ {s v rest}, r s = .ok (v, rest) → ∃ text, s = text ++ rest ∧ G v text
  complete : ∀ {v text rest}, G v text → stop rest → r (text ++ rest) = .ok (v, rest)

/-! ### Quoted strings -/

/-- The units of a string up to the closing quote. -/
def quoted (unit : ByteString → Except ε (α × ByteString)) (bad : ByteString → ε) : ℕ → ByteString → Except ε (List α × ByteString)
  | 0, s => .error (bad s)
  | _, [] => .error (bad [])
  | fuel + 1, c :: t =>
    if c = byte '"' then .ok ([], t)
    else do
      let (v, s) ← unit (c :: t)
      let (vs, s) ← quoted unit bad fuel s
      return (v :: vs, s)

/-- The texts of the units and the closing quote. -/
def Quoted (U : α → ByteString → Prop) (vs : List α) (text : ByteString) : Prop :=
  ∃ texts, List.Forall₂ U vs texts ∧ text = texts.flatten ++ [byte '"']

variable {unit : ByteString → Except ε (α × ByteString)} {bad : ByteString → ε} {U : α → ByteString → Prop}

/-- `unit` reads the texts of `U`, which do not start with a quote. -/
structure ReadsUnits (unit : ByteString → Except ε (α × ByteString)) (U : α → ByteString → Prop) : Prop where
  sound : ∀ {c t v rest}, c ≠ byte '"' → unit (c :: t) = .ok (v, rest) → ∃ text, c :: t = text ++ rest ∧ U v text
  complete : ∀ {v text} rest, U v text → unit (text ++ rest) = .ok (v, rest)
  inside : ∀ {v text}, U v text → ∃ c t, text = c :: t ∧ c ≠ byte '"'

theorem quoted_sound (reads : ReadsUnits unit U) {fuel : ℕ} {s rest : ByteString} {vs : List α}
    (read : quoted unit bad fuel s = .ok (vs, rest)) : ∃ text, s = text ++ rest ∧ Quoted U vs text := by
  induction fuel generalizing s vs with
  | zero =>
    rw [quoted] at read
    cases read
  | succ fuel ih =>
    cases s with
    | nil => cases read
    | cons c t =>
      rw [quoted] at read
      split at read
      · rename_i quote
        cases read
        exact ⟨[c], rfl, [], .nil, by rw [quote]; rfl⟩
      · rename_i other
        cases first : unit (c :: t) with
        | error e =>
          rw [first] at read
          cases read
        | ok found =>
          obtain ⟨v, s⟩ := found
          rw [first] at read
          cases more : quoted unit bad fuel s with
          | error e =>
            simp only [bind, Except.bind, more] at read
            cases read
          | ok found =>
            obtain ⟨others, s'⟩ := found
            simp only [bind, Except.bind, more] at read
            cases read
            obtain ⟨text, split, unitText⟩ := reads.sound other first
            obtain ⟨_, rfl, texts, units, rfl⟩ := ih more
            refine ⟨text ++ (texts.flatten ++ [byte '"']), ?_, text :: texts, .cons unitText units, ?_⟩
            · rw [split]
              simp only [List.append_assoc]
            · rw [List.flatten_cons, List.append_assoc]

theorem quoted_complete (reads : ReadsUnits unit U) {vs : List α} {text : ByteString} (quotedText : Quoted U vs text)
    {fuel : ℕ} (enough : text.length ≤ fuel) (rest : ByteString) : quoted unit bad fuel (text ++ rest) = .ok (vs, rest) := by
  obtain ⟨texts, units, rfl⟩ := quotedText
  induction units generalizing fuel with
  | nil =>
    obtain ⟨fuel, rfl⟩ : ∃ n, fuel = n + 1 := ⟨fuel - 1, by simp at enough; omega⟩
    exact if_pos rfl
  | @cons v text vs texts first _ ih =>
    obtain ⟨c, t, rfl, other⟩ := reads.inside first
    obtain ⟨fuel, rfl⟩ : ∃ n, fuel = n + 1 := ⟨fuel - 1, by simp at enough; omega⟩
    have less : (texts.flatten ++ [byte '"']).length ≤ fuel := by
      simp only [List.flatten_cons, List.length_append, List.length_cons, List.length_nil] at enough ⊢
      omega
    have head := reads.complete (texts.flatten ++ [byte '"'] ++ rest) first
    rw [List.cons_append] at head
    rw [List.flatten_cons, List.append_assoc, List.append_assoc, List.cons_append, ← List.append_assoc texts.flatten, quoted, if_neg other, head]
    simp only [bind, Except.bind, ih less]
    rfl

/-! ### Items between brackets -/

/-- Items up to the closing bracket, at least one. Every item takes the whitespace around it. -/
def separated (item : σ → ByteString → Except ε (σ × ByteString)) (close : UInt8) (bad : ByteString → ε) :
    ℕ → σ → ByteString → Except ε (σ × ByteString)
  | 0, _, s => .error (bad s)
  | fuel + 1, acc, s => do
    let (acc, s) ← item acc s
    match s with
    | [] => .error (bad [])
    | c :: t =>
      if c = byte ',' then separated item close bad fuel acc t
      else if c = close then .ok (acc, t)
      else .error (bad s)

/-- What follows an opening bracket. -/
def bracketed (item : σ → ByteString → Except ε (σ × ByteString)) (close : UInt8) (bad : ByteString → ε) (acc : σ) (s : ByteString) :
    Except ε (σ × ByteString) :=
  if (ws s).head? = some close then .ok (acc, (ws s).tail) else separated item close bad (s.length + 1) acc s

/-- Texts of items with commas between them. -/
inductive Listed (T : α → ByteString → Prop) : List α → ByteString → Prop
  | one {x : α} {text : ByteString} (item : T x text) : Listed T [x] text
  | more {x : α} {xs : List α} {text texts : ByteString} (item : T x text) (rest : Listed T xs texts) :
      Listed T (x :: xs) (text ++ byte ',' :: texts)

def Bracketed (T : α → ByteString → Prop) (close : UInt8) (xs : List α) (text : ByteString) : Prop :=
  (xs = [] ∧ ∃ a, Blank a ∧ text = a ++ [close]) ∨ ∃ items, Listed T xs items ∧ text = items ++ [close]

theorem Listed.imp {T T' : α → ByteString → Prop} (weaker : ∀ {x text}, T x text → T' x text) {xs : List α} {text : ByteString}
    (listed : Listed T xs text) : Listed T' xs text := by
  induction listed with
  | one item => exact .one (weaker item)
  | more item _ ih => exact .more (weaker item) ih

theorem Bracketed.imp {T T' : α → ByteString → Prop} (weaker : ∀ {x text}, T x text → T' x text) {close : UInt8} {xs : List α} {text : ByteString}
    (items : Bracketed T close xs text) : Bracketed T' close xs text := by
  obtain empty | ⟨items, listed, split⟩ := items
  · exact Or.inl empty
  · exact Or.inr ⟨items, listed.imp weaker, split⟩

/-- A comma or the closing bracket comes next. -/
def Ends (close : UInt8) (rest : ByteString) : Prop := ∃ t, rest = byte ',' :: t ∨ rest = close :: t

theorem Ends.ws {close : UInt8} {rest b : ByteString} (ends : Ends close rest) (mark : isWs close = false) (blank : Blank b) :
    ByteReader.ws (b ++ rest) = rest := by
  rw [ws_append blank]
  obtain ⟨t, rfl | rfl⟩ := ends
  · exact ws_cons (by decide) t
  · exact ws_cons mark t

/-- What comes next after an item and its whitespace. -/
theorem Ends.next {close : UInt8} {rest b : ByteString} (ends : Ends close rest) (blank : Blank b) {c : UInt8} (next : (b ++ rest).head? = some c) :
    isWs c = true ∨ c = byte ',' ∨ c = close := by
  cases b with
  | cons d b =>
    cases next
    exact Or.inl (blank _ List.mem_cons_self)
  | nil =>
    obtain ⟨t, rfl | rfl⟩ := ends
    · cases next
      exact Or.inr (Or.inl rfl)
    · cases next
      exact Or.inr (Or.inr rfl)

/-- An item of `T` is read and `put` to what there is. -/
def Puts (T : α → ByteString → Prop) (put : σ → α → Option σ) (acc acc' : σ) (text : ByteString) : Prop :=
  ∃ x, T x text ∧ put acc x = some acc'

variable {item : σ → ByteString → Except ε (σ × ByteString)} {close : UInt8} {T : α → ByteString → Prop} {put : σ → α → Option σ}

theorem foldlM_cons {acc mid acc' : σ} {x : α} {xs : List α} (first : put acc x = some mid) (rest : xs.foldlM put mid = some acc') :
    (x :: xs).foldlM put acc = some acc' := by
  rw [List.foldlM_cons, first]
  exact rest

theorem separated_sound (reads : ∀ acc, Reads (item acc) (Puts T put acc) (Ends close)) {fuel : ℕ} {acc acc' : σ} {s rest : ByteString}
    (read : separated item close bad fuel acc s = .ok (acc', rest)) :
    ∃ items xs, s = items ++ close :: rest ∧ Listed T xs items ∧ xs.foldlM put acc = some acc' := by
  induction fuel generalizing acc s with
  | zero => cases read
  | succ fuel ih =>
    rw [separated] at read
    cases first : item acc s with
    | error e =>
      rw [first] at read
      cases read
    | ok found =>
      obtain ⟨mid, t⟩ := found
      rw [first] at read
      obtain ⟨text, split, x, one, step⟩ := (reads acc).sound first
      cases t with
      | nil => cases read
      | cons c t =>
        simp only [bind, Except.bind] at read
        split at read
        · rename_i comma
          obtain ⟨items, xs, more, texts, steps⟩ := ih read
          exact ⟨_, x :: xs, by rw [split, comma, more, List.append_assoc]; rfl, .more one texts, foldlM_cons step steps⟩
        · split at read
          · rename_i closed
            cases read
            exact ⟨text, [x], by rw [split, closed], .one one, foldlM_cons step rfl⟩
          · cases read

theorem separated_complete (reads : ∀ acc, Reads (item acc) (Puts T put acc) (Ends close)) (other : close ≠ byte ',') {xs : List α}
    {items : ByteString} (texts : Listed T xs items) {acc acc' : σ} (steps : xs.foldlM put acc = some acc') {fuel : ℕ}
    (enough : items.length < fuel) (rest : ByteString) : separated item close bad fuel acc (items ++ close :: rest) = .ok (acc', rest) := by
  induction texts generalizing fuel acc with
  | @one x text first =>
    obtain ⟨fuel, rfl⟩ : ∃ n, fuel = n + 1 := ⟨fuel - 1, by omega⟩
    rw [List.foldlM_cons] at steps
    obtain ⟨mid, step, stop⟩ := Option.bind_eq_some_iff.mp steps
    cases stop
    rw [separated, (reads acc).complete ⟨x, first, step⟩ ⟨rest, Or.inr rfl⟩]
    simp only [bind, Except.bind, if_neg other, if_true]
  | @more x xs text items first _ ih =>
    obtain ⟨fuel, rfl⟩ : ∃ n, fuel = n + 1 := ⟨fuel - 1, by omega⟩
    have less : items.length < fuel := by
      simp only [List.length_append, List.length_cons] at enough
      omega
    rw [List.foldlM_cons] at steps
    obtain ⟨mid, step, steps⟩ := Option.bind_eq_some_iff.mp steps
    rw [List.append_assoc, List.cons_append, separated, (reads acc).complete ⟨x, first, step⟩ ⟨items ++ close :: rest, Or.inl rfl⟩]
    simp only [bind, Except.bind, if_true, ih steps less]

/-- After an opening bracket the reader is exact: no items, or items with commas between them. -/
theorem bracketed_reads (reads : ∀ acc, Reads (item acc) (Puts T put acc) (Ends close)) (other : close ≠ byte ',') (mark : isWs close = false)
    (opens : ∀ {x text}, T x text → ∃ c, (ws text).head? = some c ∧ c ≠ close) (acc : σ) :
    Reads (bracketed item close bad acc) (fun acc' text => ∃ xs, Bracketed T close xs text ∧ xs.foldlM put acc = some acc') fun _ => True where
  sound := by
    intro s acc' rest read
    rw [bracketed] at read
    split at read
    · rename_i head
      cases read
      obtain ⟨a, blank, split⟩ := ws_split s
      obtain ⟨t, opened⟩ := List.head?_eq_some_iff.mp head
      refine ⟨a ++ [close], ?_, [], Or.inl ⟨rfl, a, blank, rfl⟩, rfl⟩
      rw [opened, List.tail_cons, List.append_assoc]
      conv_lhs => rw [split, opened]
      rfl
    · obtain ⟨items, xs, split, texts, steps⟩ := separated_sound reads read
      exact ⟨items ++ [close], by rw [split, List.append_assoc]; rfl, xs, Or.inr ⟨items, texts, rfl⟩, steps⟩
  complete := by
    rintro acc' text rest ⟨xs, ⟨rfl, a, blank, rfl⟩ | ⟨items, texts, rfl⟩, steps⟩ -
    · cases steps
      have blanks : ws (a ++ [close] ++ rest) = close :: rest := by
        rw [List.append_assoc, ws_append blank]
        exact ws_cons mark rest
      rw [bracketed, blanks]
      exact if_pos rfl
    · have first : ∃ c, (ws (items ++ [close] ++ rest)).head? = some c ∧ c ≠ close := by
        cases texts with
        | one one =>
          obtain ⟨c, head, differs⟩ := opens one
          exact ⟨c, by rw [List.append_assoc]; exact ws_head head _, differs⟩
        | more one _ =>
          obtain ⟨c, head, differs⟩ := opens one
          exact ⟨c, by rw [List.append_assoc, List.append_assoc]; exact ws_head head _, differs⟩
      obtain ⟨c, head, differs⟩ := first
      rw [bracketed, head, if_neg (by simpa using differs), List.append_assoc]
      exact separated_complete reads other texts steps (by simp only [List.length_append, List.length_cons]; omega) rest

theorem foldlM_push (acc xs : List α) : xs.foldlM (fun acc x => some (acc ++ [x])) acc = some (acc ++ xs) := by
  induction xs generalizing acc with
  | nil => simp
  | cons x xs ih =>
    rw [List.foldlM_cons]
    simp [ih]

end ByteReader

end Dyx3.Lib
