import Mathlib.Data.List.DropRight
import Dyx3.Lib.ByteReader
import Dyx3.Lib.Checks

/-!
The provenance files of a run (dyx3_recorder/fcu_provenance): a string member of a JSON object is replaced or appended in the
text, at the offsets that a scanner finds. `json_escape` is the one of run_manifest.
-/

namespace Dyx3.Recorder

open Lib Lib.ByteReader

def isXdigit (c : UInt8) : Bool := isDigit c || (byte 'a' ≤ c && c ≤ byte 'f') || (byte 'A' ≤ c && c ≤ byte 'F')

/-- `std::isspace` in the C locale. -/
def isCSpace (c : UInt8) : Bool := c = byte ' ' || (9 ≤ c && c ≤ 13)

/-- The text of `s` in front of its suffix `t`. -/
def upTo (s t : ByteString) : ByteString := s.take (s.length - t.length)

theorem upTo_append (s t : ByteString) : upTo (s ++ t) t = s := by
  rw [upTo, List.length_append, Nat.add_sub_cancel, List.take_left]

/-! ### `json_escape` -/

/-- `\u` and the `%04x` of a byte. -/
def unitEscape (c : UInt8) : ByteString :=
  ascii "\\u00" ++ [byte (Nat.digitChar (c.toNat / 16)), byte (Nat.digitChar (c.toNat % 16))]

def escapeByte (c : UInt8) : ByteString :=
  if c = byte '"' then ascii "\\\""
  else if c = byte '\\' then ascii "\\\\"
  else if c = byte '\n' then ascii "\\n"
  else if c = byte '\r' then ascii "\\r"
  else if c = byte '\t' then ascii "\\t"
  else if c < 0x20 then unitEscape c
  else [c]

def jsonEscape (s : ByteString) : ByteString := s.flatMap escapeByte

/-! ### The scanner -/

namespace Scanner

/-- What one of the scanner's methods leaves of the text. -/
abbrev Scan := Except Unit (Unit × ByteString)

def isShortEscape (c : UInt8) : Bool := (ascii "\"\\/bfnrt").contains c

/-- What follows a backslash. -/
def escape : ByteString → Scan
  | [] => .error ()
  | e :: u =>
    if e = byte 'u' then
      if u.length < 4 then .error ()
      else if (u.take 4).all isXdigit then .ok ((), u.drop 4)
      else .error ()
    else if isShortEscape e then .ok ((), u)
    else .error ()

/-- One round of the loop of `string`. -/
def unit : ByteString → Scan
  | [] => .error ()
  | c :: t => if c < 0x20 then .error () else if c = byte '\\' then escape t else .ok ((), t)

def string (s : ByteString) : Scan :=
  match s with
  | [] => .error ()
  | c :: t => if c = byte '"' then (quoted unit (fun _ => ()) t.length t).map fun r => ((), r.2) else .error ()

def literal (w : String) (s : ByteString) : Scan :=
  if s.take (ascii w).length = ascii w then .ok ((), s.drop (ascii w).length) else .error ()

def isNumberByte (c : UInt8) : Bool :=
  isDigit c || c = byte '.' || c = byte 'e' || c = byte 'E' || c = byte '+' || c = byte '-'

def number (s : ByteString) : Scan :=
  let t := if s.head? = some (byte '-') then s.tail else s
  let rest := t.dropWhile isNumberByte
  if (upTo s rest).getLast?.any isDigit then .ok ((), rest) else .error ()

def colon (s : ByteString) : Scan :=
  match ws s with
  | [] => .error ()
  | c :: t => if c = byte ':' then .ok ((), ws t) else .error ()

/-- An element of an array. -/
def element (value : ByteString → Scan) (_ : Unit) (s : ByteString) : Scan := do
  let (_, s) ← value (ws s)
  return ((), ws s)

/-- A member of an object inside of another value. -/
def entry (value : ByteString → Scan) (_ : Unit) (s : ByteString) : Scan := do
  let (_, s) ← string (ws s)
  let (_, s) ← colon s
  let (_, s) ← value s
  return ((), ws s)

/-- What is not a container. -/
def scalar (s : ByteString) : Scan :=
  match s with
  | [] => .error ()
  | c :: _ =>
    if c = byte '"' then string s
    else if c = byte 't' then literal "true" s
    else if c = byte 'f' then literal "false" s
    else if c = byte 'n' then literal "null" s
    else number s

/-- The value at the front; a container nests at most so many levels deep. -/
def value : ℕ → ByteString → Scan
  | 0, s => if s.head? = some (byte '\x7b') ∨ s.head? = some (byte '[') then .error () else scalar s
  | levels + 1, s =>
    if s.head? = some (byte '\x7b') then bracketed (entry (value levels)) (byte '\x7d') (fun _ => ()) () s.tail
    else if s.head? = some (byte '[') then bracketed (element (value levels)) (byte ']') (fun _ => ()) () s.tail
    else scalar s

def maxDepth : ℕ := 64

end Scanner

/-! ### `json_string` -/

/-- The character of a short escape. -/
def shortEscape (e : UInt8) : Option UInt8 :=
  if e = byte '"' ∨ e = byte '\\' ∨ e = byte '/' then some e
  else if e = byte 'b' then some 8
  else if e = byte 'f' then some 12
  else if e = byte 'n' then some 10
  else if e = byte 'r' then some 13
  else if e = byte 't' then some 9
  else none

def hexDigit (c : UInt8) : ℕ :=
  if isDigit c then (c - byte '0').toNat else if byte 'a' ≤ c then (c - byte 'a').toNat + 10 else (c - byte 'A').toNat + 10

def hexValue (ds : ByteString) : ℕ := ds.foldl (fun v c => v * 16 + hexDigit c) 0

/-- The loop of `json_string`, on what is left of `raw` with its closing quote. -/
def unescape : ByteString → Option ByteString
  | [] => some []
  | [_] => some []
  | c :: e :: t =>
    if c ≠ byte '\\' then
      if c = byte '"' ∨ c < 0x20 then none else (unescape (e :: t)).map (c :: ·)
    else if t = [] then none
    else if e = byte 'u' then
      if t.length < 4 then none
      else if !(t.take 4).all isXdigit then none
      else if 0x80 ≤ hexValue (t.take 4) then none
      else (unescape (t.drop 4)).map (UInt8.ofNat (hexValue (t.take 4)) :: ·)
    else
      match shortEscape e with
      | none => none
      | some d => (unescape t).map (d :: ·)
termination_by s => s.length
decreasing_by
  · exact Nat.lt_succ_self _
  · simp only [List.length_drop, List.length_cons]
    omega
  · simp only [List.length_cons]
    omega

def jsonString (raw : ByteString) : Option ByteString :=
  if raw.length < 2 ∨ raw.head? ≠ some (byte '"') ∨ raw.getLast? ≠ some (byte '"') then none else unescape raw.tail

/-! ### The edit -/

/-- A member of the top-level object, with all of its text. -/
structure Member where
  before : ByteString
  name : ByteString
  between : ByteString
  raw : ByteString
  after : ByteString
  deriving DecidableEq

namespace Member

/-- The text up to the value. -/
def front (m : Member) : ByteString := m.before ++ m.name ++ m.between

def text (m : Member) : ByteString := m.front ++ m.raw ++ m.after

def key (m : Member) : Option ByteString := jsonString m.name

end Member

/-- The scan of one member. -/
def member (s : ByteString) : Except Unit (Member × ByteString) := do
  let nameBegin := ws s
  let (_, nameEnd) ← Scanner.string nameBegin
  if jsonString (upTo nameBegin nameEnd) = none then throw ()
  let (_, valueBegin) ← Scanner.colon nameEnd
  let (_, valueEnd) ← Scanner.value Scanner.maxDepth valueBegin
  let rest := ws valueEnd
  return (⟨upTo s nameBegin, upTo nameBegin nameEnd, upTo nameEnd valueBegin, upTo valueBegin valueEnd, upTo valueEnd rest⟩, rest)

structure Span where
  valueBegin : ℕ
  valueEnd : ℕ
  deriving DecidableEq

/-- The loop of `scan_object`: the offset of the next member, and the value of the key. -/
structure Cursor where
  i : ℕ
  found : Option Span := none
  deriving DecidableEq

/-- The offset moves past the comma or the brace after the member. -/
def Cursor.step (key : ByteString) (cur : Cursor) (m : Member) : Cursor where
  i := cur.i + m.text.length + 1
  found :=
    if m.key = some key ∧ cur.found = none then some ⟨cur.i + m.front.length, cur.i + (m.front ++ m.raw).length⟩ else cur.found

def scanMember (key : ByteString) (cur : Cursor) (s : ByteString) : Except Unit (Cursor × ByteString) := do
  let (m, rest) ← member s
  return (cur.step key m, rest)

/-- What `scan_object` finds. -/
structure Scanned where
  found : Option Span
  closePos : ℕ
  empty : Bool
  deriving DecidableEq

def scanObject (json key : ByteString) : Option Scanned :=
  let s := ws json
  if s.head? ≠ some (byte '\x7b') then none
  else
    match bracketed (scanMember key) (byte '\x7d') (fun _ => ()) ⟨json.length - s.tail.length, none⟩ s.tail with
    | .error _ => none
    | .ok (cur, rest) =>
      if ws rest ≠ [] then none
      else some ⟨cur.found, json.length - rest.length - 1, (ws s.tail).head? = some (byte '\x7d')⟩

def slice (s : ByteString) (first last : ℕ) : ByteString := (s.take last).drop first

def jsonMember (json key : ByteString) : Option ByteString := do
  let scanned ← scanObject json key
  let span ← scanned.found
  return slice json span.valueBegin span.valueEnd

def quote (s : ByteString) : ByteString := byte '"' :: jsonEscape s ++ [byte '"']

def edited (json key value : ByteString) : Option ByteString := do
  let scanned ← scanObject json key
  match scanned.found with
  | some span => return json.take span.valueBegin ++ quote value ++ json.drop span.valueEnd
  | none =>
    let head := (json.take scanned.closePos).rdropWhile isCSpace
    return head ++ (if scanned.empty then [] else ascii ",") ++ ascii "\n  " ++ quote key ++ ascii ": " ++ quote value ++ ascii "\n" ++
      json.drop scanned.closePos

/-- `json_set_string`: whether it succeeds, and the output. -/
def jsonSetString (json key value out : ByteString) : Bool × ByteString :=
  match edited json key value with
  | none => (false, out)
  | some text => (true, text)

/-! ### The members of a text -/

def collect (ms : List Member) (s : ByteString) : Except Unit (List Member × ByteString) := do
  let (m, rest) ← member s
  return (ms ++ [m], rest)

/-- The members of the top-level object in order. -/
def topMembers (json : ByteString) : Option (List Member) :=
  let s := ws json
  if s.head? ≠ some (byte '\x7b') then none
  else
    match bracketed collect (byte '\x7d') (fun _ => ()) [] s.tail with
    | .error _ => none
    | .ok (ms, rest) => if ws rest ≠ [] then none else some ms

/-! ### The grammar of the scanner -/

namespace Scanner

inductive UnitText : ByteString → Prop
  | plain {c : UInt8} (printable : ¬c < 0x20) (slash : c ≠ byte '\\') (quote : c ≠ byte '"') : UnitText [c]
  | short {e : UInt8} (escape : isShortEscape e = true) : UnitText [byte '\\', e]
  | code {ds : ByteString} (four : ds.length = 4) (hex : ds.all isXdigit = true) : UnitText (byte '\\' :: byte 'u' :: ds)

def StringText (text : ByteString) : Prop :=
  ∃ units t, Quoted (fun _ : Unit => UnitText) units t ∧ text = byte '"' :: t

def NumberText (text : ByteString) : Prop :=
  (∀ c ∈ text, isNumberByte c = true) ∧ text.getLast?.any isDigit = true

def ScalarText (text : ByteString) : Prop :=
  StringText text ∨ text = ascii "true" ∨ text = ascii "false" ∨ text = ascii "null" ∨ NumberText text

def ElementText (V : ByteString → Prop) (text : ByteString) : Prop := ∃ core, V core ∧ Spaced core text

def EntryText (V : ByteString → Prop) (text : ByteString) : Prop :=
  ∃ name core front back, StringText name ∧ V core ∧ Spaced name front ∧ Spaced core back ∧ text = front ++ byte ':' :: back

/-- Values with containers up to so many levels deep. -/
def ValueText : ℕ → ByteString → Prop
  | 0, text => ScalarText text
  | levels + 1, text =>
    ScalarText text ∨
      (∃ t units, Bracketed (fun _ : Unit => EntryText (ValueText levels)) (byte '\x7d') units t ∧ text = byte '\x7b' :: t) ∨
      ∃ t units, Bracketed (fun _ : Unit => ElementText (ValueText levels)) (byte ']') units t ∧ text = byte '[' :: t

/-- The rest does not go on with a number. -/
def NumberStops (rest : ByteString) : Prop := ∀ c ∈ rest.head?, isNumberByte c = false

/-! ### The scanner is exact -/

theorem unit_reads : ReadsUnits unit fun _ => UnitText where
  sound := by
    intro c t _ rest other read
    rw [unit] at read
    split at read
    · cases read
    rename_i printable
    split at read
    · rename_i slash
      subst slash
      cases t with
      | nil => cases read
      | cons e u =>
        rw [escape] at read
        split at read
        · rename_i letter
          subst letter
          split at read
          · cases read
          rename_i long
          split at read
          · rename_i hex
            cases read
            refine ⟨byte '\\' :: byte 'u' :: u.take 4, ?_, .code ?_ hex⟩
            · rw [List.cons_append, List.cons_append, List.take_append_drop]
            · rw [List.length_take]
              omega
          · cases read
        · split at read
          · rename_i short
            cases read
            exact ⟨[byte '\\', e], rfl, .short short⟩
          · cases read
    · rename_i slash
      cases read
      exact ⟨[c], rfl, .plain printable slash other⟩
  complete := by
    rintro _ text rest (@⟨c, printable, slash, quote⟩ | @⟨e, escape⟩ | @⟨ds, four, hex⟩)
    · exact (if_neg printable).trans (if_neg slash)
    · have other : e ≠ byte 'u' := by
        rintro rfl
        exact absurd escape (by decide)
      rw [List.cons_append, unit, if_neg (by decide), if_pos rfl]
      exact (if_neg other).trans (if_pos escape)
    · have taken : (ds ++ rest).take 4 = ds := by rw [← four, List.take_left]
      have dropped : (ds ++ rest).drop 4 = rest := by rw [← four, List.drop_left]
      have long : ¬(ds ++ rest).length < 4 := by
        rw [List.length_append]
        omega
      rw [List.cons_append, List.cons_append, unit, if_neg (by decide), if_pos rfl, Scanner.escape, if_pos rfl, if_neg long, taken, if_pos hex,
        dropped]
  inside := by
    rintro _ text (@⟨c, printable, slash, quote⟩ | @⟨e, escape⟩ | @⟨ds, four, hex⟩)
    · exact ⟨c, [], rfl, quote⟩
    · exact ⟨_, _, rfl, by decide⟩
    · exact ⟨_, _, rfl, by decide⟩

theorem string_reads : Reads string (fun _ => StringText) fun _ => True where
  sound := by
    intro s _ rest read
    cases s with
    | nil => cases read
    | cons c t =>
      rw [string] at read
      split at read
      · rename_i quote
        subst quote
        cases taken : quoted unit (fun _ => ()) t.length t with
        | error e =>
          rw [taken] at read
          cases read
        | ok found =>
          rw [taken] at read
          cases read
          obtain ⟨text, rfl, units⟩ := quoted_sound unit_reads (show quoted unit _ _ t = .ok (found.1, found.2) from taken)
          exact ⟨byte '"' :: text, rfl, _, _, units, rfl⟩
      · cases read
  complete := by
    rintro _ text rest ⟨units, t, inner, rfl⟩ -
    have taken : quoted unit (fun _ => ()) (t ++ rest).length (t ++ rest) = .ok (units, rest) :=
      quoted_complete unit_reads inner (by simp) rest
    rw [List.cons_append, string, if_pos rfl, taken]
    rfl

theorem literal_reads (w : String) : Reads (literal w) (fun _ text => text = ascii w) fun _ => True where
  sound := by
    intro s _ rest read
    rw [literal] at read
    split at read
    · rename_i front
      cases read
      exact ⟨ascii w, by conv_lhs => rw [← List.take_append_drop (ascii w).length s, front], rfl⟩
    · cases read
  complete := by
    rintro _ text rest rfl -
    rw [literal, List.take_left, if_pos rfl, List.drop_left]

theorem number_rest (s : ByteString) :
    (if s.head? = some (byte '-') then s.tail else s).dropWhile isNumberByte = s.dropWhile isNumberByte := by
  split
  · rename_i minus
    obtain ⟨t, rfl⟩ := List.head?_eq_some_iff.mp minus
    exact (List.dropWhile_cons_of_pos (by decide)).symm
  · rfl

theorem number_reads : Reads number (fun _ => NumberText) NumberStops where
  sound := by
    intro s _ rest read
    have split : s.takeWhile isNumberByte ++ s.dropWhile isNumberByte = s := List.takeWhile_append_dropWhile
    have taken := upTo_append (s.takeWhile isNumberByte) (s.dropWhile isNumberByte)
    rw [split] at taken
    simp only [number, number_rest, taken] at read
    split at read
    · rename_i last
      cases read
      exact ⟨_, split.symm, fun c member => List.mem_takeWhile_imp member, last⟩
    · cases read
  complete := by
    rintro _ text rest ⟨all, last⟩ stops
    have dropped : (text ++ rest).dropWhile isNumberByte = rest := by
      rw [List.dropWhile_append_of_pos all]
      cases rest with
      | nil => rfl
      | cons c t => exact List.dropWhile_cons_of_neg (by simp [stops c rfl])
    simp only [number, number_rest, dropped, upTo_append]
    exact if_pos last

theorem isWs_cases {c : UInt8} (space : isWs c = true) : c = byte ' ' ∨ c = byte '\n' ∨ c = byte '\t' ∨ c = byte '\r' := by
  simp only [isWs, Bool.or_eq_true, decide_eq_true_eq] at space
  tauto

/-- A value opens with this byte. -/
def Opens (c : UInt8) : Prop := c ∈ ascii "\"tfn\x7b[" ∨ isNumberByte c = true

theorem Opens.apart {c d : UInt8} (opens : Opens c) (other : d ∉ ascii "\"tfn\x7b[") (mark : isNumberByte d = false) : c ≠ d := by
  rintro rfl
  obtain member | number := opens
  · exact other member
  · rw [mark] at number
    cases number

theorem Opens.mark {c : UInt8} (opens : Opens c) : isWs c = false := by
  rw [Bool.eq_false_iff]
  intro space
  obtain rfl | rfl | rfl | rfl := isWs_cases space <;> exact absurd rfl (opens.apart (by decide) (by decide))

theorem NumberText.head {text : ByteString} (number : NumberText text) : ∃ c t, text = c :: t ∧ isNumberByte c = true := by
  cases text with
  | nil => cases number.2
  | cons c t => exact ⟨c, t, rfl, number.1 c List.mem_cons_self⟩

theorem ScalarText.head {text : ByteString} (scalar : ScalarText text) :
    ∃ c t, text = c :: t ∧ Opens c ∧ c ≠ byte '\x7b' ∧ c ≠ byte '[' := by
  obtain ⟨_, t, -, rfl⟩ | rfl | rfl | rfl | number := scalar
  · exact ⟨_, _, rfl, Or.inl (by decide), by decide, by decide⟩
  · exact ⟨_, _, rfl, Or.inl (by decide), by decide, by decide⟩
  · exact ⟨_, _, rfl, Or.inl (by decide), by decide, by decide⟩
  · exact ⟨_, _, rfl, Or.inl (by decide), by decide, by decide⟩
  · obtain ⟨c, t, rfl, first⟩ := number.head
    refine ⟨c, t, rfl, Or.inr first, ?_, ?_⟩
    · rintro rfl
      exact absurd first (by decide)
    · rintro rfl
      exact absurd first (by decide)

theorem ValueText.head {levels : ℕ} {text : ByteString} (value : ValueText levels text) : ∃ c t, text = c :: t ∧ Opens c := by
  cases levels with
  | zero =>
    obtain ⟨c, t, rfl, opens, -⟩ := ScalarText.head value
    exact ⟨c, t, rfl, opens⟩
  | succ levels =>
    obtain scalar | ⟨t, _, -, rfl⟩ | ⟨t, _, -, rfl⟩ := value
    · obtain ⟨c, t, rfl, opens, -⟩ := scalar.head
      exact ⟨c, t, rfl, opens⟩
    · exact ⟨_, t, rfl, Or.inl (by decide)⟩
    · exact ⟨_, t, rfl, Or.inl (by decide)⟩

theorem scalar_reads : Reads scalar (fun _ => ScalarText) NumberStops where
  sound := by
    intro s _ rest read
    cases s with
    | nil => cases read
    | cons c t =>
      rw [scalar] at read
      split at read
      · obtain ⟨text, split, string⟩ := string_reads.sound read
        exact ⟨text, split, Or.inl string⟩
      · split at read
        · obtain ⟨text, split, word⟩ := (literal_reads "true").sound read
          exact ⟨text, split, Or.inr (Or.inl word)⟩
        · split at read
          · obtain ⟨text, split, word⟩ := (literal_reads "false").sound read
            exact ⟨text, split, Or.inr (Or.inr (Or.inl word))⟩
          · split at read
            · obtain ⟨text, split, word⟩ := (literal_reads "null").sound read
              exact ⟨text, split, Or.inr (Or.inr (Or.inr (Or.inl word)))⟩
            · obtain ⟨text, split, number⟩ := number_reads.sound read
              exact ⟨text, split, Or.inr (Or.inr (Or.inr (Or.inr number)))⟩
  complete := by
    rintro _ text rest (string | rfl | rfl | rfl | number) stops
    · have taken : Scanner.string (text ++ rest) = .ok ((), rest) := string_reads.complete string trivial
      obtain ⟨_, t, -, rfl⟩ := string
      rw [List.cons_append, scalar, if_pos rfl]
      exact taken
    · exact (literal_reads "true").complete rfl trivial
    · exact (literal_reads "false").complete rfl trivial
    · exact (literal_reads "null").complete rfl trivial
    · have taken := number_reads.complete (v := ()) number stops
      obtain ⟨c, t, rfl, first⟩ := number.head
      have other : ∀ d, isNumberByte d = false → c ≠ d := by
        rintro d mark rfl
        rw [first] at mark
        cases mark
      rw [List.cons_append, scalar, if_neg (other _ (by decide)), if_neg (other _ (by decide)), if_neg (other _ (by decide)),
        if_neg (other _ (by decide))]
      exact taken

/-- The next byte is not whitespace. -/
def Marked (rest : ByteString) : Prop := ∀ c ∈ rest.head?, isWs c = false

theorem Marked.ws {rest b : ByteString} (marked : Marked rest) (blank : Blank b) : ByteReader.ws (b ++ rest) = rest := by
  rw [ws_append blank]
  cases rest with
  | nil => rfl
  | cons c t => exact ws_cons (marked c rfl) t

def ColonText (text : ByteString) : Prop := ∃ a b, Blank a ∧ Blank b ∧ text = a ++ byte ':' :: b

theorem colon_reads : Reads colon (fun _ => ColonText) Marked where
  sound := by
    intro s _ rest read
    obtain ⟨a, blank, split⟩ := ws_split s
    rw [colon] at read
    cases opened : ws s with
    | nil =>
      rw [opened] at read
      cases read
    | cons c t =>
      rw [opened] at read split
      dsimp only at read
      split at read
      · rename_i mark
        cases read
        obtain ⟨b, space, rest⟩ := ws_split t
        refine ⟨a ++ byte ':' :: b, ?_, a, b, blank, space, rfl⟩
        rw [split, mark, List.append_assoc, List.cons_append, ← rest]
      · cases read
  complete := by
    rintro _ text rest ⟨a, b, blank, space, rfl⟩ marked
    have opened : ws (a ++ byte ':' :: b ++ rest) = byte ':' :: (b ++ rest) := by
      rw [List.append_assoc, ws_append blank]
      exact ws_cons (by decide) _
    rw [colon, opened]
    dsimp only
    rw [if_pos rfl, marked.ws space]

theorem numberStops_ends {close : UInt8} {rest b : ByteString} (ends : Ends close rest) (blank : Blank b) (mark : isNumberByte close = false) :
    NumberStops (b ++ rest) := by
  intro c next
  obtain space | rfl | rfl := ends.next blank next
  · obtain rfl | rfl | rfl | rfl := isWs_cases space <;> decide
  · decide
  · exact mark

theorem Opens.marked {c : UInt8} (opens : Opens c) (t : ByteString) : Marked (c :: t) := by
  rintro _ ⟨⟩
  exact opens.mark

/-- A step that keeps nothing. -/
def skip (_ _ : Unit) : Option Unit := some ()

section

variable {scan : ByteString → Scan} {V : ByteString → Prop} (reads : Reads scan (fun _ => V) NumberStops)
  (opens : ∀ {text}, V text → ∃ c t, text = c :: t ∧ Opens c)

include reads opens

theorem element_reads (acc : Unit) : Reads (element scan acc) (Puts (fun _ => ElementText V) skip acc) (Ends (byte ']')) where
  sound := by
    intro s _ rest read
    obtain ⟨a, blank, split⟩ := ws_split s
    obtain ⟨⟨_, t⟩, taken, last⟩ := bind_ok read
    cases last
    obtain ⟨core, front, value⟩ := reads.sound taken
    obtain ⟨b, space, rest⟩ := ws_split t
    refine ⟨a ++ core ++ b, ?_, (), ⟨core, value, a, b, blank, space, rfl⟩, rfl⟩
    rw [split, front, List.append_assoc, List.append_assoc, ← rest]
  complete := by
    rintro _ text rest ⟨_, ⟨core, value, a, b, blank, space, rfl⟩, -⟩ ends
    obtain ⟨c, t, rfl, first⟩ := opens value
    have marked : ws (a ++ c :: t ++ b ++ rest) = c :: t ++ (b ++ rest) := by
      rw [List.append_assoc, List.append_assoc, ws_append blank]
      exact ws_cons first.mark _
    have taken : scan (c :: t ++ (b ++ rest)) = .ok ((), b ++ rest) := reads.complete value (numberStops_ends ends space (by decide))
    rw [element, marked, taken]
    simp only [bind, Except.bind, ends.ws (by decide) space]
    rfl

theorem entry_reads (acc : Unit) : Reads (entry scan acc) (Puts (fun _ => EntryText V) skip acc) (Ends (byte '\x7d')) where
  sound := by
    intro s _ rest read
    obtain ⟨a, blank, split⟩ := ws_split s
    obtain ⟨⟨_, t⟩, named, more⟩ := bind_ok read
    obtain ⟨⟨_, u⟩, colon, more⟩ := bind_ok more
    obtain ⟨⟨_, v⟩, taken, last⟩ := bind_ok more
    cases last
    obtain ⟨name, front, string⟩ := string_reads.sound named
    obtain ⟨_, middle, p, q, before, after, rfl⟩ := colon_reads.sound colon
    obtain ⟨core, back, value⟩ := reads.sound taken
    obtain ⟨b, space, rest⟩ := ws_split v
    refine ⟨a ++ name ++ p ++ byte ':' :: (q ++ core ++ b), ?_, (), ?_, rfl⟩
    · rw [split, front, middle, back]
      conv_lhs => rw [rest]
      simp only [List.append_assoc, List.cons_append]
    · exact ⟨name, core, _, _, string, value, ⟨a, p, blank, before, rfl⟩, ⟨q, b, after, space, rfl⟩, rfl⟩
  complete := by
    rintro _ text rest ⟨_, ⟨name, core, _, _, string, value, ⟨a, p, blank, before, rfl⟩, ⟨q, b, after, space, rfl⟩, rfl⟩, -⟩ ends
    obtain ⟨c, t, rfl, first⟩ := opens value
    have named : Scanner.string (name ++ (p ++ byte ':' :: (q ++ c :: t ++ b) ++ rest)) = .ok ((), p ++ byte ':' :: (q ++ c :: t ++ b) ++ rest) :=
      string_reads.complete string trivial
    have colon : Scanner.colon (p ++ byte ':' :: q ++ (c :: t ++ (b ++ rest))) = .ok ((), c :: t ++ (b ++ rest)) :=
      colon_reads.complete ⟨p, q, before, after, rfl⟩ (first.marked _)
    have taken : scan (c :: t ++ (b ++ rest)) = .ok ((), b ++ rest) := reads.complete value (numberStops_ends ends space (by decide))
    have marked : ws (a ++ name ++ p ++ byte ':' :: (q ++ c :: t ++ b) ++ rest) = name ++ (p ++ byte ':' :: (q ++ c :: t ++ b) ++ rest) := by
      obtain ⟨_, u, -, rfl⟩ := string
      simp only [List.append_assoc]
      rw [ws_append blank]
      exact ws_cons (by decide) _
    have same : p ++ byte ':' :: (q ++ c :: t ++ b) ++ rest = p ++ byte ':' :: q ++ (c :: t ++ (b ++ rest)) := by
      simp only [List.append_assoc, List.cons_append]
    rw [entry, marked, named, same]
    simp only [bind, Except.bind, colon, taken, ends.ws (by decide) space]
    rfl

end

/-- After a string or an opening value comes a byte that is not whitespace. -/
theorem spaced_head {a text : ByteString} (blank : Blank a) {c : UInt8} {t : ByteString} (first : text = c :: t) (mark : isWs c = false)
    (rest : ByteString) : (ws (a ++ text ++ rest)).head? = some c := by
  rw [List.append_assoc, ws_append blank, first, List.cons_append, ws_cons mark]
  rfl

theorem value_reads (levels : ℕ) : Reads (value levels) (fun _ => ValueText levels) NumberStops := by
  induction levels with
  | zero =>
    constructor
    · intro s _ rest read
      rw [value] at read
      split at read
      · cases read
      · exact scalar_reads.sound read
    · intro _ text rest scalar stops
      have taken := scalar_reads.complete (v := ()) scalar stops
      obtain ⟨c, t, rfl, -, brace, bracket⟩ := ScalarText.head scalar
      rw [value, if_neg (by simp [brace, bracket])]
      exact taken
  | succ levels ih =>
    have object : Reads (bracketed (entry (value levels)) (byte '\x7d') (fun _ => ()) ()) _ _ :=
      bracketed_reads (entry_reads ih ValueText.head) (by decide) (by decide)
        (by
          rintro _ text ⟨name, core, _, _, ⟨_, u, -, rfl⟩, -, ⟨a, p, blank, -, rfl⟩, -, rfl⟩
          refine ⟨byte '"', ?_, by decide⟩
          rw [List.append_assoc]
          exact spaced_head blank rfl (by decide) _) ()
    have array : Reads (bracketed (element (value levels)) (byte ']') (fun _ => ()) ()) _ _ :=
      bracketed_reads (element_reads ih ValueText.head) (by decide) (by decide)
        (by
          rintro _ text ⟨core, value, a, b, blank, -, rfl⟩
          obtain ⟨c, t, rfl, opens⟩ := value.head
          exact ⟨c, spaced_head blank rfl opens.mark b, opens.apart (by decide) (by decide)⟩) ()
    constructor
    · intro s _ rest read
      rw [value] at read
      split at read
      · rename_i brace
        obtain ⟨t, rfl⟩ := List.head?_eq_some_iff.mp brace
        obtain ⟨text, split, units, inner, -⟩ := object.sound read
        exact ⟨byte '\x7b' :: text, by rw [List.tail_cons] at split; rw [split]; rfl, Or.inr (Or.inl ⟨text, units, inner, rfl⟩)⟩
      · split at read
        · rename_i bracket
          obtain ⟨t, rfl⟩ := List.head?_eq_some_iff.mp bracket
          obtain ⟨text, split, units, inner, -⟩ := array.sound read
          exact ⟨byte '[' :: text, by rw [List.tail_cons] at split; rw [split]; rfl, Or.inr (Or.inr ⟨text, units, inner, rfl⟩)⟩
        · obtain ⟨text, split, scalar⟩ := scalar_reads.sound read
          exact ⟨text, split, Or.inl scalar⟩
    · have steps : ∀ units : List Unit, units.foldlM skip () = some () := by
        intro units
        induction units with
        | nil => rfl
        | cons _ units ih => exact ih
      rintro _ text rest (scalar | ⟨t, units, inner, rfl⟩ | ⟨t, units, inner, rfl⟩) stops
      · have taken := scalar_reads.complete (v := ()) scalar stops
        obtain ⟨c, t, rfl, -, brace, bracket⟩ := scalar.head
        rw [value, if_neg (by simpa using brace), if_neg (by simpa using bracket)]
        exact taken
      · rw [List.cons_append, value, List.head?_cons, if_pos rfl]
        exact object.complete ⟨units, inner, steps units⟩ trivial
      · rw [List.cons_append, value, List.head?_cons, if_neg (by decide), if_pos rfl]
        exact array.complete ⟨units, inner, steps units⟩ trivial

end Scanner

open Scanner

/-! ### Escaped strings -/

/-- How a byte is escaped. -/
inductive Escaped (c : UInt8) : ByteString → Prop
  | plain (printable : ¬c < 0x20) (slash : c ≠ byte '\\') (quote : c ≠ byte '"') : Escaped c [c]
  | short {e : UInt8} (short : isShortEscape e = true) (back : shortEscape e = some c) : Escaped c [byte '\\', e]
  | code {ds : ByteString} (four : ds.length = 4) (hex : ds.all isXdigit = true) (value : hexValue ds = c.toNat) (ascii : c.toNat < 0x80) :
      Escaped c (byte '\\' :: byte 'u' :: ds)

theorem unitEscape_code : ∀ n < 32, ([byte '0', byte '0', byte (Nat.digitChar (n / 16)), byte (Nat.digitChar (n % 16))].all isXdigit = true) ∧
    hexValue [byte '0', byte '0', byte (Nat.digitChar (n / 16)), byte (Nat.digitChar (n % 16))] = n := by decide

theorem escapeByte_escaped (c : UInt8) : Escaped c (escapeByte c) := by
  unfold escapeByte
  split_ifs with quote slash newline back tab control
  · exact quote ▸ .short (by decide) (by decide)
  · exact slash ▸ .short (by decide) (by decide)
  · exact newline ▸ .short (by decide) (by decide)
  · exact back ▸ .short (by decide) (by decide)
  · exact tab ▸ .short (by decide) (by decide)
  · have small : c.toNat < 32 := UInt8.lt_iff_toNat_lt.mp control
    obtain ⟨hex, value⟩ := unitEscape_code c.toNat small
    exact .code rfl hex value (by omega)
  · exact .plain control slash quote

theorem unescape_escaped {c : UInt8} {text t v : ByteString} (escaped : Escaped c text) (ne : t ≠ []) (rest : unescape t = some v) :
    unescape (text ++ t) = some (c :: v) := by
  obtain ⟨e, u, rfl⟩ := List.exists_cons_of_ne_nil ne
  cases escaped with
  | plain printable slash quote =>
    rw [List.singleton_append, unescape, if_pos slash, if_neg (by simp [printable, quote]), rest]
    rfl
  | @short x short back =>
    have other : x ≠ byte 'u' := by
      rintro rfl
      exact absurd short (by decide)
    rw [List.cons_append, List.singleton_append, unescape, if_neg (by simp), if_neg ne, if_neg other, back]
    dsimp only
    rw [rest]
    rfl
  | @code ds four hex value ascii =>
    have taken : (ds ++ e :: u).take 4 = ds := by rw [← four, List.take_left]
    have dropped : (ds ++ e :: u).drop 4 = e :: u := by rw [← four, List.drop_left]
    have long : ¬(ds ++ e :: u).length < 4 := by
      rw [List.length_append]
      omega
    rw [List.cons_append, List.cons_append, unescape, if_neg (by simp), if_neg (by simp), if_pos rfl, if_neg long, taken, if_neg (by simp [hex]),
      value, if_neg (by omega), dropped, rest, UInt8.ofNat_toNat]
    rfl

theorem unescape_jsonEscape (v : ByteString) : unescape (jsonEscape v ++ [byte '"']) = some v := by
  induction v with
  | nil => simp [jsonEscape, unescape]
  | cons c v ih =>
    rw [jsonEscape, List.flatMap_cons, List.append_assoc]
    exact unescape_escaped (escapeByte_escaped c) (List.append_ne_nil_of_right_ne_nil _ (List.cons_ne_nil _ _)) ih

theorem jsonString_quote (v : ByteString) : jsonString (quote v) = some v := by
  have last : (quote v).getLast? = some (byte '"') := List.getLast?_concat
  rw [jsonString, if_neg (by rw [last]; simp [quote])]
  exact unescape_jsonEscape v

theorem Escaped.unitText {c : UInt8} {text : ByteString} (escaped : Escaped c text) : UnitText text := by
  cases escaped with
  | plain printable slash quote => exact .plain printable slash quote
  | short short => exact .short short
  | code four hex => exact .code four hex

theorem quote_text (v : ByteString) : StringText (quote v) := by
  refine ⟨v.map fun _ => (), jsonEscape v ++ [byte '"'], ⟨v.map escapeByte, ?_, ?_⟩, rfl⟩
  · rw [List.forall₂_map_left_iff, List.forall₂_map_right_iff, List.forall₂_same]
    exact fun c _ => (escapeByte_escaped c).unitText
  · rw [jsonEscape, List.flatMap_def]

/-! ### The members -/

/-- The parts of a member are what the scanner takes for them. -/
structure Member.Ok (m : Member) : Prop where
  before : Blank m.before
  name : StringText m.name
  key : m.key ≠ none
  between : ColonText m.between
  raw : ValueText maxDepth m.raw
  after : Blank m.after

def MemberText (m : Member) (text : ByteString) : Prop := m.Ok ∧ text = m.text

theorem member_reads : Reads member MemberText (Ends (byte '\x7d')) where
  sound := by
    intro s m rest read
    obtain ⟨a, blank, split⟩ := ws_split s
    obtain ⟨⟨_, t⟩, named, more⟩ := bind_ok read
    dsimp only at more
    split at more
    · cases more
    rename_i key
    obtain ⟨⟨_, u⟩, colon, more⟩ := bind_ok more
    obtain ⟨⟨_, v⟩, taken, last⟩ := bind_ok more
    cases last
    obtain ⟨name, front, string⟩ := string_reads.sound named
    obtain ⟨between, rfl, mark⟩ := colon_reads.sound colon
    obtain ⟨raw, rfl, value⟩ := (value_reads maxDepth).sound taken
    obtain ⟨b, space, rest⟩ := ws_split v
    have before : upTo s (ws s) = a := by
      conv_lhs => rw [split]
      rw [ws_append blank, ws_ws]
      exact upTo_append _ _
    have after : upTo v (ws v) = b := by
      conv_lhs => rw [rest]
      rw [ws_append space, ws_ws]
      exact upTo_append _ _
    dsimp only at key ⊢
    rw [front, upTo_append] at key
    rw [before, after, front, upTo_append, upTo_append, upTo_append]
    refine ⟨_, ?_, ⟨blank, string, key, mark, value, space⟩, rfl⟩
    rw [split, front]
    conv_lhs => rw [rest]
    simp only [Member.text, Member.front, List.append_assoc]
  complete := by
    rintro ⟨a, name, between, raw, b⟩ text rest ⟨⟨blank, string, key, mark, value, space⟩, rfl⟩ ends
    dsimp only at blank string key mark value space
    obtain ⟨c, t, rfl, first⟩ := value.head
    have named : Scanner.string (name ++ (between ++ (c :: t ++ (b ++ rest)))) = .ok ((), between ++ (c :: t ++ (b ++ rest))) :=
      string_reads.complete string trivial
    have colon : Scanner.colon (between ++ (c :: t ++ (b ++ rest))) = .ok ((), c :: t ++ (b ++ rest)) :=
      colon_reads.complete mark (first.marked _)
    have taken : Scanner.value maxDepth (c :: t ++ (b ++ rest)) = .ok ((), b ++ rest) :=
      (value_reads maxDepth).complete value (numberStops_ends ends space (by decide))
    have same : (⟨a, name, between, c :: t, b⟩ : Member).text ++ rest = a ++ (name ++ (between ++ (c :: t ++ (b ++ rest)))) := by
      simp only [Member.text, Member.front, List.append_assoc]
    have marked : ws (a ++ (name ++ (between ++ (c :: t ++ (b ++ rest))))) = name ++ (between ++ (c :: t ++ (b ++ rest))) := by
      obtain ⟨_, u, -, rfl⟩ := string
      rw [ws_append blank]
      exact ws_cons (by decide) _
    have key : jsonString name ≠ none := key
    rw [same, member, marked, named]
    simp only [bind, Except.bind, upTo_append, if_neg key, colon, taken, ends.ws (by decide) space]
    rfl

/-! ### The object -/

/-- `json` is an object with these members. -/
structure Object (json : ByteString) (ms : List Member) (lead body trail : ByteString) : Prop where
  text : json = lead ++ byte '\x7b' :: body ++ trail
  lead : Blank lead
  body : Bracketed MemberText (byte '\x7d') ms body
  trail : Blank trail

theorem memberText_opens {m : Member} {text : ByteString} (written : MemberText m text) :
    ∃ c, (ws text).head? = some c ∧ c ≠ byte '\x7d' := by
  obtain ⟨⟨blank, ⟨_, u, -, name⟩, -, -, -, -⟩, rfl⟩ := written
  refine ⟨byte '"', ?_, by decide⟩
  rw [Member.text, Member.front, List.append_assoc, List.append_assoc]
  exact spaced_head blank name (by decide) _

theorem scanMember_reads (key : ByteString) (cur : Cursor) :
    Reads (scanMember key cur) (Puts MemberText (fun cur m => some (cur.step key m)) cur) (Ends (byte '\x7d')) where
  sound := by
    intro s cur' rest read
    obtain ⟨⟨m, t⟩, taken, last⟩ := bind_ok read
    cases last
    obtain ⟨text, split, written⟩ := member_reads.sound taken
    exact ⟨text, split, m, written, rfl⟩
  complete := by
    rintro cur' text rest ⟨m, written, put⟩ ends
    cases put
    rw [scanMember, member_reads.complete written ends]
    rfl

theorem collect_reads (ms : List Member) :
    Reads (collect ms) (Puts MemberText (fun ms m => some (ms ++ [m])) ms) (Ends (byte '\x7d')) where
  sound := by
    intro s cur' rest read
    obtain ⟨⟨m, t⟩, taken, last⟩ := bind_ok read
    cases last
    obtain ⟨text, split, written⟩ := member_reads.sound taken
    exact ⟨text, split, m, written, rfl⟩
  complete := by
    rintro cur' text rest ⟨m, written, put⟩ ends
    cases put
    rw [collect, member_reads.complete written ends]
    rfl

theorem blank_of_ws {b : ByteString} (nothing : ws b = []) : Blank b := by
  obtain ⟨a, blank, split⟩ := ws_split b
  rw [nothing, List.append_nil] at split
  exact split ▸ blank

theorem ws_blank {b : ByteString} (blank : Blank b) : ws b = [] := by
  have whole := ws_append blank []
  rwa [List.append_nil] at whole

/-- What follows the opening brace. -/
theorem opened {json : ByteString} (brace : (ws json).head? = some (byte '\x7b')) :
    ∃ lead, Blank lead ∧ json = lead ++ byte '\x7b' :: (ws json).tail := by
  obtain ⟨a, blank, split⟩ := ws_split json
  obtain ⟨t, front⟩ := List.head?_eq_some_iff.mp brace
  refine ⟨a, blank, ?_⟩
  rw [front, List.tail_cons]
  rwa [front] at split

theorem Object.opened {json : ByteString} {ms : List Member} {lead body trail : ByteString} (object : Object json ms lead body trail) :
    ws json = byte '\x7b' :: (body ++ trail) := by
  rw [object.text, List.append_assoc, ws_append object.lead]
  exact ws_cons (by decide) _

theorem topMembers_object {json : ByteString} {ms : List Member} :
    topMembers json = some ms ↔ ∃ lead body trail, Object json ms lead body trail := by
  have reads := @bracketed_reads Unit Member (List Member) (fun _ => ()) _ _ _ _ collect_reads (by decide) (by decide) memberText_opens []
  constructor
  · intro scanned
    unfold topMembers at scanned
    dsimp only at scanned
    split at scanned
    · cases scanned
    rename_i brace
    obtain ⟨lead, blank, split⟩ := opened (not_not.mp brace)
    split at scanned
    · cases scanned
    rename_i found rest read
    split at scanned
    · cases scanned
    rename_i trailing
    cases scanned
    obtain ⟨body, front, xs, bracketed, steps⟩ := reads.sound read
    rw [foldlM_push] at steps
    cases steps
    refine ⟨lead, body, rest, ?_, blank, bracketed, blank_of_ws (not_not.mp trailing)⟩
    rw [split, front, List.append_assoc, List.cons_append]
  · rintro ⟨lead, body, trail, object⟩
    have read : bracketed collect (byte '\x7d') (fun _ => ()) [] (body ++ trail) = .ok ([] ++ ms, trail) :=
      reads.complete ⟨ms, object.body, foldlM_push [] ms⟩ trivial
    unfold topMembers
    rw [object.opened]
    dsimp only
    rw [List.head?_cons, if_neg (not_not.mpr rfl), List.tail_cons, read]
    dsimp only
    rw [if_neg (not_not.mpr (ws_blank object.trail))]
    rfl

theorem foldlM_step (key : ByteString) (cur : Cursor) (ms : List Member) :
    ms.foldlM (fun cur m => some (Cursor.step key cur m)) cur = some (ms.foldl (Cursor.step key) cur) := by
  induction ms generalizing cur with
  | nil => rfl
  | cons m ms ih => exact ih _

theorem Object.scanned {json : ByteString} {ms : List Member} {lead body trail : ByteString} (object : Object json ms lead body trail)
    (key : ByteString) : scanObject json key =
      some ⟨(ms.foldl (Cursor.step key) ⟨lead.length + 1, none⟩).found, lead.length + body.length, ms = []⟩ := by
  have reads := @bracketed_reads Unit Member Cursor (fun _ => ()) _ _ _ _ (scanMember_reads key) (by decide) (by decide) memberText_opens
    ⟨lead.length + 1, none⟩
  have read : bracketed (scanMember key) (byte '\x7d') (fun _ => ()) ⟨lead.length + 1, none⟩ (body ++ trail) =
      .ok (ms.foldl (Cursor.step key) ⟨lead.length + 1, none⟩, trail) :=
    reads.complete ⟨ms, object.body, foldlM_step key _ ms⟩ trivial
  have start : json.length - (body ++ trail).length = lead.length + 1 := by
    rw [object.text]
    simp only [List.length_append, List.length_cons]
    omega
  have close : json.length - trail.length - 1 = lead.length + body.length := by
    rw [object.text]
    simp only [List.length_append, List.length_cons]
    omega
  have empty : (ws (body ++ trail)).head? = some (byte '\x7d') ↔ ms = [] := by
    obtain ⟨rfl, a, blank, rfl⟩ | ⟨items, listed, rfl⟩ := object.body
    · rw [List.append_assoc, ws_append blank, List.singleton_append, ws_cons (by decide)]
      simp
    · cases listed with
      | one written =>
        obtain ⟨c, head, other⟩ := memberText_opens written
        rw [List.append_assoc, ws_head head]
        simp [other]
      | more written _ =>
        obtain ⟨c, head, other⟩ := memberText_opens written
        rw [List.append_assoc, List.append_assoc, ws_head head]
        simp [other]
  unfold scanObject
  rw [object.opened]
  dsimp only
  rw [List.head?_cons, if_neg (not_not.mpr rfl), List.tail_cons, start, read]
  dsimp only
  rw [if_neg (not_not.mpr (ws_blank object.trail)), close, decide_eq_decide.mpr empty]

theorem scanned_object {json key : ByteString} {scanned : Scanned} (found : scanObject json key = some scanned) :
    ∃ ms lead body trail, Object json ms lead body trail := by
  unfold scanObject at found
  dsimp only at found
  split at found
  · cases found
  rename_i brace
  obtain ⟨lead, blank, split⟩ := opened (not_not.mp brace)
  split at found
  · cases found
  rename_i cur rest read
  split at found
  · cases found
  rename_i trailing
  have reads := @bracketed_reads Unit Member Cursor (fun _ => ()) _ _ _ _ (scanMember_reads key) (by decide) (by decide) memberText_opens
    ⟨json.length - (ws json).tail.length, none⟩
  obtain ⟨body, front, xs, bracketed, -⟩ := reads.sound read
  refine ⟨xs, lead, body, rest, ?_, blank, bracketed, blank_of_ws (not_not.mp trailing)⟩
  rw [split, front, List.append_assoc, List.cons_append]

/-! ### Offsets -/

/-- The bytes of members with the comma after each. -/
def width (ms : List Member) : ℕ := (ms.map fun m => m.text.length + 1).sum

theorem foldl_other {key : ByteString} {ms : List Member} (other : ∀ m ∈ ms, m.key ≠ some key) (cur : Cursor) :
    ms.foldl (Cursor.step key) cur = ⟨cur.i + width ms, cur.found⟩ := by
  induction ms generalizing cur with
  | nil => rfl
  | cons m ms ih =>
    obtain ⟨here, later⟩ := List.forall_mem_cons.mp other
    rw [List.foldl_cons, ih later, Cursor.step, if_neg fun found => here found.1, width, width, List.map_cons, List.sum_cons]
    simp only [Nat.add_assoc]

theorem foldl_found {key : ByteString} {cur : Cursor} (found : cur.found ≠ none) (ms : List Member) :
    (ms.foldl (Cursor.step key) cur).found = cur.found := by
  induction ms generalizing cur with
  | nil => rfl
  | cons m ms ih =>
    have kept : (Cursor.step key cur m).found = cur.found := if_neg fun both => found both.2
    rw [List.foldl_cons, ih (by rwa [kept]), kept]

/-- The first member with the key is found at its offset. -/
theorem foldl_first {key : ByteString} {l r : List Member} {m : Member} (before : ∀ x ∈ l, x.key ≠ some key) (here : m.key = some key) (i : ℕ) :
    ((l ++ m :: r).foldl (Cursor.step key) ⟨i, none⟩).found =
      some ⟨i + width l + m.front.length, i + width l + (m.front ++ m.raw).length⟩ := by
  have step : (Cursor.step key ⟨i + width l, none⟩ m).found =
      some ⟨i + width l + m.front.length, i + width l + (m.front ++ m.raw).length⟩ := if_pos ⟨here, rfl⟩
  rw [List.foldl_append, foldl_other before, List.foldl_cons, foldl_found (by rw [step]; exact Option.some_ne_none _), step]

/-- The text around one of the members; another member may stand there. -/
theorem listed_at {l r : List Member} {m : Member} {items : ByteString} (listed : Listed MemberText (l ++ m :: r) items) :
    ∃ before after, items = before ++ m.text ++ after ∧ m.Ok ∧ before.length = width l ∧ (r = [] → after = []) ∧
      ∀ m' : Member, m'.Ok → Listed MemberText (l ++ m' :: r) (before ++ m'.text ++ after) := by
  induction l generalizing items with
  | nil =>
    cases listed with
    | one written =>
      obtain ⟨ok, rfl⟩ := written
      exact ⟨[], [], by simp, ok, rfl, fun _ => rfl, fun m' ok => by simpa using Listed.one ⟨ok, rfl⟩⟩
    | @more _ xs text texts written rest =>
      obtain ⟨ok, rfl⟩ := written
      refine ⟨[], byte ',' :: texts, by simp, ok, rfl, fun none => ?_, fun m' ok => .more ⟨ok, rfl⟩ rest⟩
      rw [none] at rest
      cases rest
  | cons x l ih =>
    generalize whole : x :: l ++ m :: r = all at listed
    cases listed with
    | one => simp at whole
    | @more y xs text texts written rest =>
      rw [List.cons_append] at whole
      obtain ⟨rfl, rfl⟩ := List.cons.inj whole
      obtain ⟨before, after, split, inner, size, last, others⟩ := ih rest
      obtain ⟨ok, rfl⟩ := written
      refine ⟨x.text ++ byte ',' :: before, after, by rw [split]; simp, inner, ?_, last, fun m' ok' => ?_⟩
      · rw [List.length_append, List.length_cons, size, width, width, List.map_cons, List.sum_cons]
        omega
      · have more : Listed MemberText (x :: (l ++ m' :: r)) (x.text ++ byte ',' :: (before ++ m'.text ++ after)) :=
          .more ⟨ok, rfl⟩ (others m' ok')
        simpa using more

theorem listed_concat {ms : List Member} {items : ByteString} (listed : Listed MemberText ms items) {m : Member} (ok : m.Ok) :
    Listed MemberText (ms ++ [m]) (items ++ byte ',' :: m.text) := by
  induction listed with
  | one written => exact .more written (.one ⟨ok, rfl⟩)
  | more written _ ih =>
    rw [List.append_assoc, List.cons_append]
    exact .more written ih

/-! ### The last byte of a value -/

theorem bracketed_last {T : Unit → ByteString → Prop} {close : UInt8} {units : List Unit} {text : ByteString}
    (bracketed : Bracketed T close units text) : ∃ s, text = s ++ [close] := by
  obtain ⟨-, a, -, rfl⟩ | ⟨items, -, rfl⟩ := bracketed
  · exact ⟨a, rfl⟩
  · exact ⟨items, rfl⟩

theorem isCSpace_digit {c : UInt8} (digit : isDigit c = true) : isCSpace c = false := by
  rw [isDigit, Bool.and_eq_true, decide_eq_true_iff, decide_eq_true_iff, UInt8.le_iff_toNat_le, UInt8.le_iff_toNat_le] at digit
  have low : 48 ≤ c.toNat := digit.1
  rw [Bool.eq_false_iff]
  intro space
  simp only [isCSpace, Bool.or_eq_true, Bool.and_eq_true, decide_eq_true_eq, UInt8.le_iff_toNat_le] at space
  obtain rfl | ⟨-, high⟩ := space
  · exact absurd low (by decide)
  · have high : c.toNat ≤ 13 := high
    omega

theorem scalar_last {text : ByteString} (scalar : ScalarText text) : ∃ s c, text = s ++ [c] ∧ isCSpace c = false := by
  obtain ⟨_, t, ⟨texts, -, rfl⟩, rfl⟩ | rfl | rfl | rfl | ⟨-, last⟩ := scalar
  · exact ⟨byte '"' :: texts.flatten, byte '"', rfl, by decide⟩
  · exact ⟨ascii "tru", byte 'e', by decide, by decide⟩
  · exact ⟨ascii "fals", byte 'e', by decide, by decide⟩
  · exact ⟨ascii "nul", byte 'l', by decide, by decide⟩
  · obtain ⟨c, at_, digit⟩ := (Option.any_eq_true _ _).mp last
    obtain ⟨s, rfl⟩ := List.getLast?_eq_some_iff.mp at_
    exact ⟨s, c, rfl, isCSpace_digit digit⟩

theorem value_last {levels : ℕ} {text : ByteString} (value : ValueText levels text) : ∃ s c, text = s ++ [c] ∧ isCSpace c = false := by
  cases levels with
  | zero => exact scalar_last value
  | succ levels =>
    obtain scalar | ⟨t, units, inner, rfl⟩ | ⟨t, units, inner, rfl⟩ := value
    · exact scalar_last scalar
    · obtain ⟨s, rfl⟩ := bracketed_last inner
      exact ⟨byte '\x7b' :: s, _, rfl, by decide⟩
    · obtain ⟨s, rfl⟩ := bracketed_last inner
      exact ⟨byte '[' :: s, _, rfl, by decide⟩

/-- The whitespace at the end is dropped. -/
theorem rdropWhile_blank {s b : ByteString} {c : UInt8} (other : isCSpace c = false) (blank : Blank b) :
    (s ++ [c] ++ b).rdropWhile isCSpace = s ++ [c] := by
  induction b using List.reverseRecOn with
  | nil => rw [List.append_nil, List.rdropWhile_concat_neg _ _ _ (by simp [other])]
  | append_singleton b d ih =>
    have space : isCSpace d = true := by
      obtain rfl | rfl | rfl | rfl := isWs_cases (blank d (by simp)) <;> decide
    rw [← List.append_assoc, List.rdropWhile_concat_pos _ _ _ space]
    exact ih fun x member => blank x (List.mem_append_left _ member)

/-! ### The edit -/

namespace Member

def set (m : Member) (value : ByteString) : Member := { m with raw := quote value }

/-- The member that is appended. -/
def new (key value : ByteString) : Member := ⟨ascii "\n  ", quote key, ascii ": ", quote value, ascii "\n"⟩

theorem set_ok {m : Member} (ok : m.Ok) (value : ByteString) : (m.set value).Ok :=
  { ok with raw := Or.inl (Or.inl (quote_text value)) }

theorem new_ok (key value : ByteString) : (new key value).Ok where
  before := by
    show Blank (ascii "\n  ")
    decide
  name := quote_text key
  key := by
    rw [Member.key, new, jsonString_quote]
    exact Option.some_ne_none _
  between := ⟨[], [byte ' '], blank_nil, by decide, rfl⟩
  raw := Or.inl (Or.inl (quote_text value))
  after := by
    show Blank (ascii "\n")
    decide

end Member

/-- The text in front of a value and after it. -/
theorem Object.around {json lead body trail : ByteString} {l r : List Member} {m : Member} (object : Object json (l ++ m :: r) lead body trail) :
    ∃ before after, body = before ++ m.text ++ after ++ [byte '\x7d'] ∧ m.Ok ∧
      json = (lead ++ byte '\x7b' :: (before ++ m.front)) ++ m.raw ++ (m.after ++ after ++ byte '\x7d' :: trail) ∧
      (lead ++ byte '\x7b' :: (before ++ m.front)).length = lead.length + 1 + width l + m.front.length ∧
      ∀ m' : Member, m'.Ok → Bracketed MemberText (byte '\x7d') (l ++ m' :: r) (before ++ m'.text ++ after ++ [byte '\x7d']) := by
  obtain ⟨none, -⟩ | ⟨items, listed, split⟩ := object.body
  · simp at none
  · obtain ⟨before, after, rfl, ok, size, -, others⟩ := listed_at listed
    refine ⟨before, after, split, ok, ?_, ?_, fun m' ok' => Or.inr ⟨_, others m' ok', rfl⟩⟩
    · rw [object.text, split]
      simp only [Member.text, List.append_assoc, List.cons_append, List.nil_append]
    · simp only [List.length_append, List.length_cons, size]
      omega

theorem jsonMember_first {json lead body trail key : ByteString} {l r : List Member} {m : Member}
    (object : Object json (l ++ m :: r) lead body trail) (first : ∀ x ∈ l, x.key ≠ some key) (here : m.key = some key) :
    jsonMember json key = some m.raw := by
  obtain ⟨before, after, -, -, split, size, -⟩ := object.around
  have span : lead.length + 1 + width l + (m.front ++ m.raw).length =
      (lead ++ byte '\x7b' :: (before ++ m.front)).length + m.raw.length := by
    rw [size, List.length_append]
    omega
  rw [jsonMember, object.scanned key, foldl_first first here]
  simp only [bind, Option.bind]
  rw [span, ← size, slice, split, ← List.length_append, List.take_left, List.drop_left]
  rfl

theorem edited_first {json lead body trail key : ByteString} {l r : List Member} {m : Member} (object : Object json (l ++ m :: r) lead body trail)
    (first : ∀ x ∈ l, x.key ≠ some key) (here : m.key = some key) (value : ByteString) :
    ∃ body' out, edited json key value = some out ∧ Object out (l ++ m.set value :: r) lead body' trail ∧ (m.raw = quote value → out = json) := by
  obtain ⟨before, after, -, ok, split, size, others⟩ := object.around
  have span : lead.length + 1 + width l + (m.front ++ m.raw).length =
      ((lead ++ byte '\x7b' :: (before ++ m.front)) ++ m.raw).length := by
    simp only [List.length_append, List.length_cons] at size ⊢
    omega
  refine ⟨before ++ (m.set value).text ++ after ++ [byte '\x7d'],
    (lead ++ byte '\x7b' :: (before ++ m.front)) ++ quote value ++ (m.after ++ after ++ byte '\x7d' :: trail), ?_, ⟨?_, object.lead, ?_, object.trail⟩,
    fun same => ?_⟩
  · rw [edited, object.scanned key, foldl_first first here]
    simp only [bind, Option.bind]
    rw [span, ← size, split, List.drop_left, List.append_assoc _ m.raw, List.take_left]
    rfl
  · simp only [Member.text, Member.set, Member.front, List.append_assoc, List.cons_append, List.nil_append]
  · exact others _ (Member.set_ok ok value)
  · rw [split, same]

theorem edited_new {json lead body trail key : ByteString} {ms : List Member} (object : Object json ms lead body trail)
    (absent : ∀ x ∈ ms, x.key ≠ some key) (value : ByteString) :
    ∃ body' out ms', edited json key value = some out ∧ Object out (ms' ++ [Member.new key value]) lead body' trail ∧
      ms'.map (fun m => (m.name, m.raw)) = ms.map fun m => (m.name, m.raw) := by
  -- the text up to the brace, without the whitespace at its end
  have appended : ∀ inner head, body = inner ++ [byte '\x7d'] → (lead ++ byte '\x7b' :: inner).rdropWhile isCSpace = head →
      edited json key value = some (head ++ (if ms = [] then [] else ascii ",") ++ (Member.new key value).text ++ byte '\x7d' :: trail) := by
    intro inner head split strip
    have whole : json = (lead ++ byte '\x7b' :: inner) ++ byte '\x7d' :: trail := by
      rw [object.text, split]
      simp only [List.append_assoc, List.cons_append, List.nil_append]
    have close : lead.length + body.length = (lead ++ byte '\x7b' :: inner).length := by
      rw [split]
      simp only [List.length_append, List.length_cons, List.length_nil]
    rw [edited, object.scanned key, foldl_other absent]
    simp only [bind, Option.bind]
    rw [close, whole, List.take_left, List.drop_left, strip]
    simp only [Member.text, Member.front, Member.new, List.append_assoc, decide_eq_true_eq]
    rfl
  obtain ⟨rfl, a, blank, split⟩ | ⟨items, listed, split⟩ := object.body
  · have strip : (lead ++ byte '\x7b' :: a).rdropWhile isCSpace = lead ++ [byte '\x7b'] := by
      have dropped : (lead ++ [byte '\x7b'] ++ a).rdropWhile isCSpace = _ := rdropWhile_blank (by decide) blank
      rwa [List.append_assoc] at dropped
    refine ⟨(Member.new key value).text ++ [byte '\x7d'], _, [], appended a _ split strip, ⟨?_, object.lead, ?_, object.trail⟩, rfl⟩
    · simp only [if_true, List.append_assoc, List.cons_append, List.nil_append]
    · exact Or.inr ⟨_, .one ⟨Member.new_ok key value, rfl⟩, rfl⟩
  · obtain rfl | ⟨l, m, rfl⟩ := List.eq_nil_or_concat' ms
    · cases listed
    obtain ⟨before, after, rfl, ok, -, last, others⟩ := listed_at listed
    obtain rfl := last rfl
    obtain ⟨s, c, raw, other⟩ := value_last ok.raw
    have strip : (lead ++ byte '\x7b' :: (before ++ m.text ++ [])).rdropWhile isCSpace = lead ++ byte '\x7b' :: (before ++ m.front ++ m.raw) := by
      have dropped : ((lead ++ byte '\x7b' :: (before ++ m.front ++ s)) ++ [c] ++ m.after).rdropWhile isCSpace = _ := rdropWhile_blank other ok.after
      rw [Member.text, raw]
      simpa only [List.append_assoc, List.cons_append, List.append_nil] using dropped
    have bare : ({ m with after := [] } : Member).Ok := { ok with after := blank_nil }
    refine ⟨before ++ ({ m with after := [] } : Member).text ++ byte ',' :: (Member.new key value).text ++ [byte '\x7d'], _,
      l ++ [{ m with after := [] }], appended _ _ split strip, ⟨?_, object.lead, ?_, object.trail⟩, by simp⟩
    · rw [if_neg (by simp)]
      simp only [Member.text, Member.front, List.append_assoc, List.cons_append, List.nil_append, List.append_nil, ascii]
      rfl
    · have rest := others _ bare
      rw [List.append_nil] at rest
      exact Or.inr ⟨_, listed_concat rest (Member.new_ok key value), rfl⟩

/-! ### The lens -/

/-- The name and the value of a member, as they are written. -/
def Member.pair (m : Member) : ByteString × ByteString := (m.name, m.raw)

/-- The value of the first member with the key is replaced; without one a member is appended. -/
def setMember (key value : ByteString) : List (ByteString × ByteString) → List (ByteString × ByteString)
  | [] => [(quote key, quote value)]
  | (name, raw) :: ms => if jsonString name = some key then (name, quote value) :: ms else (name, raw) :: setMember key value ms

theorem setMember_other {key value : ByteString} {l : List (ByteString × ByteString)} (other : ∀ x ∈ l, jsonString x.1 ≠ some key)
    (r : List (ByteString × ByteString)) : setMember key value (l ++ r) = l ++ setMember key value r := by
  induction l with
  | nil => rfl
  | cons x l ih =>
    obtain ⟨here, later⟩ := List.forall_mem_cons.mp other
    rw [List.cons_append, setMember, if_neg here, ih later]
    rfl

/-- The members up to the first one with the key. -/
theorem first_split (key : ByteString) (ms : List Member) :
    (∀ m ∈ ms, m.key ≠ some key) ∨ ∃ l m r, ms = l ++ m :: r ∧ (∀ x ∈ l, x.key ≠ some key) ∧ m.key = some key := by
  cases found : ms.find? fun m => m.key = some key with
  | none =>
    left
    intro m member
    simpa using List.find?_eq_none.mp found m member
  | some m =>
    right
    obtain ⟨here, l, r, split, before⟩ := List.find?_eq_some_iff_append.mp found
    exact ⟨l, m, r, split, fun x member => by simpa using before x member, by simpa using here⟩

/-- After the edit the key has the value, and the edit once more changes nothing. -/
theorem edited_again {out lead body trail key value : ByteString} {l r : List Member} {m : Member}
    (object : Object out (l ++ m :: r) lead body trail) (first : ∀ x ∈ l, x.key ≠ some key) (here : m.key = some key)
    (set : m.raw = quote value) : (jsonMember out key).bind jsonString = some value ∧ edited out key value = some out := by
  constructor
  · rw [jsonMember_first object first here, set]
    exact jsonString_quote value
  · obtain ⟨_, out', again, -, same⟩ := edited_first object first here value
    rw [again, same set]

theorem edited_lens {json key value : ByteString} {ms : List Member} (members : topMembers json = some ms) :
    ∃ out ms', edited json key value = some out ∧ topMembers out = some ms' ∧ ms'.map Member.pair = setMember key value (ms.map Member.pair) ∧
      (jsonMember out key).bind jsonString = some value ∧ edited out key value = some out := by
  obtain ⟨lead, body, trail, object⟩ := topMembers_object.mp members
  obtain absent | ⟨l, m, r, rfl, first, here⟩ := first_split key ms
  · obtain ⟨body', out, ms', edit, after, same⟩ := edited_new object absent value
    have names : ∀ x ∈ ms.map Member.pair, jsonString x.1 ≠ some key := by
      intro x member
      obtain ⟨m, inside, rfl⟩ := List.mem_map.mp member
      exact absent m inside
    have kept : ms'.map Member.pair = ms.map Member.pair := same
    have before : ∀ x ∈ ms', x.key ≠ some key := by
      intro x member
      exact names x.pair (kept ▸ List.mem_map_of_mem member)
    have new : (Member.new key value).key = some key := jsonString_quote key
    refine ⟨out, _, edit, topMembers_object.mpr ⟨_, _, _, after⟩, ?_, edited_again after before new rfl⟩
    have grown : setMember key value (ms.map Member.pair ++ []) = ms.map Member.pair ++ setMember key value [] := setMember_other names []
    rw [List.append_nil] at grown
    rw [List.map_append, kept, grown]
    rfl
  · obtain ⟨body', out, edit, after, -⟩ := edited_first object first here value
    have names : ∀ x ∈ l.map Member.pair, jsonString x.1 ≠ some key := by
      intro x member
      obtain ⟨m, inside, rfl⟩ := List.mem_map.mp member
      exact first m inside
    have still : (m.set value).key = some key := here
    refine ⟨out, _, edit, topMembers_object.mpr ⟨_, _, _, after⟩, ?_, edited_again after first still rfl⟩
    rw [List.map_append, List.map_append, setMember_other names, List.map_cons, List.map_cons, setMember]
    exact congrArg _ (if_pos here).symm

/-- `json_member` gives the value of the first member with the key. -/
theorem jsonMember_members {json : ByteString} {ms : List Member} (members : topMembers json = some ms) (k : ByteString) :
    jsonMember json k = (ms.find? fun m => m.key = some k).map Member.raw := by
  obtain ⟨lead, body, trail, object⟩ := topMembers_object.mp members
  obtain absent | ⟨l, m, r, rfl, first, here⟩ := first_split k ms
  · have none : ms.find? (fun m => m.key = some k) = none := List.find?_eq_none.mpr fun m member => by simpa using absent m member
    rw [none, jsonMember, object.scanned k, foldl_other absent]
    rfl
  · have found : (l ++ m :: r).find? (fun m => m.key = some k) = some m :=
      List.find?_eq_some_iff_append.mpr ⟨by simpa using here, l, r, rfl, fun x member => by simpa using first x member⟩
    rw [found, jsonMember_first object first here]
    rfl

/-- The edit succeeds on exactly the texts that the scanner accepts, and keeps the others' output. What it returns is accepted
again, has the value under the key and every other member as it was, in order; a second edit changes nothing. -/
theorem jsonSetString_lens (json key value : ByteString) :
    ((∃ k, scanObject json k ≠ none) ↔ topMembers json ≠ none) ∧
    (∀ text ms, topMembers text = some ms → ∀ k, jsonMember text k = (ms.find? fun m => m.key = some k).map Member.raw) ∧
    (∀ ms, topMembers json = some ms → ∃ out ms', (∀ old, jsonSetString json key value old = (true, out)) ∧
      (∀ k, scanObject out k ≠ none) ∧ topMembers out = some ms' ∧ ms'.map Member.pair = setMember key value (ms.map Member.pair) ∧
      (jsonMember out key).bind jsonString = some value ∧ ∀ old, jsonSetString out key value old = (true, out)) ∧
    ((∀ k, scanObject json k = none) → ∀ old, jsonSetString json key value old = (false, old)) := by
  refine ⟨⟨?_, ?_⟩, fun text ms members => jsonMember_members members, ?_, ?_⟩
  · rintro ⟨k, accepted⟩
    obtain ⟨scanned, found⟩ := Option.ne_none_iff_exists'.mp accepted
    obtain ⟨ms, lead, body, trail, object⟩ := scanned_object found
    rw [topMembers_object.mpr ⟨lead, body, trail, object⟩]
    exact Option.some_ne_none _
  · intro accepted
    obtain ⟨ms, members⟩ := Option.ne_none_iff_exists'.mp accepted
    obtain ⟨lead, body, trail, object⟩ := topMembers_object.mp members
    exact ⟨key, by rw [object.scanned]; exact Option.some_ne_none _⟩
  · intro ms members
    obtain ⟨out, ms', edit, after, pairs, value_, again⟩ := @edited_lens json key value ms members
    obtain ⟨lead, body, trail, object⟩ := topMembers_object.mp after
    refine ⟨out, ms', fun old => ?_, fun k => ?_, after, pairs, value_, fun old => ?_⟩
    · rw [jsonSetString, edit]
    · rw [object.scanned]
      exact Option.some_ne_none _
    · rw [jsonSetString, again]
  · intro refused old
    have none : edited json key value = none := by
      rw [edited, refused key]
      rfl
    rw [jsonSetString, none]

end Dyx3.Recorder
