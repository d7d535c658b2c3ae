import Dyx3.Lib.Checks
import Dyx3.Lib.JsonText
import Dyx3.Gateway.Utf8

/-!
The strict JSON parser of the gateway (dyx3_system_gateway/json): a recursive descent over bytes that stops at the first error
with its offset. `strtod` is the one of the library, which rounds correctly.
-/

namespace Dyx3.Gateway

open Lib Lib.ByteReader

inductive JsonValue where
  | null
  | bool (b : Bool)
  /-- The number as a double, and as an integer when it is one of at most 18 bytes. -/
  | number (n : Double) (i : Option ℤ)
  | string (s : ByteString)
  | array (a : List JsonValue)
  | object (o : List (ByteString × JsonValue))

def kMaxDepth : ℕ := 16

/-- A message and what is left of the text where the parser stopped. -/
structure JsonError where
  message : String
  rest : ByteString

namespace P

def fail {α : Type} (message : String) (rest : ByteString) : Except JsonError α := .error ⟨message, rest⟩

def lit (w : String) (s : ByteString) : Option ByteString :=
  if s.take (ascii w).length = ascii w then some (s.drop (ascii w).length) else none

def hexDigit (c : UInt8) : Option ℕ :=
  if byte '0' ≤ c ∧ c ≤ byte '9' then some (c - byte '0').toNat
  else if byte 'a' ≤ c ∧ c ≤ byte 'f' then some ((c - byte 'a').toNat + 10)
  else if byte 'A' ≤ c ∧ c ≤ byte 'F' then some ((c - byte 'A').toNat + 10)
  else none

def hexLoop : ℕ → ℕ → ByteString → Except JsonError (ℕ × ByteString)
  | 0, r, s => .ok (r, s)
  | _ + 1, _, [] => fail "bad \\u escape" []
  | k + 1, r, c :: s =>
    match hexDigit c with
    | none => fail "bad \\u escape" s
    | some d => hexLoop k (r * 16 + d) s

def hex4 (s : ByteString) : Except JsonError (ℕ × ByteString) := if s.length < 4 then fail "short \\u escape" s else hexLoop 4 0 s

/-- What follows `\u`. -/
def codePoint (s : ByteString) : Except JsonError (ByteString × ByteString) := do
  let (cp, s) ← hex4 s
  if IsHigh cp then
    if s.take 2 ≠ ascii "\\u" then fail "lone high surrogate" s
    else do
      let (lo, s) ← hex4 (s.drop 2)
      if ¬IsLow lo then fail "bad low surrogate" s
      else return (putUtf8 (0x10000 + (cp - 0xD800) * 0x400 + (lo - 0xDC00)), s)
  else if IsLow cp then fail "lone low surrogate" s
  else return (putUtf8 cp, s)

/-- What follows a backslash. -/
def escape : ByteString → Except JsonError (ByteString × ByteString)
  | [] => fail "dangling escape" []
  | e :: s =>
    if e = byte '"' then .ok ([byte '"'], s)
    else if e = byte '\\' then .ok ([byte '\\'], s)
    else if e = byte '/' then .ok ([byte '/'], s)
    else if e = byte 'b' then .ok ([8], s)
    else if e = byte 'f' then .ok ([12], s)
    else if e = byte 'n' then .ok ([10], s)
    else if e = byte 'r' then .ok ([13], s)
    else if e = byte 't' then .ok ([9], s)
    else if e = byte 'u' then codePoint s
    else fail "bad escape" s

/-- One round of the loop of `string`: what it appends to the output. -/
def unit : ByteString → Except JsonError (ByteString × ByteString)
  | [] => fail "unterminated string" []
  | c :: s =>
    if c < 0x20 then fail "control character in string" s
    else if 0x80 ≤ c then
      if utf8Seq (c :: s) = 0 then fail "invalid UTF-8 in string" (c :: s)
      else .ok ((c :: s).take (utf8Seq (c :: s)), (c :: s).drop (utf8Seq (c :: s)))
    else if c ≠ byte '\\' then .ok ([c], s)
    else escape s

def string : ByteString → Except JsonError (ByteString × ByteString)
  | [] => fail "expected string" []
  | c :: s =>
    if c ≠ byte '"' then fail "expected string" (c :: s)
    else do
      let (units, s) ← quoted unit (fun s => ⟨"unterminated string", s⟩) (s.length + 1) s
      return (units.flatten, s)

/-! ### Numbers -/

/-- The text of `s` in front of its suffix `t`. -/
def consumed (s t : ByteString) : ByteString := s.take (s.length - t.length)

def digitNext (s : ByteString) : Bool := s.head?.any isDigit

def intPart : ByteString → Except JsonError ByteString
  | [] => fail "bad number" []
  | c :: s =>
    if c = byte '0' then if digitNext s then fail "leading zero" s else .ok s
    else if byte '1' ≤ c ∧ c ≤ byte '9' then .ok ((c :: s).dropWhile isDigit)
    else fail "bad number" (c :: s)

def fraction (s : ByteString) : Except JsonError ByteString :=
  if s.head? = some (byte '.') then
    if digitNext s.tail then .ok (s.tail.dropWhile isDigit) else fail "bad fraction" s.tail
  else .ok s

/-- The sign of an exponent may be left out. -/
def afterSign (s : ByteString) : ByteString := if s.head? = some (byte '+') ∨ s.head? = some (byte '-') then s.tail else s

def exponent (s : ByteString) : Except JsonError ByteString :=
  if s.head? = some (byte 'e') ∨ s.head? = some (byte 'E') then
    if digitNext (afterSign s.tail) then .ok ((afterSign s.tail).dropWhile isDigit) else fail "bad exponent" (afterSign s.tail)
  else .ok s

def strtod (tok : ByteString) : Double := ((Lib.strtod (tok.map char)).map Prod.fst).getD (.zero false)

def strtoll (tok : ByteString) : ℤ :=
  if tok.head? = some (byte '-') then -(Nat.ofDigitChars 10 (tok.tail.map char) 0 : ℤ) else Nat.ofDigitChars 10 (tok.map char) 0

def number (s : ByteString) : Except JsonError (JsonValue × ByteString) := do
  let afterInt ← intPart (if s.head? = some (byte '-') then s.tail else s)
  let afterFraction ← fraction afterInt
  let rest ← exponent afterFraction
  let tok := consumed s rest
  if !(strtod tok).isFinite then fail "number out of range" rest
  else
    -- no fraction and no exponent
    let integral := rest.length = afterInt.length
    return (.number (strtod tok) (if integral ∧ tok.length ≤ 18 then some (strtoll tok) else none), rest)

/-! ### Values -/

/-- An element of an array; the whitespace after the bracket is skipped before the depth is checked. -/
def element (value : ByteString → Except JsonError (JsonValue × ByteString)) (a : List JsonValue) (s : ByteString) : Except JsonError ((List JsonValue) × ByteString) := do
  let (child, s) ← value (if a.isEmpty then ws s else s)
  return (a ++ [child], ws s)

def member (value : ByteString → Except JsonError (JsonValue × ByteString)) (o : List (ByteString × JsonValue)) (s : ByteString) :
    Except JsonError ((List (ByteString × JsonValue)) × ByteString) := do
  let s := ws s
  if s.head? ≠ some (byte '"') then fail "expected key" s
  let (key, s) ← string s
  if o.any (fun kv => kv.1 = key) then fail ("duplicate key '" ++ String.ofList (key.map char) ++ "'") s
  let s := ws s
  if s.head? ≠ some (byte ':') then fail "expected ':'" s
  let (child, s) ← value s.tail
  return (o ++ [(key, child)], ws s)

def word (w : String) (v : JsonValue) (s : ByteString) : Except JsonError (JsonValue × ByteString) :=
  match lit w s with
  | none => fail "bad literal" s
  | some rest => .ok (v, rest)

/-- The value at the front, which may nest so many levels deep. -/
def value : ℕ → ByteString → Except JsonError (JsonValue × ByteString)
  | 0, s => fail "nesting too deep" s
  | levels + 1, s =>
    match ws s with
    | [] => fail "unexpected end" []
    | c :: s =>
      if c = byte '\x7b' then do
        let (o, s) ← bracketed (member (value levels)) (byte '\x7d') (fun s => ⟨"expected ',' or '\x7d'", s⟩) [] s
        return (.object o, s)
      else if c = byte '[' then do
        let (a, s) ← bracketed (element (value levels)) (byte ']') (fun s => ⟨"expected ',' or ']'", s⟩) [] s
        return (.array a, s)
      else if c = byte '"' then do
        let (str, s) ← string (c :: s)
        return (.string str, s)
      else if c = byte 't' then word "true" (.bool true) (c :: s)
      else if c = byte 'f' then word "false" (.bool false) (c :: s)
      else if c = byte 'n' then word "null" .null (c :: s)
      else if c = byte '-' ∨ isDigit c then number (c :: s)
      else fail "unexpected character" (c :: s)

end P

def readJson (text : ByteString) : Except JsonError JsonValue := do
  let (v, s) ← P.value (kMaxDepth + 1) text
  let s := ws s
  if s ≠ [] then P.fail "trailing characters" s else return v

/-- `parse_json`: the output, which is kept when the text is refused, and the error. -/
def parseJson (text : ByteString) (out : JsonValue) : JsonValue × Option String :=
  match readJson text with
  | .ok v => (v, none)
  | .error e => (out, some (e.message ++ " at offset " ++ toString (text.length - e.rest.length)))

end Dyx3.Gateway
