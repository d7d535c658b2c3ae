import Mathlib.Data.List.Nodup
import Mathlib.Data.Nat.Bitwise
import Dyx3.Lib.ByteReader
import Dyx3.Lib.Checks
import Dyx3.Mission.Messages
import Dyx3.Mission.Fsm

/-!
The progress record of a mission as one line of JSON (dyx3_mission/mission_progress): what `serialize_progress` writes and
what the strict reader `parse_progress` takes. A `std::string` of the record is a `String` with one character for a byte.
-/

namespace Dyx3.Mission

open Lib Lib.ByteReader

/-- `"..."`; nothing is escaped. -/
def quote (s : String) : ByteString := byte '"' :: ascii s ++ [byte '"']

def isLowerHex64 (s : String) : Bool :=
  s.toList.length = 64 && s.toList.all fun c => ('0' ≤ c && c ≤ '9') || ('a' ≤ c && c ≤ 'f')

def allStates : List State :=
  [.idle, .loading, .ready, .running, .paused, .completed, .aborted, .error, .placing, .arming, .engaging]

def knownState (s : String) : Bool := allStates.any fun st => st.text = s

def isPlain (c : Char) : Bool := !(c.toNat < 0x20 || 0x7e < c.toNat || c = '"' || c = '\\')

/-- Printable ASCII without a quote or a backslash. -/
def plainString (s : String) : Bool := s.toList.all isPlain

namespace MissionProgress

def schema : ℕ := 1

/-- What `write_progress` checks before it writes a file. -/
def writable (p : MissionProgress) : Bool :=
  isLowerHex64 p.pathArtifactSha256 && plainString p.state && plainString p.updatedUtc

/-- `serialize_progress`. -/
def serialize (p : MissionProgress) : ByteString :=
  ascii "\x7b\"schema\":" ++ decimal schema ++ ascii ",\"path_artifact_sha256\":\"" ++ ascii p.pathArtifactSha256 ++
    ascii "\",\"mission_id\":" ++ decimal p.missionId ++ ascii ",\"run_index\":" ++ decimal p.runIndex ++
    ascii ",\"point_index\":" ++ decimal p.pointIndex ++ ascii ",\"completed_points\":[" ++
    ((p.completedPoints.map decimal).intersperse (ascii ",")).flatten ++
    ascii "],\"state\":\"" ++ ascii p.state ++ ascii "\",\"updated_utc\":\"" ++ ascii p.updatedUtc ++ ascii "\"\x7d\n"

end MissionProgress

namespace Reader

/-! ### The reader

Each of its methods is given what `parse_progress` reports when the method fails. -/

def maxUint32 : ℕ := 4294967295

def eat (c : Char) (why : String) (s : ByteString) : Except String ByteString :=
  if (ws s).head? = some (byte c) then .ok (ws s).tail else .error why

def plainUnit (why : String) : ByteString → Except String (Char × ByteString)
  | [] => .error why
  | c :: t => if c < 0x20 ∨ 0x7e < c ∨ c = byte '\\' then .error why else .ok (char c, t)

def string (why : String) (s : ByteString) : Except String (String × ByteString) := do
  let s ← eat '"' why s
  let (cs, s) ← quoted (plainUnit why) (fun _ => why) (s.length + 1) s
  return (String.ofList cs, s)

def uint32Loop (why : String) : ℕ → ByteString → Except String (ℕ × ByteString)
  | v, [] => .ok (v, [])
  | v, c :: t =>
    if isDigit c then
      let v := v * 10 + (c - byte '0').toNat
      if maxUint32 < v then .error why else uint32Loop why v t
    else .ok (v, c :: t)

def uint32 (why : String) (s : ByteString) : Except String (ℕ × ByteString) := do
  let s := ws s
  let (v, rest) ← uint32Loop why 0 s
  let len := s.length - rest.length
  -- no leading zeros
  if len = 0 ∨ (1 < len ∧ s.head? = some (byte '0')) then throw why
  return (v, rest)

/-- The values read so far, with one bit for each key that was there. -/
structure Draft where
  schema : ℕ := 0
  progress : MissionProgress := ⟨"", 0, 0, 0, [], "", ""⟩
  seen : ℕ := 0
  deriving DecidableEq

/-- Where the value of a key goes. -/
inductive Slot where
  | number (set : Draft → ℕ → Draft)
  | string (set : Draft → String → Draft)
  | list (set : Draft → List ℕ → Draft)

/-- The bit and the slot of a key. -/
def slot (key : String) : Option (ℕ × Slot) :=
  if key = "schema" then some (1, .number fun d v => { d with schema := v })
  else if key = "path_artifact_sha256" then
    some (2, .string fun d v => { d with progress := { d.progress with pathArtifactSha256 := v } })
  else if key = "mission_id" then some (4, .number fun d v => { d with progress := { d.progress with missionId := v } })
  else if key = "run_index" then some (8, .number fun d v => { d with progress := { d.progress with runIndex := v } })
  else if key = "point_index" then some (16, .number fun d v => { d with progress := { d.progress with pointIndex := v } })
  else if key = "completed_points" then
    some (32, .list fun d v => { d with progress := { d.progress with completedPoints := v } })
  else if key = "state" then some (64, .string fun d v => { d with progress := { d.progress with state := v } })
  else if key = "updated_utc" then some (128, .string fun d v => { d with progress := { d.progress with updatedUtc := v } })
  else none

def point (why : String) (points : List ℕ) (s : ByteString) : Except String (List ℕ × ByteString) := do
  let (v, s) ← uint32 why s
  return (points ++ [v], ws s)

def Slot.read (why : String) (d : Draft) (s : ByteString) : Slot → Except String (Draft × ByteString)
  | .number set => do
    let (v, s) ← uint32 why s
    return (set d v, s)
  | .string set => do
    let (v, s) ← Reader.string why s
    return (set d v, s)
  | .list set => do
    let s ← eat '[' why s
    let (points, s) ← bracketed (point why) (byte ']') (fun _ => why) [] s
    return (set d points, s)

def member (d : Draft) (s : ByteString) : Except String (Draft × ByteString) := do
  let (key, s) ← string "expected a key" s
  let s ← eat ':' "expected a key" s
  match slot key with
  | none => throw ("unknown key '" ++ key ++ "'")
  | some (bit, slot) =>
    let why := "bad or repeated value for '" ++ key ++ "'"
    if d.seen &&& bit ≠ 0 then throw why
    let (d, s) ← slot.read why { d with seen := d.seen ||| bit } s
    return (d, ws s)

/-- The checks of `parse_progress` on what it has read. -/
def Draft.accept (d : Draft) : Except String MissionProgress :=
  if d.seen ≠ 255 then .error "a key is missing"
  else if d.schema ≠ MissionProgress.schema then .error ("unsupported schema " ++ toString d.schema)
  else if !isLowerHex64 d.progress.pathArtifactSha256 then .error "artifact id is not 64 hex"
  else if !knownState d.progress.state then .error ("unknown state '" ++ d.progress.state ++ "'")
  else if d.progress.completedPoints ≠ List.range d.progress.completedPoints.length then .error "completed_points is not 0..k-1"
  else .ok d.progress

end Reader

open Reader

def readProgress (bytes : ByteString) : Except String MissionProgress := do
  let s ← eat '\x7b' "not a JSON object" bytes
  let (d, s) ← bracketed member (byte '\x7d') (fun _ => "expected ','") {} s
  if ws s ≠ [] then throw "trailing bytes after the object"
  d.accept

/-- `parse_progress`: the record, which is kept when the text is refused, and the error. -/
def parseProgress (bytes : ByteString) (out : MissionProgress) : MissionProgress × Option String :=
  match readProgress bytes with
  | .ok p => (p, none)
  | .error why => (out, some why)

/-! ### The grammar -/

/-- The value of a member. -/
inductive Value where
  | number (n : ℕ)
  | string (s : String)
  | list (ns : List ℕ)
  deriving DecidableEq

def PointText (n : ℕ) (text : ByteString) : Prop := n ≤ maxUint32 ∧ Spaced (decimal n) text

def Value.Text : Value → ByteString → Prop
  | .number n, text => n ≤ maxUint32 ∧ text = decimal n
  | .string s, text => plainString s ∧ text = quote s
  | .list ns, text => ∃ t, Bracketed PointText (byte ']') ns t ∧ text = byte '[' :: t

def MemberText (member : String × Value) (text : ByteString) : Prop :=
  ∃ key value core, Spaced (quote member.1) key ∧ member.2.Text core ∧ Spaced core value ∧ text = key ++ byte ':' :: value

/-- A JSON object with these members in this order. -/
def ObjectText (members : List (String × Value)) (text : ByteString) : Prop :=
  ∃ t, Bracketed MemberText (byte '\x7d') members t ∧ Spaced (byte '\x7b' :: t) text

namespace Reader

/-! ### The parts of the reader -/

/-- The rest does not go on with a digit. -/
def NoDigitNext (rest : ByteString) : Prop := ∀ c ∈ rest.head?, isDigit c = false

theorem eat_reads {c : Char} (mark : isWs (byte c) = false) (why : String) {s t : ByteString} :
    eat c why s = .ok t ↔ ∃ a, Blank a ∧ s = a ++ byte c :: t := by
  constructor
  · intro ate
    rw [eat] at ate
    split at ate
    · rename_i head
      cases ate
      obtain ⟨a, blank, split⟩ := ws_split s
      obtain ⟨t, opened⟩ := List.head?_eq_some_iff.mp head
      exact ⟨a, blank, by rw [opened, List.tail_cons]; rw [opened] at split; exact split⟩
    · cases ate
  · rintro ⟨a, blank, rfl⟩
    rw [eat, ws_append blank, ws_cons mark]
    exact if_pos rfl

theorem isPlain_byte {c : UInt8} (low : ¬c < 0x20) (high : ¬0x7e < c) (slash : c ≠ byte '\\') (other : c ≠ byte '"') : isPlain (char c) = true := by
  have low : ¬(char c).toNat < 32 := by
    rw [char_toNat]
    exact fun less => low (UInt8.lt_iff_toNat_lt.mpr less)
  have high : ¬126 < (char c).toNat := by
    rw [char_toNat]
    exact fun less => high (UInt8.lt_iff_toNat_lt.mpr less)
  have ne : ∀ d : Char, c ≠ byte d → char c ≠ d := by
    rintro d differs rfl
    exact differs (byte_char c).symm
  simp [isPlain, low, high, ne _ slash, ne _ other]

theorem plain_byte {c : Char} (plain : isPlain c = true) :
    c.toNat < 256 ∧ ¬byte c < 0x20 ∧ ¬0x7e < byte c ∧ byte c ≠ byte '\\' ∧ byte c ≠ byte '"' := by
  simp only [isPlain, Bool.not_eq_true', Bool.or_eq_false_iff, decide_eq_false_iff_not] at plain
  obtain ⟨⟨⟨low, high⟩, quote⟩, slash⟩ := plain
  have small : c.toNat < 256 := by omega
  have code : (byte c).toNat = c.toNat := by rw [byte, UInt8.toNat_ofNat', Nat.mod_eq_of_lt small]
  have ne : ∀ d : Char, d.toNat < 256 → c ≠ d → byte c ≠ byte d := by
    intro d other differs same
    exact differs (by rw [← char_byte small, same, char_byte other])
  refine ⟨small, fun less => ?_, fun less => ?_, ne _ (by decide) slash, ne _ (by decide) quote⟩
  · have less := UInt8.lt_iff_toNat_lt.mp less
    rw [code] at less
    exact low less
  · have less := UInt8.lt_iff_toNat_lt.mp less
    rw [code] at less
    exact high less

theorem plainUnit_reads (why : String) : ReadsUnits (plainUnit why) fun c text => isPlain c = true ∧ text = [byte c] where
  sound := by
    intro c t v rest other read
    rw [plainUnit] at read
    split at read
    · cases read
    · rename_i inside
      cases read
      simp only [not_or] at inside
      exact ⟨[c], rfl, isPlain_byte inside.1 inside.2.1 inside.2.2 other, by rw [byte_char]⟩
  complete := by
    rintro v text rest ⟨plain, rfl⟩
    obtain ⟨small, low, high, slash, -⟩ := plain_byte plain
    rw [List.singleton_append, plainUnit, if_neg (by simp only [not_or]; exact ⟨low, high, slash⟩), char_byte small]
  inside := by
    rintro v text ⟨plain, rfl⟩
    exact ⟨byte v, [], rfl, (plain_byte plain).2.2.2.2⟩

theorem quoted_plain {cs : List Char} {text : ByteString} :
    Quoted (fun c text => isPlain c = true ∧ text = [byte c]) cs text ↔ (∀ c ∈ cs, isPlain c = true) ∧ text = cs.map byte ++ [byte '"'] := by
  constructor
  · rintro ⟨texts, units, rfl⟩
    induction units with
    | nil => exact ⟨nofun, rfl⟩
    | cons unit _ ih =>
      obtain ⟨plain, rfl⟩ := unit
      refine ⟨List.forall_mem_cons.mpr ⟨plain, ih.1⟩, ?_⟩
      rw [List.flatten_cons, List.append_assoc, ih.2]
      rfl
  · rintro ⟨plain, rfl⟩
    refine ⟨cs.map fun c => [byte c], ?_, ?_⟩
    · rw [List.forall₂_map_right_iff, List.forall₂_same]
      exact fun c member => ⟨plain c member, rfl⟩
    · rw [← List.flatMap_def, List.map_eq_flatMap]

/-- What a reader leaves in front. -/
def After (G : α → ByteString → Prop) (v : α) (text : ByteString) : Prop := ∃ a core, Blank a ∧ G v core ∧ text = a ++ core

theorem string_reads (why : String) : Reads (string why) (After fun s text => plainString s = true ∧ text = quote s) fun _ => True where
  sound := by
    intro s v rest read
    obtain ⟨t, opened, read⟩ := bind_ok read
    obtain ⟨⟨cs, t'⟩, closed, read⟩ := bind_ok read
    cases read
    obtain ⟨a, blank, rfl⟩ := (eat_reads (by decide) why).mp opened
    obtain ⟨text, rfl, chars⟩ := quoted_sound (plainUnit_reads why) closed
    obtain ⟨plain, rfl⟩ := quoted_plain.mp chars
    refine ⟨a ++ quote (String.ofList cs), ?_, a, _, blank, ⟨?_, rfl⟩, rfl⟩
    · rw [quote, ascii, String.toList_ofList]
      simp only [List.append_assoc, List.cons_append]
    · rw [plainString, String.toList_ofList]
      exact List.all_eq_true.mpr plain
  complete := by
    rintro v text rest ⟨a, core, blank, ⟨plain, rfl⟩, rfl⟩ -
    have opened : eat '"' why (a ++ quote v ++ rest) = .ok (ascii v ++ [byte '"'] ++ rest) :=
      (eat_reads (by decide) why).mpr ⟨a, blank, by rw [quote, List.append_assoc]; rfl⟩
    have chars : Quoted (fun c text => isPlain c = true ∧ text = [byte c]) v.toList (ascii v ++ [byte '"']) :=
      quoted_plain.mpr ⟨List.all_eq_true.mp plain, rfl⟩
    have closed : quoted (plainUnit why) (fun _ => why) ((ascii v ++ [byte '"'] ++ rest).length + 1) (ascii v ++ [byte '"'] ++ rest) =
        .ok (v.toList, rest) := quoted_complete (plainUnit_reads why) chars (by simp) rest
    rw [string, opened]
    simp only [bind, Except.bind, closed, String.ofList_toList]
    rfl

/-! ### Numbers -/

theorem uint32Loop_sound {why : String} {v n : ℕ} {s rest : ByteString} (small : v ≤ maxUint32) (read : uint32Loop why v s = .ok (n, rest)) :
    ∃ ds, s = ds ++ rest ∧ (∀ c ∈ ds, isDigit c = true) ∧ NoDigitNext rest ∧ n = Nat.ofDigitChars 10 (ds.map char) v ∧ n ≤ maxUint32 := by
  induction s generalizing v with
  | nil =>
    cases read
    exact ⟨[], rfl, nofun, nofun, rfl, small⟩
  | cons c t ih =>
    rw [uint32Loop] at read
    split at read
    · rename_i digit
      dsimp only at read
      split at read
      · cases read
      · rename_i within
        obtain ⟨ds, rfl, all, stop, value, small⟩ := ih (by omega) read
        refine ⟨c :: ds, rfl, List.forall_mem_cons.mpr ⟨digit, all⟩, stop, ?_, small⟩
        rw [value, List.map_cons, Nat.ofDigitChars_cons, digit_value digit, Nat.mul_comm]
    · rename_i other
      cases read
      exact ⟨[], rfl, nofun, by simpa [NoDigitNext] using other, rfl, small⟩

theorem ofDigitChars_le (ds : List Char) (v : ℕ) : v ≤ Nat.ofDigitChars 10 ds v := by
  rw [Nat.ofDigitChars_eq_ofDigitChars_zero]
  have := Nat.le_mul_of_pos_left v (Nat.pow_pos (n := ds.length) (show 0 < 10 by decide))
  omega

theorem uint32Loop_complete (why : String) {v : ℕ} {ds rest : ByteString} (all : ∀ c ∈ ds, isDigit c = true) (stop : NoDigitNext rest)
    (small : Nat.ofDigitChars 10 (ds.map char) v ≤ maxUint32) :
    uint32Loop why v (ds ++ rest) = .ok (Nat.ofDigitChars 10 (ds.map char) v, rest) := by
  induction ds generalizing v with
  | nil =>
    cases rest with
    | nil => rfl
    | cons c t =>
      have other : isDigit c = false := stop c rfl
      exact if_neg (by simp [other])
  | cons c ds ih =>
    obtain ⟨digit, all⟩ := List.forall_mem_cons.mp all
    rw [List.map_cons, Nat.ofDigitChars_cons, ← digit_value digit, Nat.mul_comm] at small ⊢
    have within : ¬maxUint32 < v * 10 + (c - byte '0').toNat := not_lt.mpr ((ofDigitChars_le _ _).trans small)
    rw [List.cons_append, uint32Loop, if_pos digit]
    exact (if_neg within).trans (ih all small)

theorem uint32_reads (why : String) : Reads (uint32 why) (After fun n text => n ≤ maxUint32 ∧ text = decimal n) NoDigitNext where
  sound := by
    intro s n rest read
    obtain ⟨⟨v, t⟩, looped, read⟩ := bind_ok read
    obtain ⟨a, blank, split⟩ := ws_split s
    obtain ⟨ds, digits, all, -, value, small⟩ := uint32Loop_sound (Nat.zero_le _) looped
    dsimp only at read
    split at read
    · cases read
    rename_i lead
    cases read
    rw [digits, List.length_append, Nat.add_sub_cancel, not_or, not_and_or] at lead
    refine ⟨a ++ decimal n, ?_, a, _, blank, ⟨small, rfl⟩, rfl⟩
    have written : ds = decimal n := by
      rw [value]
      refine decimal_value all (List.ne_nil_of_length_pos (Nat.pos_of_ne_zero lead.1)) fun zero => ?_
      obtain short | other := lead.2
      · have := Nat.pos_of_ne_zero lead.1
        omega
      · refine absurd ?_ other
        rw [List.head?_append, zero]
        rfl
    rw [List.append_assoc, ← written, ← digits]
    exact split
  complete := by
    rintro n text rest ⟨a, core, blank, ⟨small, rfl⟩, rfl⟩ stop
    have looped := uint32Loop_complete why (v := 0) (decimal_digits n) stop (by rwa [decimal_ofDigits])
    rw [decimal_ofDigits] at looped
    have front : ws (a ++ decimal n ++ rest) = decimal n ++ rest := by
      rw [List.append_assoc, ws_append blank, ws_decimal]
    have positive := List.length_pos_of_ne_nil (decimal_ne n)
    have lead : ¬((decimal n).length = 0 ∨ 1 < (decimal n).length ∧ (decimal n ++ rest).head? = some (byte '0')) := by
      rintro (empty | ⟨long, zero⟩)
      · omega
      · rw [List.head?_append_of_ne_nil _ (decimal_ne n)] at zero
        have := decimal_lead zero
        omega
    rw [uint32, front]
    simp only [bind, Except.bind, looped, List.length_append, Nat.add_sub_cancel]
    exact if_neg lead

theorem noDigit_ends {close : UInt8} {rest b : ByteString} (ends : Ends close rest) (blank : Blank b) (mark : isDigit close = false) :
    NoDigitNext (b ++ rest) := by
  intro c next
  obtain space | rfl | rfl := ends.next blank next
  · rw [Bool.eq_false_iff]
    exact fun digit => absurd space (by rw [digit_mark digit]; decide)
  · decide
  · exact mark

/-! ### Values -/

def push (points : List ℕ) (n : ℕ) : Option (List ℕ) := some (points ++ [n])

theorem point_reads (why : String) (points : List ℕ) :
    Reads (point why points) (Puts PointText push points) (Ends (byte ']')) where
  sound := by
    intro s acc rest read
    obtain ⟨⟨n, t⟩, number, read⟩ := bind_ok read
    cases read
    obtain ⟨_, rfl, a, _, blank, ⟨small, rfl⟩, rfl⟩ := (uint32_reads why).sound number
    obtain ⟨b, space, split⟩ := ws_split t
    refine ⟨a ++ decimal n ++ b, ?_, n, ⟨small, a, b, blank, space, rfl⟩, rfl⟩
    rw [List.append_assoc _ b, ← split]
  complete := by
    rintro acc text rest ⟨n, ⟨small, a, b, blank, space, rfl⟩, put⟩ ends
    cases put
    have number : uint32 why (a ++ decimal n ++ (b ++ rest)) = .ok (n, b ++ rest) :=
      (uint32_reads why).complete ⟨a, _, blank, ⟨small, rfl⟩, rfl⟩ (noDigit_ends ends space (by decide))
    rw [List.append_assoc _ b, point, number]
    simp only [bind, Except.bind, ends.ws (by decide) space]
    rfl

theorem points_reads (why : String) :
    Reads (bracketed (point why) (byte ']') (fun _ => why) []) (fun ns text => Bracketed PointText (byte ']') ns text) fun _ => True := by
  have opens : ∀ {n text}, PointText n text → ∃ c, (ws text).head? = some c ∧ c ≠ byte ']' := by
    rintro n text ⟨-, a, b, blank, -, rfl⟩
    obtain ⟨c, t, digits⟩ := List.exists_cons_of_ne_nil (decimal_ne n)
    have digit : isDigit c = true := decimal_digits n c (by rw [digits]; exact List.mem_cons_self)
    refine ⟨c, ?_, ?_⟩
    · rw [List.append_assoc, ws_append blank, ws_decimal, digits]
      rfl
    · rintro rfl
      exact absurd digit (by decide)
  have reads := @bracketed_reads String ℕ (List ℕ) (fun _ => why) _ _ _ _ (point_reads why) (by decide) (by decide) opens []
  constructor
  · intro s ns rest read
    obtain ⟨text, split, xs, bracketed, steps⟩ := reads.sound read
    rw [show xs.foldlM push [] = some ([] ++ xs) from foldlM_push [] xs] at steps
    cases steps
    exact ⟨text, split, bracketed⟩
  · intro ns text rest bracketed _
    exact reads.complete ⟨ns, bracketed, foldlM_push [] ns⟩ trivial

/-- What the value of a key does to the draft. -/
def Slot.set : Slot → Draft → Value → Option Draft
  | .number set, d, .number n => some (set d n)
  | .string set, d, .string s => some (set d s)
  | .list set, d, .list ns => some (set d ns)
  | _, _, _ => none

theorem Slot.read_reads (why : String) (d : Draft) (sl : Slot) :
    Reads (fun s => sl.read why d s) (After fun d' text => ∃ v : Value, v.Text text ∧ sl.set d v = some d') NoDigitNext := by
  cases sl with
  | number set =>
    constructor
    · intro s d' rest read
      obtain ⟨⟨n, t⟩, number, read⟩ := bind_ok read
      cases read
      obtain ⟨text, split, a, core, blank, written, rfl⟩ := (uint32_reads why).sound number
      exact ⟨_, split, a, core, blank, ⟨.number n, written, rfl⟩, rfl⟩
    · rintro d' text rest ⟨a, core, blank, ⟨v, written, put⟩, rfl⟩ stop
      cases v with
      | number n =>
        cases put
        have number : uint32 why (a ++ core ++ rest) = .ok (n, rest) := (uint32_reads why).complete ⟨a, core, blank, written, rfl⟩ stop
        simp only [Slot.read, bind, Except.bind, number]
        rfl
      | string | list => cases put
  | string set =>
    constructor
    · intro s d' rest read
      obtain ⟨⟨v, t⟩, string, read⟩ := bind_ok read
      cases read
      obtain ⟨text, split, a, core, blank, written, rfl⟩ := (string_reads why).sound string
      exact ⟨_, split, a, core, blank, ⟨.string v, written, rfl⟩, rfl⟩
    · rintro d' text rest ⟨a, core, blank, ⟨v, written, put⟩, rfl⟩ stop
      cases v with
      | string v =>
        cases put
        have string : Reader.string why (a ++ core ++ rest) = .ok (v, rest) :=
          (string_reads why).complete ⟨a, core, blank, written, rfl⟩ trivial
        simp only [Slot.read, bind, Except.bind, string]
        rfl
      | number | list => cases put
  | list set =>
    constructor
    · intro s d' rest read
      obtain ⟨t, opened, read⟩ := bind_ok read
      obtain ⟨⟨ns, t'⟩, points, read⟩ := bind_ok read
      cases read
      obtain ⟨a, blank, rfl⟩ := (eat_reads (by decide) why).mp opened
      obtain ⟨text, rfl, written⟩ := (points_reads why).sound points
      refine ⟨a ++ byte '[' :: text, by simp, a, _, blank, ⟨.list ns, ⟨text, written, rfl⟩, rfl⟩, rfl⟩
    · rintro d' text rest ⟨a, core, blank, ⟨v, written, put⟩, rfl⟩ stop
      cases v with
      | list ns =>
        cases put
        obtain ⟨t, bracketed, rfl⟩ := written
        have opened : eat '[' why (a ++ byte '[' :: t ++ rest) = .ok (t ++ rest) :=
          (eat_reads (by decide) why).mpr ⟨a, blank, by simp⟩
        simp only [Slot.read, bind, Except.bind, opened, (points_reads why).complete bracketed trivial]
        rfl
      | number | string => cases put

/-! ### Members -/

/-- What a member does to the draft. -/
def put (d : Draft) (member : String × Value) : Option Draft := do
  let (bit, sl) ← slot member.1
  if d.seen &&& bit ≠ 0 then none else sl.set { d with seen := d.seen ||| bit } member.2

theorem slot_plain {key : String} {bit : ℕ} {sl : Slot} (found : slot key = some (bit, sl)) : plainString key = true := by
  unfold slot at found
  split_ifs at found with h₁ h₂ h₃ h₄ h₅ h₆ h₇ h₈
  all_goals subst key; decide

theorem member_reads (d : Draft) : Reads (member d) (Puts MemberText put d) (Ends (byte '\x7d')) where
  sound := by
    intro s d' rest read
    obtain ⟨⟨key, t⟩, named, read⟩ := bind_ok read
    obtain ⟨t', colon, taken⟩ := bind_ok read
    obtain ⟨_, rfl, a, _, blank, ⟨plain, rfl⟩, rfl⟩ := (string_reads _).sound named
    obtain ⟨b, space, rfl⟩ := (eat_reads (by decide) _).mp colon
    dsimp only at taken
    split at taken
    · cases taken
    · rename_i bit sl found
      split at taken
      · cases taken
      · rename_i fresh
        obtain ⟨⟨e, u⟩, valued, taken⟩ := bind_ok taken
        cases taken
        obtain ⟨_, rfl, a', core, blank', ⟨v, written, set⟩, rfl⟩ := (Slot.read_reads _ _ sl).sound valued
        obtain ⟨b', space', split⟩ := ws_split u
        refine ⟨a ++ quote key ++ b ++ byte ':' :: (a' ++ core ++ b'), ?_, (key, v), ?_, ?_⟩
        · conv_lhs => rw [split]
          simp
        · exact ⟨_, _, core, ⟨a, b, blank, space, rfl⟩, written, ⟨a', b', blank', space', rfl⟩, rfl⟩
        · rw [put, found]
          exact (if_neg fresh).trans set
  complete := by
    rintro d' text rest ⟨⟨key, v⟩, ⟨_, _, core, ⟨a, b, blank, space, rfl⟩, written, ⟨a', b', blank', space', rfl⟩, rfl⟩, step⟩ ends
    rw [put] at step
    obtain ⟨⟨bit, sl⟩, found, step⟩ := Option.bind_eq_some_iff.mp step
    dsimp only at step
    split at step
    · cases step
    rename_i fresh
    have named : string "expected a key" (a ++ quote key ++ (b ++ byte ':' :: (a' ++ core ++ b') ++ rest)) =
        .ok (key, b ++ byte ':' :: (a' ++ core ++ b') ++ rest) :=
      (string_reads "expected a key").complete ⟨a, _, blank, ⟨slot_plain found, rfl⟩, rfl⟩ trivial
    have colon : eat ':' "expected a key" (b ++ byte ':' :: (a' ++ core ++ b') ++ rest) = .ok (a' ++ core ++ b' ++ rest) :=
      (eat_reads (by decide) _).mpr ⟨b, space, by simp⟩
    have valued : sl.read ("bad or repeated value for '" ++ key ++ "'") { d with seen := d.seen ||| bit } (a' ++ core ++ (b' ++ rest)) =
        .ok (d', b' ++ rest) :=
      (Slot.read_reads _ _ sl).complete ⟨a', core, blank', ⟨v, written, step⟩, rfl⟩ (noDigit_ends ends space' (by decide))
    have same : a ++ quote key ++ b ++ byte ':' :: (a' ++ core ++ b') ++ rest = a ++ quote key ++ (b ++ byte ':' :: (a' ++ core ++ b') ++ rest) := by
      simp
    rw [same, member, named]
    rw [List.append_assoc _ b'] at colon
    simp only [bind, Except.bind, colon, found, if_neg fresh, valued, ends.ws (by decide) space']
    rfl

/-! ### All the members -/

def keys : List String :=
  ["schema", "path_artifact_sha256", "mission_id", "run_index", "point_index", "completed_points", "state", "updated_utc"]

def Draft.fields (d : Draft) : List (String × Value) :=
  [("schema", .number d.schema), ("path_artifact_sha256", .string d.progress.pathArtifactSha256),
    ("mission_id", .number d.progress.missionId), ("run_index", .number d.progress.runIndex),
    ("point_index", .number d.progress.pointIndex), ("completed_points", .list d.progress.completedPoints),
    ("state", .string d.progress.state), ("updated_utc", .string d.progress.updatedUtc)]

theorem fields_keys (d : Draft) : d.fields.map Prod.fst = keys := rfl

/-- A key owns one field and one bit. -/
theorem slot_index {key : String} {bit : ℕ} {sl : Slot} (found : slot key = some (bit, sl)) :
    ∃ i < 8, bit = 2 ^ i ∧ keys[i]? = some key ∧
      ∀ d v d', sl.set d v = some d' → d'.seen = d.seen ∧ d'.fields = d.fields.set i (key, v) := by
  unfold slot at found
  refine ⟨keys.idxOf key, ?_⟩
  split_ifs at found
  all_goals
    subst key
    cases found
    refine ⟨by decide, by decide, by decide, ?_⟩
    rintro d (n | s | ns) d' set
    all_goals cases set
    exact ⟨rfl, rfl⟩

/-- The fields of a draft fill their slots. -/
theorem slot_fields {d : Draft} {member : String × Value} (inside : member ∈ d.fields) :
    ∃ bit sl, slot member.1 = some (bit, sl) ∧ ∀ e, ∃ e', sl.set e member.2 = some e' := by
  simp only [Draft.fields, List.mem_cons, List.not_mem_nil, or_false] at inside
  obtain rfl | rfl | rfl | rfl | rfl | rfl | rfl | rfl := inside
  all_goals exact ⟨_, _, rfl, fun e => ⟨_, rfl⟩⟩

/-- What is known of a draft when these members were read. -/
structure Recorded (members : List (String × Value)) (d : Draft) : Prop where
  distinct : (members.map Prod.fst).Nodup
  inside : ∀ member ∈ members, member ∈ d.fields
  bits : ∀ i, d.seen.testBit i = true ↔ ∃ member ∈ members, keys[i]? = some member.1

theorem and_two_pow {n i : ℕ} : n &&& 2 ^ i ≠ 0 ↔ n.testBit i = true := by
  rw [Nat.and_two_pow]
  cases n.testBit i <;> simp

theorem keys_nodup : keys.Nodup := by decide

theorem keys_inj {i j : ℕ} {key : String} (here : keys[i]? = some key) (there : keys[j]? = some key) : i = j := by
  obtain ⟨bound, -⟩ := List.getElem?_eq_some_iff.mp here
  exact (List.getElem?_inj bound keys_nodup).mp (here.trans there.symm)

/-- A field stays when another one is set. -/
theorem mem_set {d : Draft} {member : String × Value} (inside : member ∈ d.fields) {i : ℕ} (other : keys[i]? ≠ some member.1)
    (new : String × Value) : member ∈ d.fields.set i new := by
  obtain ⟨j, here⟩ := List.mem_iff_getElem?.mp inside
  have key : keys[j]? = some member.1 := by
    rw [← fields_keys d, List.getElem?_map, here]
    rfl
  refine List.mem_iff_getElem?.mpr ⟨j, ?_⟩
  rw [List.getElem?_set_ne fun same => other (by rw [same, key])]
  exact here

theorem Recorded.put {members : List (String × Value)} {d d' : Draft} {member : String × Value} (recorded : Recorded members d)
    (step : put d member = some d') : Recorded (members ++ [member]) d' := by
  obtain ⟨⟨bit, sl⟩, found, step⟩ := Option.bind_eq_some_iff.mp step
  obtain ⟨i, bound, rfl, key, sets⟩ := slot_index found
  dsimp only at step
  split at step
  · cases step
  rename_i fresh
  rw [and_two_pow] at fresh
  obtain ⟨seen, fields⟩ := sets _ _ _ step
  have new : ∀ old ∈ members, old.1 ≠ member.1 := fun old inside same =>
    fresh ((recorded.bits i).mpr ⟨old, inside, by rw [same]; exact key⟩)
  refine ⟨?_, ?_, ?_⟩
  · rw [List.map_append, List.nodup_append]
    refine ⟨recorded.distinct, List.nodup_singleton _, ?_⟩
    rintro k inside _ last rfl
    obtain ⟨old, was, rfl⟩ := List.mem_map.mp inside
    exact new old was (List.mem_singleton.mp last)
  · intro old inside
    rw [fields]
    obtain was | last := List.mem_append.mp inside
    · exact mem_set (recorded.inside old was) (fun same => new old was (Option.some.inj (same.symm.trans key))) _
    · rw [List.mem_singleton.mp last]
      exact List.mem_iff_getElem?.mpr ⟨i, List.getElem?_set_self bound⟩
  · intro j
    rw [seen, Nat.testBit_or, Bool.or_eq_true, recorded.bits, Nat.testBit_two_pow, decide_eq_true_iff]
    constructor
    · rintro (⟨old, was, there⟩ | rfl)
      · exact ⟨old, List.mem_append_left _ was, there⟩
      · exact ⟨member, List.mem_append_right _ (List.mem_singleton_self _), key⟩
    · rintro ⟨old, inside, there⟩
      obtain was | last := List.mem_append.mp inside
      · exact Or.inl ⟨old, was, there⟩
      · rw [List.mem_singleton.mp last] at there
        exact Or.inr (keys_inj key there)

theorem recorded_foldlM {members : List (String × Value)} {d : Draft} (steps : members.foldlM put {} = some d) : Recorded members d := by
  induction members using List.reverseRecOn generalizing d with
  | nil =>
    cases steps
    exact ⟨List.nodup_nil, nofun, fun i => by simp⟩
  | append_singleton members member ih =>
    rw [List.foldlM_append] at steps
    obtain ⟨mid, before, step⟩ := Option.bind_eq_some_iff.mp steps
    rw [List.foldlM_cons] at step
    obtain ⟨end_, last, rest⟩ := Option.bind_eq_some_iff.mp step
    cases rest
    exact (ih before).put last

theorem foldlM_some {e : Draft} {members : List (String × Value)} (inside : ∀ member ∈ members, member ∈ e.fields)
    (distinct : (members.map Prod.fst).Nodup) : ∃ d, members.foldlM put {} = some d := by
  induction members using List.reverseRecOn with
  | nil => exact ⟨_, rfl⟩
  | append_singleton members member ih =>
    rw [List.map_append, List.nodup_append] at distinct
    obtain ⟨d, before⟩ := ih (fun old was => inside old (List.mem_append_left _ was)) distinct.1
    obtain ⟨bit, sl, found, sets⟩ := slot_fields (inside member (by simp))
    obtain ⟨i, -, rfl, key, -⟩ := slot_index found
    have fresh : ¬d.seen &&& 2 ^ i ≠ 0 := by
      rw [and_two_pow, (recorded_foldlM before).bits]
      rintro ⟨old, was, same⟩
      refine distinct.2.2 old.1 (List.mem_map_of_mem was) member.1 (by simp) ?_
      exact Option.some.inj (same.symm.trans key)
    obtain ⟨d', set⟩ := sets { d with seen := d.seen ||| 2 ^ i }
    refine ⟨d', ?_⟩
    have step : put d member = some d' := by
      rw [put, found]
      exact (if_neg fresh).trans set
    rw [List.foldlM_append, before]
    exact foldlM_cons step rfl

end Reader

/-! ### Records -/

/-- The members of a record, in the order they are written. -/
def MissionProgress.members (p : MissionProgress) : List (String × Value) :=
  ({ schema := MissionProgress.schema, progress := p } : Draft).fields

structure MissionProgress.Valid (p : MissionProgress) : Prop where
  artifact : isLowerHex64 p.pathArtifactSha256 = true
  state : knownState p.state = true
  points : p.completedPoints = List.range p.completedPoints.length

/-- The numbers of the record are `uint32_t`. -/
structure MissionProgress.Fits (p : MissionProgress) : Prop where
  mission : p.missionId ≤ maxUint32
  run : p.runIndex ≤ maxUint32
  point : p.pointIndex ≤ maxUint32
  points : ∀ n ∈ p.completedPoints, n ≤ maxUint32

theorem accept_ok {d : Draft} {p : MissionProgress} :
    d.accept = .ok p ↔ d.seen = 255 ∧ d.schema = MissionProgress.schema ∧ d.progress = p ∧ p.Valid := by
  constructor
  · intro accepted
    unfold Draft.accept at accepted
    split_ifs at accepted with seen schema artifact state points
    cases accepted
    exact ⟨not_not.mp seen, not_not.mp schema, rfl, by simpa using artifact, by simpa using state, not_not.mp points⟩
  · rintro ⟨seen, schema, rfl, valid⟩
    unfold Draft.accept
    rw [if_neg (not_not.mpr seen), if_neg (not_not.mpr schema), if_neg (by simp [valid.artifact]), if_neg (by simp [valid.state]),
      if_neg (not_not.mpr valid.points)]

/-- With every bit set the members are the fields, in some order. -/
theorem Reader.Recorded.perm {members : List (String × Value)} {d : Draft} (recorded : Recorded members d) (seen : d.seen = 255) :
    members.Perm d.fields := by
  have apart : d.fields.Nodup := List.Nodup.of_map Prod.fst (by rw [fields_keys]; exact keys_nodup)
  refine (List.perm_ext_iff_of_nodup (List.Nodup.of_map _ recorded.distinct) apart).mpr fun member => ⟨recorded.inside member, fun inside => ?_⟩
  obtain ⟨j, here⟩ := List.mem_iff_getElem?.mp inside
  have key : keys[j]? = some member.1 := by
    rw [← fields_keys d, List.getElem?_map, here]
    rfl
  have bound : j < 8 := (List.getElem?_eq_some_iff.mp key).1
  have set : d.seen.testBit j = true := by
    rw [seen, show 255 = 2 ^ 8 - 1 from rfl, Nat.testBit_two_pow_sub_one]
    exact decide_eq_true bound
  obtain ⟨other, was, same⟩ := (recorded.bits j).mp set
  have one : other = member := List.inj_on_of_nodup_map (by rw [fields_keys]; exact keys_nodup) (recorded.inside other was) inside
    (Option.some.inj (same.symm.trans key))
  exact one ▸ was

/-- Members that are those of a record in some order give the record. -/
theorem foldlM_members {members : List (String × Value)} {p : MissionProgress} (perm : members.Perm p.members) :
    ∃ d, members.foldlM put {} = some d ∧ d.seen = 255 ∧ d.schema = MissionProgress.schema ∧ d.progress = p := by
  have named : (members.map Prod.fst).Perm keys := perm.map Prod.fst
  obtain ⟨d, steps⟩ := foldlM_some (fun member inside => perm.mem_iff.mp inside) (named.nodup_iff.mpr keys_nodup)
  have recorded := recorded_foldlM steps
  have seen : d.seen = 255 := by
    apply Nat.eq_of_testBit_eq
    intro i
    rw [show 255 = 2 ^ 8 - 1 from rfl, Nat.testBit_two_pow_sub_one, Bool.eq_iff_iff, recorded.bits, decide_eq_true_iff]
    constructor
    · rintro ⟨member, -, key⟩
      exact (List.getElem?_eq_some_iff.mp key).1
    · intro bound
      have inside : keys[i] ∈ members.map Prod.fst := named.mem_iff.mpr (List.getElem_mem bound)
      obtain ⟨member, was, same⟩ := List.mem_map.mp inside
      exact ⟨member, was, by rw [same]; exact List.getElem?_eq_getElem bound⟩
  have all : ∀ member ∈ p.members, member ∈ d.fields := fun member inside => recorded.inside member (perm.mem_iff.mpr inside)
  obtain ⟨schema, ⟨sha, mission, run, point, points, state, utc⟩, bits⟩ := d
  obtain ⟨sha', mission', run', point', points', state', utc'⟩ := p
  simp [MissionProgress.members, Draft.fields] at all
  exact ⟨_, steps, seen, by simp [all], by simp [all]⟩

theorem readProgress_ok {bytes : ByteString} {p : MissionProgress} :
    readProgress bytes = .ok p ↔ ∃ members, members.Perm p.members ∧ ObjectText members bytes ∧ p.Valid := by
  have opens : ∀ {member : String × Value} {text}, MemberText member text → ∃ c, (ws text).head? = some c ∧ c ≠ byte '\x7d' := by
    rintro member text ⟨_, value, core, ⟨a, b, blank, -, rfl⟩, -, -, rfl⟩
    refine ⟨byte '"', ?_, by decide⟩
    rw [List.append_assoc, List.append_assoc, ws_append blank, quote, List.cons_append, List.cons_append, ws_cons (by decide)]
    rfl
  have reads := @bracketed_reads String (String × Value) Draft (fun _ => "expected ','") _ _ _ _ member_reads (by decide) (by decide) opens {}
  constructor
  · intro read
    obtain ⟨s, opened, read⟩ := bind_ok read
    obtain ⟨⟨d, rest⟩, closed, taken⟩ := bind_ok read
    obtain ⟨a, blank, rfl⟩ := (eat_reads (by decide) _).mp opened
    obtain ⟨text, rfl, members, bracketed, steps⟩ := reads.sound closed
    dsimp only at taken
    split at taken
    · cases taken
    rename_i trailing
    obtain ⟨seen, schema, rfl, valid⟩ := accept_ok.mp taken
    have perm : members.Perm d.fields := (recorded_foldlM steps).perm seen
    refine ⟨members, ?_, ⟨text, bracketed, a, rest, blank, ?_, by simp⟩, valid⟩
    · rw [MissionProgress.members, ← schema]
      exact perm
    · obtain ⟨b, space, split⟩ := ws_split rest
      rw [not_not.mp trailing, List.append_nil] at split
      exact split ▸ space
  · rintro ⟨members, perm, ⟨text, bracketed, a, b, blank, space, rfl⟩, valid⟩
    obtain ⟨d, steps, seen, schema, same⟩ := foldlM_members perm
    have opened : eat '\x7b' "not a JSON object" (a ++ byte '\x7b' :: text ++ b) = .ok (text ++ b) :=
      (eat_reads (by decide) _).mpr ⟨a, blank, by simp⟩
    have closed : _ = Except.ok (d, b) := reads.complete ⟨members, bracketed, steps⟩ trivial
    have nothing : ws b = [] := by
      have whole := ws_append space []
      rwa [List.append_nil] at whole
    rw [readProgress, opened]
    simp only [bind, Except.bind, closed, nothing]
    exact accept_ok.mpr ⟨seen, schema, same, valid⟩

/-! ### What is written -/

theorem listed_points {ns : List ℕ} (some : ns ≠ []) (small : ∀ n ∈ ns, n ≤ maxUint32) :
    Listed PointText ns ((ns.map decimal).intersperse (ascii ",")).flatten := by
  induction ns with
  | nil => exact absurd rfl some
  | cons n ns ih =>
    obtain ⟨here, later⟩ := List.forall_mem_cons.mp small
    cases ns with
    | nil =>
      have one : Listed PointText [n] (decimal n) := .one ⟨here, .refl _⟩
      simpa using one
    | cons m ns =>
      have more : Listed PointText (n :: m :: ns) (decimal n ++ byte ',' :: (((m :: ns).map decimal).intersperse (ascii ",")).flatten) :=
        .more ⟨here, .refl _⟩ (ih (by simp) later)
      simpa [ascii] using more

theorem bracketed_points {ns : List ℕ} (small : ∀ n ∈ ns, n ≤ maxUint32) :
    Bracketed PointText (byte ']') ns (((ns.map decimal).intersperse (ascii ",")).flatten ++ [byte ']']) := by
  cases ns with
  | nil => exact Or.inl ⟨rfl, [], blank_nil, rfl⟩
  | cons n ns => exact Or.inr ⟨_, listed_points (by simp) small, rfl⟩

/-- A member as it is written, without whitespace. -/
theorem memberText_tight {key : String} {v : Value} {core : ByteString} (written : v.Text core) :
    MemberText (key, v) (quote key ++ byte ':' :: core) := ⟨_, _, core, .refl _, written, .refl _, rfl⟩

theorem plain_hex {s : String} (hex : isLowerHex64 s = true) : plainString s = true := by
  rw [isLowerHex64, Bool.and_eq_true] at hex
  refine List.all_eq_true.mpr fun c member => ?_
  have digit := List.all_eq_true.mp hex.2 c member
  simp only [Bool.or_eq_true, Bool.and_eq_true, decide_eq_true_eq, Char.le_def, UInt32.le_iff_toNat_le] at digit
  have range : 48 ≤ c.toNat ∧ c.toNat ≤ 57 ∨ 97 ≤ c.toNat ∧ c.toNat ≤ 102 := digit
  have ne : ∀ d : Char, d.toNat < 48 ∨ 57 < d.toNat ∧ d.toNat < 97 → c ≠ d := by
    rintro d apart rfl
    omega
  simp only [isPlain, Bool.not_eq_true', Bool.or_eq_false_iff, decide_eq_false_iff_not]
  exact ⟨⟨⟨by omega, by omega⟩, ne _ (by decide)⟩, ne _ (by decide)⟩

theorem serialize_text {p : MissionProgress} (writable : p.writable = true) (fits : p.Fits) : ObjectText p.members p.serialize := by
  rw [MissionProgress.writable, Bool.and_eq_true, Bool.and_eq_true] at writable
  obtain ⟨⟨hex, state⟩, utc⟩ := writable
  have points : (Value.list p.completedPoints).Text
      (byte '[' :: (((p.completedPoints.map decimal).intersperse (ascii ",")).flatten ++ [byte ']'])) :=
    ⟨_, bracketed_points fits.points, rfl⟩
  have listed : Listed MemberText p.members _ :=
    .more (memberText_tight (v := .number MissionProgress.schema) ⟨by decide, rfl⟩) <|
    .more (memberText_tight (v := .string p.pathArtifactSha256) ⟨plain_hex hex, rfl⟩) <|
    .more (memberText_tight (v := .number p.missionId) ⟨fits.mission, rfl⟩) <|
    .more (memberText_tight (v := .number p.runIndex) ⟨fits.run, rfl⟩) <|
    .more (memberText_tight (v := .number p.pointIndex) ⟨fits.point, rfl⟩) <|
    .more (memberText_tight points) <|
    .more (memberText_tight (v := .string p.state) ⟨state, rfl⟩) <|
    .one (memberText_tight (v := .string p.updatedUtc) ⟨utc, rfl⟩)
  refine ⟨_, Or.inr ⟨_, listed, rfl⟩, [], [byte '\n'], blank_nil, by decide, ?_⟩
  have schema : ascii "\x7b\"schema\":" = byte '\x7b' :: quote "schema" ++ [byte ':'] := by decide
  have sha : ascii ",\"path_artifact_sha256\":\"" = byte ',' :: quote "path_artifact_sha256" ++ [byte ':', byte '"'] := by decide
  have mission : ascii "\",\"mission_id\":" = byte '"' :: byte ',' :: quote "mission_id" ++ [byte ':'] := by decide
  have run : ascii ",\"run_index\":" = byte ',' :: quote "run_index" ++ [byte ':'] := by decide
  have point : ascii ",\"point_index\":" = byte ',' :: quote "point_index" ++ [byte ':'] := by decide
  have list : ascii ",\"completed_points\":[" = byte ',' :: quote "completed_points" ++ [byte ':', byte '['] := by decide
  have state : ascii "],\"state\":\"" = byte ']' :: byte ',' :: quote "state" ++ [byte ':', byte '"'] := by decide
  have utc : ascii "\",\"updated_utc\":\"" = byte '"' :: byte ',' :: quote "updated_utc" ++ [byte ':', byte '"'] := by decide
  have close : ascii "\"\x7d\n" = [byte '"', byte '\x7d', byte '\n'] := by decide
  rw [MissionProgress.serialize, schema, sha, mission, run, point, list, state, utc, close]
  simp only [quote, List.append_assoc, List.cons_append, List.nil_append]

/-- The reader takes exactly the JSON objects with the members of a valid record, each once and in any order, and gives that
record; among them is what the writer emits. A refused text leaves the record as it was. -/
theorem progress_records :
    (∀ p : MissionProgress, p.writable = true → p.Fits → knownState p.state = true →
      p.completedPoints = List.range p.completedPoints.length → ∀ out, parseProgress p.serialize out = (p, none)) ∧
    (∀ bytes out p, parseProgress bytes out = (p, none) ↔
      ∃ members, members.Perm p.members ∧ ObjectText members bytes ∧ p.Valid) ∧
    ∀ bytes out q why, parseProgress bytes out = (q, some why) → q = out := by
  have accepts : ∀ bytes out p, parseProgress bytes out = (p, none) ↔ readProgress bytes = .ok p := by
    intro bytes out p
    rw [parseProgress]
    cases readProgress bytes <;> simp
  refine ⟨fun p writable fits state points out => ?_, fun bytes out p => ?_, fun bytes out q why refused => ?_⟩
  · have hex : isLowerHex64 p.pathArtifactSha256 = true := by
      rw [MissionProgress.writable, Bool.and_eq_true, Bool.and_eq_true] at writable
      exact writable.1.1
    exact (accepts _ _ _).mpr (readProgress_ok.mpr ⟨_, .refl _, serialize_text writable fits, hex, state, points⟩)
  · rw [accepts, readProgress_ok]
  · rw [parseProgress] at refused
    split at refused
    · cases refused
    · cases refused
      rfl

end Dyx3.Mission
