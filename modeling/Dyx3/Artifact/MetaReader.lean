import Dyx3.Artifact.CanonicalJson
import Dyx3.Lib.DoubleOrder

/-!
`MetaReader` (dyx3_mission, frame_placement): a second, simpler JSON reader for a `meta` that was already verified. It
sees a canonical value as it is, unless the value holds an integer that is too large for a double.
-/

namespace Dyx3.Artifact

open Lib Json

/-- An object is the source text from its `{` on. -/
inductive JsonValue where
  | null
  | bool
  | number (x : Double)
  | string (text : Bytes)
  | object (begin : Bytes)
  | other

/-! ### The reader -/

namespace MetaReader

/-- A string after its opening quote. Escapes are kept verbatim: only plain ASCII keys and values are compared. -/
def string : Bytes → Option (Bytes × Bytes)
  | [] => none
  | '"' :: t => some ([], t)
  | '\\' :: e :: t => (string t).map fun r => ('\\' :: e :: r.1, r.2)
  | c :: t => (string t).map fun r => (c :: r.1, r.2)

/-- `"key":` -/
def key (s : Bytes) : Option (Bytes × Bytes) := do
  let s ← afterWord ['"'] s
  let (key, s) ← string s
  let s ← afterWord [':'] s
  some (key, s)

/-- The token is as long as its characters may occur in a number. -/
def number (s : Bytes) : Option (JsonValue × Bytes) :=
  (parseDouble (s.takeWhile Spelling.isNumberChar)).map fun x => (.number x, s.dropWhile Spelling.isNumberChar)

/-- One member of a container that is skipped. -/
def skipMember (value : Bytes → Option (JsonValue × Bytes)) (isObject : Bool) : ItemReader Unit := fun _ s => do
  let s ← if isObject then (key s).map (·.2) else some s
  let (_, s) ← value s
  some ((), s)

/-- A value with so many levels left; objects and arrays are skipped. -/
def value : ℕ → Bytes → Option (JsonValue × Bytes)
  | 0, _ => none
  | levels + 1, s =>
    match s with
    | [] => none
    | c :: t =>
      if c = '{' then (readSequence (skipMember (value levels) true) '}' () t).map fun r => (.object s, r.2)
      else if c = '[' then (readSequence (skipMember (value levels) false) ']' () t).map fun r => (.other, r.2)
      else if c = '"' then (string t).map fun r => (.string r.1, r.2)
      else
        ((afterWord "null".toList s).map fun t => (JsonValue.null, t)).or
          (((afterWord "true".toList s).or (afterWord "false".toList s)).map fun t => (JsonValue.bool, t)) |>.or (number s)

section

variable {σ : Type}

def noteMember (note : σ → Bytes → JsonValue → Option σ) : ItemReader σ := fun acc s => do
  let (key, s) ← key s
  let (v, s) ← value (64 + 1) s
  let acc ← note acc key v
  some (acc, s)

/-- Every top-level member of the object that `s` starts with is noted. -/
def object (note : σ → Bytes → JsonValue → Option σ) (acc : σ) (s : Bytes) : Option σ := do
  let s ← afterWord ['{'] s
  (readSequence (noteMember note) '}' acc s).map (·.1)

end

end MetaReader

/-! ### Numbers -/

/-- A number as a double. -/
def toDouble : Json → Option Double
  | .int i => some (.ofInt i)
  | .float x => some x
  | _ => none

/-- No integer overflows a double. -/
def numbersFit (v : Json) : Bool :=
  v.leaves.all fun leaf => match leaf with
    | .int i => (Double.ofInt i).isFinite
    | _ => true

/-! ### Reading canonical text -/

namespace MetaReader

theorem string_plain {c : Char} {t : Bytes} (quote : c ≠ '"') (slash : c ≠ '\\') :
    string (c :: t) = (string t).map fun r => (c :: r.1, r.2) := by
  rw [string]
  · exact quote
  · exact fun _ _ same _ => slash same

theorem hexDigit_plain : ∀ d < 16, Nat.digitChar d ≠ '"' ∧ Nat.digitChar d ≠ '\\' := by decide

theorem string_unit {u : ℕ} (small : u < 0x10000) (t : Bytes) :
    string (unitText u ++ t) = (string t).map fun r => (unitText u ++ r.1, r.2) := by
  have hex {d : ℕ} (digit : d < 16) (t : Bytes) :
      string (Nat.digitChar d :: t) = (string t).map fun r => (Nat.digitChar d :: r.1, r.2) :=
    string_plain (hexDigit_plain d digit).1 (hexDigit_plain d digit).2
  have first : u / 0x1000 < 16 := by omega
  have second : u / 0x100 % 0x10 < 16 := by omega
  have third : u / 0x10 % 0x10 < 16 := by omega
  have fourth : u % 0x10 < 16 := by omega
  simp only [unitText, hexText, List.cons_append, List.nil_append, string, hex first, hex second, hex third, hex fourth,
    Option.map_map]
  rfl

theorem string_escapeChar (c : ℕ) (t : Bytes) :
    string (escapeChar c ++ t) = (string t).map fun r => (escapeChar c ++ r.1, r.2) := by
  have written := escapeChar_escaped c
  generalize escapeChar c = text at written ⊢
  cases written with
  | short _ => rfl
  | plain none printable =>
    exact string_plain (plain_ne none printable rfl) (plain_ne none printable rfl)
  | unit _ _ small => exact string_unit small t
  | pair _ =>
    rw [List.append_assoc, string_unit (by omega), string_unit (by omega), Option.map_map]
    simp only [Function.comp_def, List.append_assoc]

theorem string_escape (s : Str) (rest : Bytes) : string (escape s ++ '"' :: rest) = some (escape s, rest) := by
  induction s with
  | nil => rfl
  | cons c s ih =>
    simp only [escape, List.flatMap_cons, List.append_assoc] at ih ⊢
    rw [string_escapeChar, ih]
    rfl

theorem strtod_int (i : ℤ) : strtod (Json.int i).dumps = some (.ofInt i, []) := by
  have written := int_text i
  have mantissa : ({ int := Nat.toDigits 10 i.natAbs } : Spelling).mantissa = i.natAbs := by
    rw [Spelling.mantissa, List.append_nil, Nat.ofDigitChars_ten_toDigits]
  rw [written.text, strtod_text written.ok, mantissa]
  rfl

theorem follows_notNumber {rest : Bytes} (follows : Follows rest) :
    rest.takeWhile Spelling.isNumberChar = [] ∧ rest.dropWhile Spelling.isNumberChar = rest := by
  cases rest with
  | nil => exact ⟨rfl, rfl⟩
  | cons c t =>
    rcases follows c rfl with rfl | rfl | rfl <;> exact ⟨rfl, rfl⟩

theorem number_text {v : Json} {neg : Bool} {sp : Spelling} (written : NumberText v neg sp) {x : Double}
    (read : strtod v.dumps = some (x, [])) {rest : Bytes} (follows : Follows rest) :
    number (v.dumps ++ rest) = if x.isFinite then some (.number x, rest) else none := by
  have chars : ∀ c ∈ v.dumps, Spelling.isNumberChar c = true := by
    rw [written.text]
    exact Spelling.signed_chars written.ok neg
  have some : v.dumps ≠ [] := by
    obtain ⟨c, t, head, _⟩ := written.head
    rw [head]
    exact List.cons_ne_nil c t
  obtain ⟨stop, left⟩ := follows_notNumber follows
  rw [number, List.takeWhile_append_of_pos chars, List.dropWhile_append_of_pos chars, stop, left, List.append_nil, parseDouble,
    if_neg some, read]
  dsimp only
  split <;> rfl

end MetaReader

theorem numbersFit_plain {v : Json} (arr : ∀ items, v ≠ .arr items) (obj : ∀ fields, v ≠ .obj fields) (int : ∀ i, v ≠ .int i) :
    numbersFit v = true := by
  have single : v.leaves = [v] := by
    rw [leaves]
    · exact arr
    · exact obj
  rw [numbersFit, single]
  cases v with
  | int i => exact absurd rfl (int i)
  | _ => rfl

theorem numbersFit_arr (items : List Json) : numbersFit (.arr items) = items.all numbersFit := by
  rw [numbersFit, leaves_arr, List.all_flatten, List.all_map]
  rfl

theorem numbersFit_obj (fields : List (Str × Json)) : numbersFit (.obj fields) = fields.all fun kv => numbersFit kv.2 := by
  rw [numbersFit, leaves_obj, List.all_flatten, List.all_map]
  rfl

/-- What is read of a value. -/
inductive Sees : Json → JsonValue → Prop
  | null : Sees .null .null
  | bool (b : Bool) : Sees (.bool b) .bool
  | number {v : Json} {x : Double} : toDouble v = some x → Sees v (.number x)
  | string (s : Str) : Sees (.str s) (.string (escape s))
  | arr (items : List Json) : Sees (.arr items) .other
  | obj (fields : List (Str × Json)) (rest : Bytes) : Sees (.obj fields) (.object ((Json.obj fields).dumps ++ rest))

/-- The value, unless it holds a number that does not fit. -/
def fitting (v : Json) : Option Json := if numbersFit v then some v else none

namespace MetaReader

/-- What `value` does on the text of `v`. -/
def ReadsValue (levels : ℕ) (v : Json) : Prop :=
  ∀ rest, Follows rest →
    Option.Rel (fun v b => Sees v b.1 ∧ b.2 = rest) (fitting v) (value levels (v.dumps ++ rest))

theorem key_fieldText (kv : Str × Json) (rest : Bytes) : key (fieldText kv ++ rest) = some (escape kv.1, kv.2.dumps ++ rest) := by
  rw [CanonicalJson.fieldText_eq]
  simp only [key, afterWord_cons, string_escape, Option.bind_eq_bind, Option.bind_some]

/-- Skipping is all or nothing. -/
theorem foldlM_skip {α : Type} (fits : α → Bool) (xs : List α) :
    xs.foldlM (fun (_ : Unit) x => if fits x then some () else none) () = if xs.all fits then some () else none := by
  induction xs with
  | nil => rfl
  | cons x xs ih =>
    rw [List.foldlM_cons, List.all_cons]
    cases fits x with
    | true => exact ih
    | false => rfl

theorem skip_takes {levels : ℕ} {v : Json} (reads : ReadsValue levels v) {rest : Bytes} (follows : Follows rest) :
    (do let (_, s) ← value levels (v.dumps ++ rest); some ((), s)) =
      (if numbersFit v then some () else none).map (·, rest) := by
  have read := reads rest follows
  rw [fitting] at read
  split at read
  · rename_i fits
    generalize value levels (v.dumps ++ rest) = out at read ⊢
    cases read with
    | some both =>
      rename_i b
      obtain ⟨j, s⟩ := b
      obtain ⟨_, rfl⟩ := both
      rw [if_pos fits]
      rfl
  · rename_i large
    generalize value levels (v.dumps ++ rest) = out at read ⊢
    cases read with
    | none =>
      rw [if_neg large]
      rfl

theorem value_number {v : Json} {neg : Bool} {sp : Spelling} (written : NumberText v neg sp) {levels : ℕ} {rest : Bytes} :
    value (levels + 1) (v.dumps ++ rest) = number (v.dumps ++ rest) := by
  obtain ⟨c, t, head, start⟩ := written.head
  have other : ∀ d, d ∈ "\x7b[\"tfn".toList → c ≠ d := by
    intro d member
    have all : ("\x7b[\"tfn".toList.all fun d => d != '-' && !d.isDigit) = true := by decide
    have letter : d ≠ '-' ∧ d.isDigit = false := by simpa using List.all_eq_true.mp all d member
    rcases start with rfl | digit
    · exact letter.1.symm
    · exact digit_ne digit letter.2
  have words : ∀ word ∈ ["null", "true", "false"], afterWord word.toList (c :: (t ++ rest)) = none := by
    intro word member
    refine afterWord_none fun same => ?_
    have start := congrArg List.head? same
    simp only [List.mem_cons, List.not_mem_nil, or_false] at member
    rcases member with rfl | rfl | rfl
    · exact other 'n' (by decide) (Option.some.inj start)
    · exact other 't' (by decide) (Option.some.inj start)
    · exact other 'f' (by decide) (Option.some.inj start)
  rw [head, List.cons_append]
  simp only [value, if_neg (other '{' (by decide)), if_neg (other '[' (by decide)), if_neg (other '"' (by decide)),
    words "null" (by decide), words "true" (by decide), words "false" (by decide), Option.map_none, Option.none_or]

/-- The reader sees a canonical value as it is, unless a number in it does not fit. -/
theorem value_reads {levels : ℕ} {v : Json} (canonical : Canonical levels v) {more : ℕ} (within : levels ≤ more) :
    ReadsValue more v := by
  induction levels generalizing v more with
  | zero => exact canonical.elim
  | succ levels ih =>
    obtain ⟨more, rfl⟩ : ∃ n, more = n + 1 := ⟨more - 1, by omega⟩
    intro rest follows
    cases v with
    | null =>
      have read : value (more + 1) (Json.null.dumps ++ rest) = some (.null, rest) := by
        rw [dumps]
        rfl
      have fits : numbersFit .null = true := numbersFit_plain (by simp) (by simp) (by simp)
      rw [read, fitting, if_pos fits]
      exact .some ⟨.null, rfl⟩
    | bool b =>
      have read : value (more + 1) ((Json.bool b).dumps ++ rest) = some (.bool, rest) := by
        rw [dumps]
        cases b <;> rfl
      have fits : numbersFit (.bool b) = true := numbersFit_plain (by simp) (by simp) (by simp)
      rw [read, fitting, if_pos fits]
      exact .some ⟨.bool b, rfl⟩
    | int i =>
      have fits : numbersFit (.int i) = (Double.ofInt i).isFinite := by
        rw [numbersFit, leaves_int]
        exact Bool.and_true _
      rw [value_number (int_text i), number_text (int_text i) (strtod_int i) follows, fitting, fits]
      split
      · exact .some ⟨.number rfl, rfl⟩
      · exact .none
    | float x =>
      obtain ⟨sp, written⟩ := float_text canonical
      have read : strtod (Json.float x).dumps = some (x, []) := by
        rw [dumps]
        exact strtod_repr canonical
      have finite : x.isFinite = true := canonical
      have fits : numbersFit (.float x) = true := numbersFit_plain (by simp) (by simp) (by simp)
      rw [value_number written, number_text written read follows, fitting, if_pos fits, if_pos finite]
      exact .some ⟨.number rfl, rfl⟩
    | str s =>
      have text : (Json.str s).dumps ++ rest = '"' :: (escape s ++ '"' :: rest) := by
        rw [dumps]
        simp [quote]
      have fits : numbersFit (.str s) = true := numbersFit_plain (by simp) (by simp) (by simp)
      rw [text, fitting, if_pos fits]
      simp only [value, string_escape]
      exact .some ⟨.string s, rfl⟩
    | arr items =>
      have text : (Json.arr items).dumps ++ rest = '[' :: (commas (items.map dumps) ++ ']' :: rest) := by
        rw [dumps_arr]
        simp
      have takes : ∀ v ∈ items, Takes (skipMember (value more) false) ']' dumps
          (fun _ v => if numbersFit v then some () else none) v := fun v member _ c rest mark =>
        skip_takes (ih (canonical v member) (by omega)) (follows_cons (.inl rfl) mark rest)
      have starts : ∀ v ∈ items, ∃ c t, v.dumps = c :: t ∧ c ≠ ']' := by
        intro v member
        obtain ⟨c, t, head, opens⟩ := dumps_head (canonical v member)
        exact ⟨c, t, head, opens.ne (by decide) rfl⟩
      have read : readSequence (skipMember (value more) false) ']' () (commas (items.map dumps) ++ ']' :: rest) =
          (items.foldlM (fun _ v => if numbersFit v then some () else none) ()).map (·, rest) :=
        readSequence_commas (by decide) starts takes
      rw [text, fitting, numbersFit_arr]
      simp only [value, read, foldlM_skip]
      split
      · exact .some ⟨.arr items, rfl⟩
      · exact .none
    | obj fields =>
      obtain ⟨sorted, fine⟩ := canonical
      have text : (Json.obj fields).dumps ++ rest = '{' :: (commas (fields.map fieldText) ++ '}' :: rest) := by
        rw [dumps_obj sorted]
        simp
      have takes : ∀ kv ∈ fields, Takes (skipMember (value more) true) '}' fieldText
          (fun _ kv => if numbersFit kv.2 then some () else none) kv := by
        intro kv member _ c rest mark
        have read := skip_takes (ih (fine kv member).2 (show levels ≤ more by omega)) (follows_cons (.inr rfl) mark rest)
        simp only [skipMember, if_true, key_fieldText, Option.map_some, Option.bind_eq_bind, Option.bind_some]
        exact read
      have starts : ∀ kv ∈ fields, ∃ c t, fieldText kv = c :: t ∧ c ≠ '}' := fun kv _ => ⟨'"', _, rfl, by decide⟩
      have read : readSequence (skipMember (value more) true) '}' () (commas (fields.map fieldText) ++ '}' :: rest) =
          (fields.foldlM (fun _ kv => if numbersFit kv.2 then some () else none) ()).map (·, rest) :=
        readSequence_commas (by decide) starts takes
      have seen : Sees (.obj fields) (.object ('{' :: (commas (fields.map fieldText) ++ '}' :: rest))) := by
        rw [← text]
        exact .obj fields rest
      rw [text, fitting, numbersFit_obj]
      simp only [value, read, foldlM_skip]
      split
      · exact .some ⟨seen, rfl⟩
      · exact .none

section

variable {σ τ : Type} {Rel : τ → σ → Prop} {note : σ → Bytes → JsonValue → Option σ} {step : τ → Str × Json → Option τ}
  {fields : List (Str × Json)}

/-- A member whose numbers fit. -/
def fittingStep (step : τ → Str × Json → Option τ) (acc : τ) (kv : Str × Json) : Option τ :=
  if numbersFit kv.2 then step acc kv else none

/-- Noting the members of an object while it is read is noting them one after the other. -/
theorem object_reads {levels : ℕ} (canonical : Canonical (levels + 1) (.obj fields)) (within : levels ≤ 64 + 1)
    (notes : ∀ kv ∈ fields, ∀ acc acc' j, Rel acc acc' → Sees kv.2 j →
      Option.Rel Rel (step acc kv) (note acc' (escape kv.1) j))
    {acc : τ} {acc' : σ} (related : Rel acc acc') (rest : Bytes) :
    Option.Rel Rel (fields.foldlM (fittingStep step) acc) (object note acc' ((Json.obj fields).dumps ++ rest)) := by
  obtain ⟨sorted, fine⟩ := canonical
  have text : (Json.obj fields).dumps ++ rest = '{' :: (commas (fields.map fieldText) ++ '}' :: rest) := by
    rw [dumps_obj sorted]
    simp
  have mirrors : ∀ kv ∈ fields, Mirrors Rel (noteMember note) '}' fieldText (fittingStep step) kv := by
    intro kv member acc acc' c rest related mark
    have read := value_reads (fine kv member).2 within (c :: rest) (follows_cons (.inr rfl) mark rest)
    simp only [noteMember, key_fieldText, Option.bind_eq_bind, Option.bind_some]
    rw [fitting] at read
    rw [fittingStep]
    split at read
    · rename_i fits
      generalize value (64 + 1) (kv.2.dumps ++ c :: rest) = out at read ⊢
      cases read with
      | some both =>
        rename_i b
        obtain ⟨j, s⟩ := b
        obtain ⟨sees, rfl⟩ := both
        have noted := notes kv member acc acc' j related sees
        rw [if_pos fits, Option.bind_some]
        dsimp only
        generalize step acc kv = left at noted ⊢
        generalize note acc' (escape kv.1) j = right at noted ⊢
        cases noted with
        | none => exact .none
        | some related => exact .some ⟨related, rfl⟩
    · rename_i large
      generalize value (64 + 1) (kv.2.dumps ++ c :: rest) = out at read ⊢
      cases read with
      | none =>
        rw [if_neg large]
        exact .none
  have starts : ∀ kv ∈ fields, ∃ c t, fieldText kv = c :: t ∧ c ≠ '}' := fun kv _ => ⟨'"', _, rfl, by decide⟩
  have read : Option.Rel (fun a b => Rel a b.1 ∧ b.2 = rest) (fields.foldlM (fittingStep step) acc)
      (readSequence (noteMember note) '}' acc' (commas (fields.map fieldText) ++ '}' :: rest)) :=
    readSequence_mirrors (by decide) related starts mirrors
  rw [text]
  simp only [object, afterWord_cons, Option.bind_eq_bind, Option.bind_some]
  generalize fields.foldlM (fittingStep step) acc = left at read ⊢
  generalize readSequence (noteMember note) '}' acc' _ = right at read ⊢
  cases read with
  | none => exact .none
  | some both => exact .some both.1

end

end MetaReader

end Dyx3.Artifact
