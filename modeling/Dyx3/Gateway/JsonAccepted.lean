import Dyx3.Gateway.JsonGrammar

/-!
What `parse_json` accepts: the texts of the grammar, with the value they mean.
-/

namespace Dyx3.Gateway

open Lib Lib.ByteReader

namespace P

theorem lit_append (w : String) (rest : ByteString) : lit w (ascii w ++ rest) = some rest := by
  rw [lit, List.take_left, if_pos rfl, List.drop_left]

theorem word_sound {w : String} {v v' : JsonValue} {s rest : ByteString} (read : word w v s = .ok (v', rest)) : v' = v ∧ s = ascii w ++ rest := by
  rw [word] at read
  split at read
  · cases read
  · rename_i t found
    cases read
    rw [lit] at found
    split_ifs at found with front
    cases found
    exact ⟨rfl, by conv_lhs => rw [← List.take_append_drop (ascii w).length s, front]⟩

theorem word_complete (w : String) (v : JsonValue) (rest : ByteString) : word w v (ascii w ++ rest) = .ok (v, rest) := by
  rw [word, lit_append]

/-! ### Items -/

def push (a : List JsonValue) (v : JsonValue) : Option (List JsonValue) := some (a ++ [v])

def pushMember (o : List (ByteString × JsonValue)) (kv : ByteString × JsonValue) : Option (List (ByteString × JsonValue)) :=
  if kv.1 ∈ o.map Prod.fst then none else some (o ++ [kv])

theorem pushMember_all {o o' kvs : List (ByteString × JsonValue)} (distinct : (o.map Prod.fst).Nodup) :
    kvs.foldlM pushMember o = some o' ↔ o' = o ++ kvs ∧ ((o ++ kvs).map Prod.fst).Nodup := by
  induction kvs generalizing o with
  | nil =>
    rw [List.foldlM_nil, List.append_nil]
    exact ⟨fun same => ⟨(Option.some.inj same).symm, distinct⟩, fun same => by rw [same.1]; rfl⟩
  | cons kv kvs ih =>
    have shift : o ++ kv :: kvs = o ++ [kv] ++ kvs := by simp
    rw [List.foldlM_cons, pushMember]
    split
    · rename_i here
      refine ⟨fun impossible => (by cases impossible), fun both => ?_⟩
      have apart := both.2
      rw [List.map_append, List.nodup_append] at apart
      exact absurd rfl (apart.2.2 kv.1 here kv.1 List.mem_cons_self)
    · rename_i new
      have more : ((o ++ [kv]).map Prod.fst).Nodup := by
        rw [List.map_append, List.nodup_append]
        refine ⟨distinct, by simp, ?_⟩
        rintro k member k' here rfl
        rw [List.map_singleton, List.mem_singleton] at here
        exact new (here ▸ member)
      rw [shift]
      exact ih more

theorem pushMember_object {o kvs : List (ByteString × JsonValue)} : kvs.foldlM pushMember [] = some o ↔ o = kvs ∧ (kvs.map Prod.fst).Nodup := by
  have all := @pushMember_all [] o kvs List.nodup_nil
  rwa [List.nil_append] at all

theorem numberStops_ends {close : UInt8} {rest b : ByteString} (ends : Ends close rest) (blank : Blank b)
    (mark : isDigit close = false ∧ close ≠ byte '.' ∧ close ≠ byte 'e' ∧ close ≠ byte 'E') : NumberStops (b ++ rest) := by
  intro c next
  obtain space | rfl | rfl := ends.next blank next
  · simp only [isWs, Bool.or_eq_true, decide_eq_true_eq] at space
    obtain ((rfl | rfl) | rfl) | rfl := space <;> decide
  · decide
  · exact mark

/-- The first byte of a value. -/
def Opens (core : ByteString) : Prop := ∃ c t, core = c :: t ∧ isWs c = false ∧ c ≠ byte ']'

theorem Opens.ws {core : ByteString} (opens : Opens core) {a : ByteString} (blank : Blank a) (rest : ByteString) :
    ByteReader.ws (a ++ core ++ rest) = core ++ rest := by
  obtain ⟨c, t, rfl, mark, -⟩ := opens
  rw [List.append_assoc, ws_append blank]
  exact ws_cons mark _

/-- A value with whitespace in front. -/
def LedText (V : JsonValue → ByteString → Prop) (v : JsonValue) (text : ByteString) : Prop := ∃ a core, Blank a ∧ V v core ∧ text = a ++ core

section

variable {read : ByteString → Except JsonError (JsonValue × ByteString)} {V : JsonValue → ByteString → Prop}
  (reads : Reads read (LedText V) NumberStops)

include reads

theorem element_reads (opens : ∀ {v core}, V v core → Opens core) (acc : List JsonValue) : Reads (element read acc) (Puts (ElementText V) push acc) (Ends (byte ']')) where
  sound := by
    intro s acc' rest taken
    obtain ⟨⟨child, t⟩, value, last⟩ := bind_ok taken
    cases last
    obtain ⟨_, split, a, core, blank, written, rfl⟩ := reads.sound value
    obtain ⟨b, space, rest⟩ := ws_split t
    obtain ⟨lead, led, front⟩ : ∃ lead, Blank lead ∧ s = lead ++ if acc.isEmpty then ws s else s := by
      split
      · exact ws_split s
      · exact ⟨[], blank_nil, rfl⟩
    refine ⟨(lead ++ a) ++ core ++ b, ?_, child, ⟨core, written, lead ++ a, b, ?_, space, rfl⟩, rfl⟩
    · rw [front, split]
      conv_lhs => rw [rest]
      simp only [List.append_assoc]
    · intro c member
      rcases List.mem_append.mp member with member | member
      · exact led c member
      · exact blank c member
  complete := by
    rintro _ _ rest ⟨child, ⟨core, written, a, b, blank, space, rfl⟩, ⟨⟩⟩ ends
    have stops : NumberStops (b ++ rest) := numberStops_ends ends space (by decide)
    have value : read (if acc.isEmpty then ws (a ++ core ++ b ++ rest) else a ++ core ++ b ++ rest) = .ok (child, b ++ rest) := by
      rw [List.append_assoc _ b, (opens written).ws blank]
      split
      · exact reads.complete ⟨[], core, blank_nil, written, rfl⟩ stops
      · exact reads.complete ⟨a, core, blank, written, rfl⟩ stops
    rw [element, value]
    simp only [bind, Except.bind, ends.ws (by decide) space]
    rfl

theorem member_reads (acc : List (ByteString × JsonValue)) :
    Reads (member read acc) (Puts (MemberText V) pushMember acc) (Ends (byte '\x7d')) where
  sound := by
    intro s acc' rest taken
    obtain ⟨a, blank, split⟩ := ws_split s
    rw [member] at taken
    dsimp only at taken
    split at taken
    · cases taken
    obtain ⟨⟨key, t⟩, named, more⟩ := bind_ok taken
    dsimp only at more
    split at more
    · cases more
    rename_i new
    split at more
    · cases more
    rename_i colon
    obtain ⟨⟨child, u⟩, value, last⟩ := bind_ok more
    cases last
    obtain ⟨name, front, string⟩ := string_reads.sound named
    obtain ⟨p, before, middle⟩ := ws_split t
    obtain ⟨q, opened⟩ := List.head?_eq_some_iff.mp (not_not.mp colon)
    rw [opened, List.tail_cons] at value
    obtain ⟨_, back, led, core, after, written, rfl⟩ := reads.sound value
    obtain ⟨b, space, rest⟩ := ws_split u
    refine ⟨a ++ name ++ p ++ byte ':' :: (led ++ core ++ b), ?_, (key, child),
      ⟨name, a ++ name ++ p, led ++ core ++ b, string, ⟨a, p, blank, before, rfl⟩, ⟨core, written, led, b, after, space, rfl⟩, rfl⟩, ?_⟩
    · rw [split, front, middle, opened, back]
      conv_lhs => rw [rest]
      simp only [List.append_assoc, List.cons_append]
    · rw [pushMember, if_neg]
      simpa using new
  complete := by
    rintro _ _ rest ⟨⟨key, child⟩, ⟨name, _, _, string, ⟨a, p, blank, before, rfl⟩, ⟨core, written, q, b, after, space, rfl⟩, rfl⟩, put⟩ ends
    dsimp only at string written
    rw [pushMember] at put
    split_ifs at put with new
    cases put
    have quote : Opens name := by
      obtain ⟨_, t, -, -, rfl⟩ := string
      exact ⟨_, t, rfl, by decide, by decide⟩
    have head : (name ++ (p ++ byte ':' :: (q ++ core ++ b) ++ rest)).head? = some (byte '"') := by
      obtain ⟨_, t, -, -, rfl⟩ := string
      rfl
    have named : P.string (name ++ (p ++ byte ':' :: (q ++ core ++ b) ++ rest)) = .ok (key, p ++ byte ':' :: (q ++ core ++ b) ++ rest) :=
      string_reads.complete string trivial
    have colon : ws (p ++ byte ':' :: (q ++ core ++ b) ++ rest) = byte ':' :: (q ++ core ++ (b ++ rest)) := by
      rw [List.append_assoc, ws_append before, List.cons_append, ws_cons (by decide)]
      simp only [List.append_assoc]
    have value : read (q ++ core ++ (b ++ rest)) = .ok (child, b ++ rest) :=
      reads.complete ⟨q, core, after, written, rfl⟩ (numberStops_ends ends space (by decide))
    have start : ws (a ++ name ++ p ++ byte ':' :: (q ++ core ++ b) ++ rest) = name ++ (p ++ byte ':' :: (q ++ core ++ b) ++ rest) := by
      rw [← quote.ws blank]
      simp only [List.append_assoc]
    have other : ¬acc.any (fun kv => kv.1 = key) = true := by
      simpa using new
    rw [member, start]
    simp only [head, ne_eq, not_true, if_false, bind, Except.bind, named, if_neg other, colon, List.head?_cons, List.tail_cons, value,
      ends.ws (by decide) space]
    rfl

end

/-! ### Values -/

theorem NumberText.head {x : Double} {i : Option ℤ} {text : ByteString} (number : NumberText x i text) :
    ∃ c t, text = c :: t ∧ (c = byte '-' ∨ isDigit c = true) := by
  obtain ⟨-, n, ok, rfl, -, -⟩ := number
  obtain ⟨c, t, head, digit⟩ := unsigned_digit ok
  rw [Numeral.text, head]
  cases n.neg with
  | true => exact ⟨_, _, rfl, Or.inl rfl⟩
  | false => exact ⟨c, t, rfl, Or.inr digit⟩

/-- A number does not start like another value. -/
theorem number_apart {c : UInt8} (first : c = byte '-' ∨ isDigit c = true) {d : UInt8} (sign : d ≠ byte '-') (mark : isDigit d = false) : c ≠ d := by
  rintro rfl
  obtain same | digit := first
  · exact sign same
  · rw [mark] at digit
    cases digit

theorem ValueText.opens {levels : ℕ} {v : JsonValue} {core : ByteString} (written : ValueText levels v core) : Opens core := by
  cases levels with
  | zero => cases written
  | succ levels =>
    cases v with
    | null => exact ⟨_, _, written, by decide, by decide⟩
    | bool b => cases b <;> exact ⟨_, _, written, by decide, by decide⟩
    | number x i =>
      obtain ⟨c, t, rfl, first⟩ := NumberText.head written
      refine ⟨c, t, rfl, ?_, number_apart first (by decide) (by decide)⟩
      obtain rfl | digit := first
      · decide
      · exact digit_mark digit
    | string s =>
      obtain ⟨_, t, -, -, rfl⟩ := written
      exact ⟨_, t, rfl, by decide, by decide⟩
    | array a =>
      obtain ⟨t, -, rfl⟩ := written
      exact ⟨_, t, rfl, by decide, by decide⟩
    | object o =>
      obtain ⟨t, -, -, rfl⟩ := written
      exact ⟨_, t, rfl, by decide, by decide⟩

theorem element_head {V : JsonValue → ByteString → Prop} (opens : ∀ {v core}, V v core → Opens core) {v : JsonValue} {text : ByteString}
    (element : ElementText V v text) : ∃ c, (ws text).head? = some c ∧ c ≠ byte ']' := by
  obtain ⟨core, written, a, b, blank, -, rfl⟩ := element
  obtain ⟨c, t, rfl, -, other⟩ := opens written
  exact ⟨c, by rw [(opens written).ws blank]; rfl, other⟩

theorem member_head {V : JsonValue → ByteString → Prop} {kv : ByteString × JsonValue} {text : ByteString}
    (member : MemberText V kv text) : ∃ c, (ws text).head? = some c ∧ c ≠ byte '\x7d' := by
  obtain ⟨name, _, after, ⟨_, t, -, -, rfl⟩, ⟨a, b, blank, -, rfl⟩, -, rfl⟩ := member
  refine ⟨byte '"', ?_, by decide⟩
  rw [List.append_assoc, List.append_assoc, ws_append blank, List.cons_append, ws_cons (by decide)]
  rfl

theorem value_reads (levels : ℕ) : Reads (value levels) (LedText (ValueText levels)) NumberStops := by
  induction levels with
  | zero =>
    constructor
    · intro s v rest read
      cases read
    · rintro v text rest ⟨_, _, _, ⟨⟩, _⟩
  | succ levels ih =>
    have array : Reads (bracketed (element (value levels)) (byte ']') (fun s => (⟨"expected ',' or ']'", s⟩ : JsonError)) []) _ _ :=
      bracketed_reads (element_reads ih ValueText.opens) (by decide) (by decide) (element_head ValueText.opens) []
    have object : Reads (bracketed (member (value levels)) (byte '\x7d') (fun s => (⟨"expected ',' or '\x7d'", s⟩ : JsonError)) []) _ _ :=
      bracketed_reads (member_reads ih) (by decide) (by decide) member_head []
    constructor
    · intro s v rest read
      obtain ⟨a, blank, split⟩ := ws_split s
      suffices core : ∃ core, ws s = core ++ rest ∧ ValueText (levels + 1) v core by
        obtain ⟨core, front, written⟩ := core
        exact ⟨a ++ core, by rw [List.append_assoc, ← front, ← split], a, core, blank, written, rfl⟩
      rw [value] at read
      cases first : ws s with
      | nil =>
        rw [first] at read
        cases read
      | cons c t =>
        rw [first] at read
        dsimp only at read
        split at read
        · rename_i brace
          obtain ⟨⟨o, u⟩, taken, last⟩ := bind_ok read
          cases last
          obtain ⟨text, rfl, kvs, inner, steps⟩ := object.sound taken
          obtain ⟨rfl, distinct⟩ := pushMember_object.mp steps
          exact ⟨c :: text, rfl, text, inner, distinct, by rw [brace]⟩
        split at read
        · rename_i bracket
          obtain ⟨⟨items, u⟩, taken, last⟩ := bind_ok read
          cases last
          obtain ⟨text, rfl, vs, inner, steps⟩ := array.sound taken
          rw [show push = fun acc x => some (acc ++ [x]) from rfl, foldlM_push] at steps
          cases steps
          exact ⟨c :: text, rfl, text, inner, by rw [bracket]⟩
        split at read
        · obtain ⟨⟨str, u⟩, taken, last⟩ := bind_ok read
          cases last
          obtain ⟨text, split, string⟩ := string_reads.sound taken
          exact ⟨text, split, string⟩
        split at read
        · obtain ⟨rfl, split⟩ := word_sound read
          exact ⟨_, split, rfl⟩
        split at read
        · obtain ⟨rfl, split⟩ := word_sound read
          exact ⟨_, split, rfl⟩
        split at read
        · obtain ⟨rfl, split⟩ := word_sound read
          exact ⟨_, split, rfl⟩
        split at read
        · obtain ⟨text, split, x, i, rfl, number⟩ := number_reads.sound read
          exact ⟨text, split, number⟩
        · cases read
    · rintro v _ rest ⟨a, core, blank, written, rfl⟩ stops
      rw [value, (ValueText.opens written).ws blank]
      cases v with
      | null =>
        obtain rfl := written
        exact word_complete "null" .null rest
      | bool b =>
        obtain rfl := written
        cases b with
        | true => exact word_complete "true" (.bool true) rest
        | false => exact word_complete "false" (.bool false) rest
      | number x i =>
        have taken := number_reads.complete ⟨x, i, rfl, written⟩ stops
        obtain ⟨c, t, rfl, first⟩ := NumberText.head written
        have apart : ∀ {d : UInt8}, d ≠ byte '-' → isDigit d = false → c ≠ d := number_apart first
        rw [List.cons_append] at taken ⊢
        dsimp only
        rw [if_neg (apart (by decide) (by decide)), if_neg (apart (by decide) (by decide)), if_neg (apart (by decide) (by decide)),
          if_neg (apart (by decide) (by decide)), if_neg (apart (by decide) (by decide)), if_neg (apart (by decide) (by decide)), if_pos first,
          taken]
      | string s =>
        have taken : P.string (core ++ rest) = .ok (s, rest) := string_reads.complete written trivial
        obtain ⟨_, t, -, -, rfl⟩ := written
        rw [List.cons_append] at taken ⊢
        dsimp only
        rw [if_neg (by decide), if_neg (by decide), if_pos rfl, taken]
        rfl
      | array items =>
        obtain ⟨t, inner, rfl⟩ := written
        have taken : _ = Except.ok (items, rest) := array.complete ⟨items, inner, foldlM_push [] items⟩ trivial
        rw [List.cons_append]
        dsimp only
        rw [if_neg (by decide), if_pos rfl, taken]
        rfl
      | object o =>
        obtain ⟨t, inner, distinct, rfl⟩ := written
        have taken : _ = Except.ok (o, rest) := object.complete ⟨o, inner, pushMember_object.mpr ⟨rfl, distinct⟩⟩ trivial
        rw [List.cons_append]
        dsimp only
        rw [if_pos rfl, taken]
        rfl

end P

open P

theorem readJson_iff (text : ByteString) (v : JsonValue) : readJson text = .ok v ↔ JsonText v text := by
  constructor
  · intro read
    obtain ⟨⟨v', s⟩, taken, last⟩ := bind_ok read
    dsimp only at last
    split at last
    · cases last
    rename_i ended
    cases last
    obtain ⟨_, split, a, core, blank, written, rfl⟩ := (value_reads _).sound taken
    obtain ⟨b, space, rest⟩ := ws_split s
    rw [not_not.mp ended, List.append_nil] at rest
    exact ⟨core, written, a, b, blank, space, by rw [split, rest]⟩
  · rintro ⟨core, written, a, b, blank, space, rfl⟩
    have stops : NumberStops b := by
      intro c here
      have member := space c (List.mem_of_mem_head? here)
      simp only [isWs, Bool.or_eq_true, decide_eq_true_eq] at member
      obtain ((rfl | rfl) | rfl) | rfl := member <;> decide
    have taken := (value_reads (kMaxDepth + 1)).complete ⟨a, core, blank, written, rfl⟩ stops
    have ended : ws b = [] := by
      have blanks := ws_append space []
      rwa [List.append_nil] at blanks
    rw [readJson, taken]
    simp only [bind, Except.bind, ended]
    rfl

/-- The parser accepts the texts of the grammar and no others, and gives the value they mean; a refused text leaves the output as it was. -/
theorem parseJson_grammar (text : ByteString) (out : JsonValue) :
    (∀ v, parseJson text out = (v, none) ↔ JsonText v text) ∧
      ((∀ v, ¬JsonText v text) → ∃ err, parseJson text out = (out, some err)) := by
  have outcome : ∀ v, parseJson text out = (v, none) ↔ readJson text = .ok v := by
    intro v
    rw [parseJson]
    cases readJson text with
    | ok w => simp
    | error e => simp
  refine ⟨fun v => (outcome v).trans (readJson_iff text v), fun refused => ?_⟩
  cases read : readJson text with
  | ok v => exact absurd ((readJson_iff text v).mp read) (refused v)
  | error e =>
    rw [parseJson, read]
    exact ⟨_, rfl⟩

end Dyx3.Gateway
