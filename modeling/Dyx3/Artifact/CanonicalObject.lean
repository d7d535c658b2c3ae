import Dyx3.Artifact.PythonReader
import Dyx3.Lib.JsonDumps

/-!
The recogniser of the `meta` line and `json.dumps`: it ends on every text, and accepts what CPython writes of a dictionary
within the nesting limit.
-/

namespace Dyx3.Artifact.CanonicalJson

open Lib Json

/-! ### The loops end -/

theorem character_shorter {s t : Bytes} {c : ℕ} (more : s.head? ≠ some '"') (read : character s = some (c, t)) :
    t.length < s.length := by
  obtain ⟨_, rfl, _⟩ := character_sound s c t more read
  obtain ⟨d, u, head, _⟩ := escapeChar_head c []
  rw [List.append_nil] at head
  rw [head, List.cons_append, List.length_cons, List.length_append]
  omega

theorem string_run (s : Bytes) : StringRun character s (string s) := readString_run character_shorter (Nat.lt_succ_self _)

/-- A member leaves no more than it was given. -/
theorem member_forward {levels : ℕ} {isObject : Bool} {acc acc' : Option Str} {s rest : Bytes}
    (read : member (value levels) isObject acc s = some (acc', rest)) : rest.length ≤ s.length := by
  have suffix : ∃ text, s = text ++ rest := by
    cases isObject with
    | true =>
      obtain ⟨kv, _, _, whole⟩ := member_yields value_sound acc s acc' rest read
      exact ⟨fieldText kv, whole⟩
    | false =>
      obtain ⟨v, _, _, whole⟩ := item_yields value_sound acc s acc' rest read
      exact ⟨v.dumps, whole⟩
  obtain ⟨text, rfl⟩ := suffix
  rw [List.length_append]
  exact Nat.le_add_left _ _

theorem members_run (levels : ℕ) (isObject : Bool) (close : Char) (acc : Option Str) (s : Bytes) :
    ItemsRun (member (value levels) isObject) close acc s
      (readItems (member (value levels) isObject) close s.length acc s) :=
  readItems_run member_forward le_rfl

/-! ### What is accepted -/

/-- A dictionary that nests at the depths the recogniser allows. -/
def Dictionary (fields : List (Str × Json)) : Prop := ∀ d w, Nested (.obj fields) d w → d ≤ kMaxDepth ∧ Proper w

theorem canonical_dictionary {fields : List (Str × Json)} (canonical : Canonical (kMaxDepth + 1) (.obj fields)) :
    Dictionary fields := fun d w nested => by
  obtain ⟨shallow, proper⟩ := canonical.nested d w nested
  exact ⟨Nat.le_of_lt_succ shallow, proper⟩

theorem dictionary_canonical {fields : List (Str × Json)} (dictionary : Dictionary fields)
    (finite : ∀ x, .float x ∈ (Json.obj fields).leaves → x.isFinite = true) :
    ∃ v, Canonical (kMaxDepth + 1) v ∧ v.dumps = (Json.obj fields).dumps ∧ ∀ w, w ∈ v.leaves ↔ w ∈ (Json.obj fields).leaves := by
  refine exists_canonical (fun d w nested => ?_) finite
  obtain ⟨shallow, proper⟩ := dictionary d w nested
  exact ⟨Nat.lt_succ_of_le shallow, proper⟩

/-- A value whose text opens with a brace is a dictionary. -/
theorem brace_obj {levels : ℕ} {v : Json} {t : Bytes} (canonical : Canonical levels v) (brace : v.dumps = '{' :: t) :
    ∃ fields, v = .obj fields := by
  have number : ∀ {neg : Bool} {sp : Spelling}, NumberText v neg sp → False := by
    intro neg sp written
    obtain ⟨c, u, text, start⟩ := written.head
    rw [brace] at text
    cases text
    rcases start with ⟨⟨⟩⟩ | ⟨⟨⟩⟩
  cases levels with
  | zero => exact canonical.elim
  | succ levels =>
    cases v with
    | obj fields => exact ⟨fields, rfl⟩
    | null =>
      rw [dumps] at brace
      cases brace
    | bool b =>
      rw [dumps] at brace
      cases b <;> cases brace
    | int i => exact (number (int_text i)).elim
    | float x =>
      obtain ⟨sp, written⟩ := float_text canonical
      exact (number written).elim
    | str s =>
      rw [dumps] at brace
      cases brace
    | arr items =>
      rw [dumps] at brace
      cases brace

theorem written_object {limit : Option ℕ} {fields : List (Str × Json)} {s : Bytes} (dictionary : Dictionary fields)
    (written : jsonDumps limit (.obj fields) = some s) :
    ∃ fields', Canonical (kMaxDepth + 1) (.obj fields') ∧ s = (Json.obj fields').dumps ∧ ShortInts limit (.obj fields') := by
  obtain ⟨finite, short, rfl⟩ := jsonDumps_eq.mp written
  obtain ⟨v, canonical, text, leaves⟩ := dictionary_canonical dictionary finite
  obtain ⟨fields', rfl⟩ := brace_obj canonical (text.trans (by rw [dumps]; rfl))
  exact ⟨fields', canonical, text.symm, fun i member => short i ((leaves _).mp member)⟩

theorem object_written {limit : Option ℕ} {fields : List (Str × Json)} (canonical : Canonical (kMaxDepth + 1) (.obj fields))
    (short : ShortInts limit (.obj fields)) : jsonDumps limit (.obj fields) = some (Json.obj fields).dumps :=
  jsonDumps_eq.mpr ⟨canonical.finite, short, rfl⟩

/-- Without a limit on the digits of an integer, what is accepted is what is written. -/
theorem object_dumps (s : Bytes) :
    object s = true ↔ ∃ fields, Dictionary fields ∧ jsonDumps none (.obj fields) = some s := by
  rw [object_iff]
  constructor
  · rintro ⟨fields, canonical, rfl⟩
    exact ⟨fields, canonical_dictionary canonical, object_written canonical nofun⟩
  · rintro ⟨fields, dictionary, written⟩
    obtain ⟨fields', canonical, text, _⟩ := written_object dictionary written
    exact ⟨fields', canonical, text⟩

/-- With CPython's limit, it is what is accepted and has no longer integer. -/
theorem object_limited (s : Bytes) :
    (∃ fields, Dictionary fields ∧ jsonDumps (some intMaxStrDigits) (.obj fields) = some s) ↔
      object s = true ∧ ShortMeta s := by
  have within : kMaxDepth + 1 ≤ recursionLimit := by decide
  rw [object_iff]
  constructor
  · rintro ⟨fields, dictionary, written⟩
    obtain ⟨fields', canonical, rfl, short⟩ := written_object dictionary written
    refine ⟨⟨fields', canonical, rfl⟩, ?_⟩
    intro v read
    have back : loads none (Json.obj fields').dumps = some (.obj fields') := loads_dumps canonical within nofun
    rw [back] at read
    cases read
    exact short
  · rintro ⟨⟨fields, canonical, rfl⟩, short⟩
    have read : loads none (Json.obj fields).dumps = some (.obj fields) := loads_dumps canonical within nofun
    exact ⟨fields, canonical_dictionary canonical, object_written canonical (short _ read)⟩

/-- The recogniser ends on every text and accepts the canonical text of every dictionary within its depths; the integers
CPython refuses to write are all that sets the two apart. -/
theorem object_canonical :
    (∀ s, StringRun character s (string s)) ∧
    (∀ levels isObject close acc s, ItemsRun (member (value levels) isObject) close acc s
      (readItems (member (value levels) isObject) close s.length acc s)) ∧
    (∀ s, object s = true ↔ ∃ fields, Dictionary fields ∧ jsonDumps none (.obj fields) = some s) ∧
    ∀ s, (∃ fields, Dictionary fields ∧ jsonDumps (some intMaxStrDigits) (.obj fields) = some s) ↔
      object s = true ∧ ShortMeta s := ⟨string_run, members_run, object_dumps, object_limited⟩

/-- `{"a":10…0}` with 4301 digits. -/
def longMeta : Bytes := "\x7b\"a\":1".toList ++ List.replicate 4300 '0' ++ "\x7d".toList

theorem longMeta_dumps :
    ∃ i, longMeta = (Json.obj [([0x61], .int i)]).dumps ∧ (Nat.toDigits 10 i.natAbs).length = 4301 := by
  have all : AllDigits ('1' :: List.replicate 4300 '0') := by
    intro c member
    rcases List.mem_cons.mp member with rfl | member
    · rfl
    · exact allDigits_zeros 4300 c member
  have lead : NoLeadingZero ('1' :: List.replicate 4300 '0') := by
    rintro c ⟨⟩
    decide
  have value := toDigits_ofDigitChars all (List.cons_ne_nil _ _) lead
  refine ⟨(Nat.ofDigitChars 10 ('1' :: List.replicate 4300 '0') 0 : ℕ), ?_, ?_⟩
  · have positive : ¬ ((Nat.ofDigitChars 10 ('1' :: List.replicate 4300 '0') 0 : ℕ) : ℤ) < 0 := by omega
    rw [dumps_obj (List.pairwise_singleton _ _), longMeta]
    simp only [List.map_cons, List.map_nil, commas, fieldText, memberText, dumps, intText, decide_eq_false positive,
      Int.natAbs_natCast, value]
    rfl
  · rw [Int.natAbs_natCast, value, List.length_cons, List.length_replicate]

/-- CPython raises on an integer of 4301 digits, which the recogniser takes. -/
theorem longMeta_accepted :
    ¬ ∀ s, object s = true ↔ ∃ fields, Dictionary fields ∧ jsonDumps (some intMaxStrDigits) (.obj fields) = some s := by
  intro claimed
  obtain ⟨i, text, digits⟩ := longMeta_dumps
  have canonical : Canonical (kMaxDepth + 1) (.obj [([0x61], .int i)]) := by
    refine ⟨List.pairwise_singleton _ _, fun kv member => ?_⟩
    obtain rfl := List.mem_singleton.mp member
    have joined : Joined [0x61] := ⟨by decide, .singleton _⟩
    exact ⟨joined, trivial⟩
  have accepted : object longMeta = true := object_iff.mpr ⟨_, canonical, text⟩
  have short := ((object_limited longMeta).mp ((claimed longMeta).mp accepted)).2
  have read : loads none longMeta = some (.obj [([0x61], .int i)]) := by
    rw [text]
    exact loads_dumps canonical (by decide) nofun
  have least : (Nat.toDigits 10 i.natAbs).length ≤ intMaxStrDigits := by
    refine short _ read i ?_ _ rfl
    rw [leaves_obj]
    simp [leaves_int]
  rw [digits] at least
  exact absurd least (by decide)

end Dyx3.Artifact.CanonicalJson
