import Dyx3.Lib.ByteReader

/-!
UTF-8 as the gateway's JSON code decides and writes it (dyx3_system_gateway/json): `utf8_seq` and `put_utf8`. A sequence is well
formed when it is the encoding of a character.
-/

namespace Dyx3.Gateway

open Lib Lib.ByteReader

abbrev utf8 (c : Char) : ByteString := String.utf8EncodeChar c

/-- The length of the sequence, the bits of the first byte and the least code of that length. -/
def lead (c : UInt8) : Option (ℕ × ℕ × ℕ) :=
  if 0xC2 ≤ c ∧ c ≤ 0xDF then some (2, (c &&& 0x1F).toNat, 0x80)
  else if 0xE0 ≤ c ∧ c ≤ 0xEF then some (3, (c &&& 0x0F).toNat, 0x800)
  else if 0xF0 ≤ c ∧ c ≤ 0xF4 then some (4, (c &&& 0x07).toNat, 0x10000)
  else none

/-- The loop over the continuation bytes. -/
def continuation : ℕ → ℕ → ByteString → Option ℕ
  | 0, cp, _ => some cp
  | _ + 1, _, [] => none
  | k + 1, cp, b :: t => if b &&& 0xC0 ≠ 0x80 then none else continuation k (cp <<< 6 ||| (b &&& 0x3F).toNat) t

/-- The length of the well-formed sequence at the front, or 0. -/
def utf8Seq : ByteString → ℕ
  | [] => 0
  | c :: t =>
    if c < 0x80 then 1
    else
      match lead c with
      | none => 0
      | some (n, cp, min) =>
        if t.length + 1 < n then 0
        else
          match continuation (n - 1) cp t with
          | none => 0
          | some cp => if cp < min ∨ 0x10FFFF < cp ∨ (0xD800 ≤ cp ∧ cp ≤ 0xDFFF) then 0 else n

def putUtf8 (c : ℕ) : ByteString :=
  if c < 0x80 then [UInt8.ofNat c]
  else if c < 0x800 then [UInt8.ofNat (0xC0 ||| c >>> 6), UInt8.ofNat (0x80 ||| c &&& 0x3F)]
  else if c < 0x10000 then
    [UInt8.ofNat (0xE0 ||| c >>> 12), UInt8.ofNat (0x80 ||| c >>> 6 &&& 0x3F), UInt8.ofNat (0x80 ||| c &&& 0x3F)]
  else
    [UInt8.ofNat (0xF0 ||| c >>> 18), UInt8.ofNat (0x80 ||| c >>> 12 &&& 0x3F), UInt8.ofNat (0x80 ||| c >>> 6 &&& 0x3F),
      UInt8.ofNat (0x80 ||| c &&& 0x3F)]

/-! ### In numbers -/

theorem and_mask (n k : ℕ) : n &&& (2 ^ k - 1) = n % 2 ^ k := Nat.and_two_pow_sub_one_eq_mod n k

theorem mask_toNat (c : UInt8) : (c &&& 0x1F).toNat = c.toNat % 32 ∧ (c &&& 0x0F).toNat = c.toNat % 16 ∧ (c &&& 0x07).toNat = c.toNat % 8 ∧
    (c &&& 0x3F).toNat = c.toNat % 64 :=
  ⟨and_mask c.toNat 5, and_mask c.toNat 4, and_mask c.toNat 3, and_mask c.toNat 6⟩

theorem continuation_byte (b : UInt8) : b &&& 0xC0 = 0x80 ↔ 0x80 ≤ b.toNat ∧ b.toNat < 0xC0 := by
  have all : ∀ n < 256, (UInt8.ofNat n &&& 0xC0 = 0x80 ↔ 0x80 ≤ n ∧ n < 0xC0) := by decide +kernel
  have this := all b.toNat (UInt8.toNat_lt b)
  rwa [UInt8.ofNat_toNat] at this

theorem shift_or (cp : ℕ) {m : ℕ} (small : m < 64) : cp <<< 6 ||| m = cp * 64 + m := by
  rw [← Nat.shiftLeft_add_eq_or_of_lt (show m < 2 ^ 6 from small), Nat.shiftLeft_eq]

theorem continuation_cons (k cp : ℕ) (b : UInt8) (t : ByteString) : continuation (k + 1) cp (b :: t) =
    if 0x80 ≤ b.toNat ∧ b.toNat < 0xC0 then continuation k (cp * 64 + b.toNat % 64) t else none := by
  rw [continuation, (mask_toNat b).2.2.2, shift_or cp (Nat.mod_lt _ (by decide))]
  by_cases tail : b &&& 0xC0 = 0x80
  · rw [if_neg (not_not.mpr tail), if_pos ((continuation_byte b).mp tail)]
  · rw [if_pos tail, if_neg (fun inside => tail ((continuation_byte b).mpr inside))]

theorem lead_toNat (c : UInt8) : lead c =
    if 0xC2 ≤ c.toNat ∧ c.toNat ≤ 0xDF then some (2, c.toNat % 32, 0x80)
    else if 0xE0 ≤ c.toNat ∧ c.toNat ≤ 0xEF then some (3, c.toNat % 16, 0x800)
    else if 0xF0 ≤ c.toNat ∧ c.toNat ≤ 0xF4 then some (4, c.toNat % 8, 0x10000)
    else none := by
  obtain ⟨five, four, three, -⟩ := mask_toNat c
  rw [lead, five, four, three]
  rfl

/-- A scalar value is the code of a character. -/
theorem exists_char {v : ℕ} (low : v ≤ 0x10FFFF) (apart : ¬(0xD800 ≤ v ∧ v ≤ 0xDFFF)) : ∃ c : Char, c.toNat = v := by
  have valid : v.isValidChar := by
    unfold Nat.isValidChar
    omega
  exact ⟨Char.ofNat v, by rw [Char.ofNat, dif_pos valid]; rfl⟩

theorem char_range (c : Char) : c.toNat < 0xD800 ∨ 0xDFFF < c.toNat ∧ c.toNat < 0x110000 := c.valid

theorem utf8_one {c : Char} (small : c.toNat ≤ 0x7f) : utf8 c = [UInt8.ofNat c.toNat] := if_pos small

theorem utf8_two {c : Char} (large : 0x7f < c.toNat) (small : c.toNat ≤ 0x7ff) :
    utf8 c = [UInt8.ofNat (c.toNat / 64 % 0x20 + 0xc0), UInt8.ofNat (c.toNat % 0x40 + 0x80)] :=
  (if_neg (not_le.mpr large)).trans (if_pos small)

theorem utf8_three {c : Char} (large : 0x7ff < c.toNat) (small : c.toNat ≤ 0xffff) :
    utf8 c = [UInt8.ofNat (c.toNat / 4096 % 0x10 + 0xe0), UInt8.ofNat (c.toNat / 64 % 0x40 + 0x80), UInt8.ofNat (c.toNat % 0x40 + 0x80)] :=
  (if_neg (show ¬c.toNat ≤ 0x7f by omega)).trans ((if_neg (not_le.mpr large)).trans (if_pos small))

theorem utf8_four {c : Char} (large : 0xffff < c.toNat) :
    utf8 c = [UInt8.ofNat (c.toNat / 262144 % 0x08 + 0xf0), UInt8.ofNat (c.toNat / 4096 % 0x40 + 0x80), UInt8.ofNat (c.toNat / 64 % 0x40 + 0x80),
      UInt8.ofNat (c.toNat % 0x40 + 0x80)] :=
  (if_neg (show ¬c.toNat ≤ 0x7f by omega)).trans ((if_neg (show ¬c.toNat ≤ 0x7ff by omega)).trans (if_neg (not_le.mpr large)))

theorem utf8_byte {b : UInt8} (small : b.toNat < 0x80) : utf8 (char b) = [b] := by
  rw [utf8_one (by rw [char_toNat]; omega), char_toNat, UInt8.ofNat_toNat]

theorem utf8_bytes {c : Char} (large : 0x80 ≤ c.toNat) : ∀ b ∈ utf8 c, 0x80 ≤ b.toNat := by
  have range := char_range c
  have high : ∀ n, 0x80 ≤ n → n < 0x100 → 0x80 ≤ (UInt8.ofNat n).toNat := by
    intro n low below
    rwa [UInt8.toNat_ofNat', Nat.mod_eq_of_lt below]
  rcases Nat.lt_or_ge 0x7ff c.toNat with larger | small
  · rcases Nat.lt_or_ge 0xffff c.toNat with largest | small
    · rw [utf8_four largest]
      simp only [List.forall_mem_cons, List.not_mem_nil, false_imp_iff, implies_true, and_true]
      exact ⟨high _ (by omega) (by omega), high _ (by omega) (by omega), high _ (by omega) (by omega), high _ (by omega) (by omega)⟩
    · rw [utf8_three larger small]
      simp only [List.forall_mem_cons, List.not_mem_nil, false_imp_iff, implies_true, and_true]
      exact ⟨high _ (by omega) (by omega), high _ (by omega) (by omega), high _ (by omega) (by omega)⟩
  · rw [utf8_two (by omega) small]
    simp only [List.forall_mem_cons, List.not_mem_nil, false_imp_iff, implies_true, and_true]
    exact ⟨high _ (by omega) (by omega), high _ (by omega) (by omega)⟩

/-- The first byte of a character tells whether it is the only one. -/
theorem utf8_head (c : Char) : ∃ b t, utf8 c = b :: t ∧ (c.toNat < 0x80 → b.toNat = c.toNat ∧ t = []) ∧ (0x80 ≤ c.toNat → 0x80 ≤ b.toNat) := by
  rcases Nat.lt_or_ge c.toNat 0x80 with small | large
  · refine ⟨_, _, utf8_one (Nat.le_of_lt_succ small), fun _ => ⟨?_, rfl⟩, fun more => absurd more (not_le.mpr small)⟩
    rw [UInt8.toNat_ofNat', Nat.mod_eq_of_lt (by omega)]
  · obtain ⟨b, t, head⟩ := List.exists_cons_of_ne_nil (String.utf8EncodeChar_ne_nil (c := c))
    have high := utf8_bytes large b (by rw [utf8, head]; exact List.mem_cons_self)
    exact ⟨b, t, head, fun less => absurd large (not_le.mpr less), fun _ => high⟩

theorem ofNat_byte {n : ℕ} {b : UInt8} (same : n = b.toNat) : UInt8.ofNat n = b := by
  rw [same, UInt8.ofNat_toNat]

/-! ### `utf8_seq` is exact -/

theorem continuation_some {k cp v : ℕ} {t : ByteString} (found : continuation (k + 1) cp t = some v) :
    ∃ b r, t = b :: r ∧ 0x80 ≤ b.toNat ∧ b.toNat < 0xC0 ∧ continuation k (cp * 64 + b.toNat % 64) r = some v := by
  cases t with
  | nil => cases found
  | cons b r =>
    rw [continuation_cons] at found
    split at found
    · rename_i tail
      exact ⟨b, r, rfl, tail.1, tail.2, found⟩
    · cases found

theorem continuation_tail {k cp v : ℕ} (small : v < 64) (t : ByteString) :
    continuation (k + 1) cp (UInt8.ofNat (v + 0x80) :: t) = continuation k (cp * 64 + v) t := by
  have code : (UInt8.ofNat (v + 0x80)).toNat = v + 0x80 := by
    rw [UInt8.toNat_ofNat', Nat.mod_eq_of_lt (by omega)]
  rw [continuation_cons, code, if_pos (by omega), show (v + 0x80) % 64 = v by omega]

/-- A sequence of more than one byte. -/
theorem utf8Seq_long {c : UInt8} {t : ByteString} (large : 0x80 ≤ c.toNat) : utf8Seq (c :: t) =
    match lead c with
    | none => 0
    | some (n, cp, min) =>
      if t.length + 1 < n then 0
      else
        match continuation (n - 1) cp t with
        | none => 0
        | some cp => if cp < min ∨ 0x10FFFF < cp ∨ (0xD800 ≤ cp ∧ cp ≤ 0xDFFF) then 0 else n :=
  if_neg fun small => Nat.not_lt.mpr large (UInt8.lt_iff_toNat_lt.mp small)

theorem utf8Seq_sound {s : ByteString} (some : utf8Seq s ≠ 0) : ∃ c rest, s = utf8 c ++ rest ∧ utf8Seq s = (utf8 c).length := by
  cases s with
  | nil => exact absurd rfl some
  | cons c t =>
    have bound : c.toNat < 256 := UInt8.toNat_lt c
    by_cases small : c < 0x80
    · have low : c.toNat < 128 := UInt8.lt_iff_toNat_lt.mp small
      obtain ⟨x, code⟩ := exists_char (v := c.toNat) (by omega) (by omega)
      refine ⟨x, t, ?_, ?_⟩
      · rw [utf8_one (by omega), ofNat_byte code]
        rfl
      · rw [utf8_one (by omega)]
        exact if_pos small
    · have large : 0x80 ≤ c.toNat := not_lt.mp fun less => small (UInt8.lt_iff_toNat_lt.mpr less)
      rw [utf8Seq_long large, lead_toNat] at some ⊢
      split at some
      · exact absurd rfl some
      · rename_i n cp min lead
        split at some
        · exact absurd rfl some
        rename_i long
        split at some
        · exact absurd rfl some
        rename_i v found
        split at some
        · exact absurd rfl some
        rename_i scalar
        simp only [not_or, not_lt] at scalar
        obtain ⟨x, code⟩ := exists_char scalar.2.1 scalar.2.2
        rw [if_neg long, if_neg (show ¬(v < min ∨ 0x10FFFF < v ∨ (0xD800 ≤ v ∧ v ≤ 0xDFFF)) by omega)]
        split_ifs at lead with two three four
        · cases lead
          obtain ⟨b, r, rfl, low, high, last⟩ := continuation_some found
          cases last
          refine ⟨x, r, ?_, ?_⟩
          · rw [utf8_two (by omega) (by omega), ofNat_byte (b := c) (by omega), ofNat_byte (b := b) (by omega)]
            rfl
          · rw [utf8_two (by omega) (by omega)]
            rfl
        · cases lead
          obtain ⟨b, r, rfl, low, high, more⟩ := continuation_some found
          obtain ⟨d, r, rfl, low', high', last⟩ := continuation_some more
          cases last
          refine ⟨x, r, ?_, ?_⟩
          · rw [utf8_three (by omega) (by omega), ofNat_byte (b := c) (by omega), ofNat_byte (b := b) (by omega), ofNat_byte (b := d) (by omega)]
            rfl
          · rw [utf8_three (by omega) (by omega)]
            rfl
        · cases lead
          obtain ⟨b, r, rfl, low, high, more⟩ := continuation_some found
          obtain ⟨d, r, rfl, low', high', more⟩ := continuation_some more
          obtain ⟨e, r, rfl, low'', high'', last⟩ := continuation_some more
          cases last
          refine ⟨x, r, ?_, ?_⟩
          · rw [utf8_four (by omega), ofNat_byte (b := c) (by omega), ofNat_byte (b := b) (by omega), ofNat_byte (b := d) (by omega),
              ofNat_byte (b := e) (by omega)]
            rfl
          · rw [utf8_four (by omega)]
            rfl

theorem utf8Seq_utf8 (c : Char) (rest : ByteString) : utf8Seq (utf8 c ++ rest) = (utf8 c).length := by
  have range := char_range c
  rcases Nat.lt_or_ge 0x7f c.toNat with large | small
  · rcases Nat.lt_or_ge 0x7ff c.toNat with larger | small
    · rcases Nat.lt_or_ge 0xffff c.toNat with largest | small
      · have code : (UInt8.ofNat (c.toNat / 262144 % 8 + 240)).toNat = c.toNat / 262144 + 240 := by
          rw [UInt8.toNat_ofNat', Nat.mod_eq_of_lt (by omega)]
          omega
        rw [utf8_four largest, List.cons_append, utf8Seq_long (by omega), lead_toNat, code, if_neg (by omega), if_neg (by omega), if_pos (by omega)]
        dsimp only [List.cons_append]
        rw [continuation_tail (by omega), continuation_tail (by omega), continuation_tail (by omega), continuation, if_neg (by simp)]
        exact if_neg (by omega)
      · have code : (UInt8.ofNat (c.toNat / 4096 % 16 + 224)).toNat = c.toNat / 4096 + 224 := by
          rw [UInt8.toNat_ofNat', Nat.mod_eq_of_lt (by omega)]
          omega
        rw [utf8_three larger small, List.cons_append, utf8Seq_long (by omega), lead_toNat, code, if_neg (by omega), if_pos (by omega)]
        dsimp only [List.cons_append]
        rw [continuation_tail (by omega), continuation_tail (by omega), continuation, if_neg (by simp)]
        exact if_neg (by omega)
    · have code : (UInt8.ofNat (c.toNat / 64 % 32 + 192)).toNat = c.toNat / 64 + 192 := by
        rw [UInt8.toNat_ofNat', Nat.mod_eq_of_lt (by omega)]
        omega
      rw [utf8_two large small, List.cons_append, utf8Seq_long (by omega), lead_toNat, code, if_pos (by omega)]
      dsimp only [List.cons_append]
      rw [continuation_tail (by omega), continuation, if_neg (by simp)]
      exact if_neg (by omega)
  · have code : (UInt8.ofNat c.toNat).toNat = c.toNat := by
      rw [UInt8.toNat_ofNat', Nat.mod_eq_of_lt (by omega)]
    rw [utf8_one small]
    exact if_pos (UInt8.lt_iff_toNat_lt.mpr (by rw [code]; exact Nat.lt_of_le_of_lt small (by decide)))

theorem putUtf8_utf8 (c : Char) : putUtf8 c.toNat = utf8 c := by
  have range := char_range c
  have six : ∀ m < 64, 0x80 ||| m = m + 0x80 := by decide +kernel
  have five : ∀ m < 32, 0xC0 ||| m = m + 0xc0 := by decide +kernel
  have four : ∀ m < 16, 0xE0 ||| m = m + 0xe0 := by decide +kernel
  have three : ∀ m < 8, 0xF0 ||| m = m + 0xf0 := by decide +kernel
  have low : ∀ n, 0x80 ||| n &&& 0x3F = n % 64 + 0x80 := by
    intro n
    rw [show n &&& 0x3F = n % 64 from and_mask n 6]
    exact six _ (Nat.mod_lt _ (by decide))
  rw [putUtf8]
  split_ifs with one two three_
  · rw [utf8_one (by omega)]
  · rw [low, Nat.shiftRight_eq_div_pow, five _ (by omega), utf8_two (by omega) (by omega), show c.toNat / 2 ^ 6 = c.toNat / 64 % 32 by omega]
  · rw [low, low, Nat.shiftRight_eq_div_pow, Nat.shiftRight_eq_div_pow, four _ (by omega), utf8_three (by omega) (by omega),
      show c.toNat / 2 ^ 12 = c.toNat / 4096 % 16 by omega]
  · rw [low, low, low, Nat.shiftRight_eq_div_pow, Nat.shiftRight_eq_div_pow, Nat.shiftRight_eq_div_pow, three _ (by omega), utf8_four (by omega),
      show c.toNat / 2 ^ 18 = c.toNat / 262144 % 8 by omega]

/-! ### Whole strings -/

/-- `is_valid_utf8`. -/
def isValidUtf8 (s : ByteString) : Bool :=
  if s = [] then true
  else if utf8Seq s = 0 then false
  else isValidUtf8 (s.drop (utf8Seq s))
termination_by s.length
decreasing_by
  rename_i some long
  have positive := List.length_pos_of_ne_nil some
  rw [List.length_drop]
  omega

/-- Well-formed UTF-8: the encodings of characters one after the other. -/
def WellFormed (s : ByteString) : Prop := ∃ cs : List Char, s = cs.flatMap utf8

theorem utf8_pos (c : Char) : 0 < (utf8 c).length := List.length_pos_of_ne_nil String.utf8EncodeChar_ne_nil

theorem isValidUtf8_iff (s : ByteString) : isValidUtf8 s = true ↔ WellFormed s := by
  constructor
  · intro valid
    induction s using isValidUtf8.induct with
    | case1 => exact ⟨[], rfl⟩
    | case2 s some bad =>
      rw [isValidUtf8, if_neg some, if_pos bad] at valid
      cases valid
    | case3 s some long ih =>
      rw [isValidUtf8, if_neg some, if_neg long] at valid
      obtain ⟨c, rest, split, size⟩ := utf8Seq_sound long
      rw [size, split, List.drop_left] at ih valid
      obtain ⟨cs, rfl⟩ := ih valid
      exact ⟨c :: cs, split⟩
  · rintro ⟨cs, rfl⟩
    induction cs with
    | nil => simp [isValidUtf8]
    | cons c cs ih =>
      have size := utf8Seq_utf8 c (cs.flatMap utf8)
      have positive := utf8_pos c
      rw [List.flatMap_cons, isValidUtf8, if_neg (List.append_ne_nil_of_left_ne_nil String.utf8EncodeChar_ne_nil _), size, if_neg (by omega), List.drop_left]
      exact ih

end Dyx3.Gateway
