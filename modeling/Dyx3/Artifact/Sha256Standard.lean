import Dyx3.Artifact.Sha256
import Dyx3.Lib.Fips180

/-!
`sha256_hex` (dyx3_mission, sha256) is SHA-256: the one or two blocks behind the full ones are the padding of the standard.
-/

namespace Dyx3.Artifact.Sha256

open Lib Lib.Fips180

/-- The byte as the model's character. -/
def byteChar (b : UInt8) : Char := Char.ofNat b.toNat

/-- The hash value in the words of the standard. -/
def Hash.toWords (s : Hash) : Words :=
  ⟨s.a.toBitVec, s.b.toBitVec, s.c.toBitVec, s.d.toBitVec, s.e.toBitVec, s.f.toBitVec, s.g.toBitVec, s.h.toBitVec⟩

/-! ### The constants -/

theorem kK_constant {t : ℕ} (inside : t < 64) : (kK.getD t 0).toBitVec = constant t := by
  have roots : ∀ t < 64, ∃ m < 8,
      (m * 2 ^ 32 + (kK.getD t 0).toNat) ^ 3 ≤ primes.getD t 0 * 2 ^ (32 * 3) ∧
      primes.getD t 0 * 2 ^ (32 * 3) < (m * 2 ^ 32 + (kK.getD t 0).toNat + 1) ^ 3 := by
    decide +kernel
  obtain ⟨m, _, below, above⟩ := roots t inside
  rw [constant, nth_primes inside, fraction32_root (by decide) (kK.getD t 0).toNat_lt below above]
  exact ((BitVec.ofNat_toNat 32 _).trans (BitVec.setWidth_eq _)).symm

theorem initial_toWords : initial.toWords = Fips180.initial := by
  have roots : ∀ t < 8, ∃ m < 8,
      (m * 2 ^ 32 + ([initial.a, initial.b, initial.c, initial.d, initial.e, initial.f, initial.g, initial.h].getD t 0).toNat) ^ 2
        ≤ primes.getD t 0 * 2 ^ (32 * 2) ∧
      primes.getD t 0 * 2 ^ (32 * 2) <
        (m * 2 ^ 32 + ([initial.a, initial.b, initial.c, initial.d, initial.e, initial.f, initial.g, initial.h].getD t 0).toNat + 1) ^ 2 := by
    decide +kernel
  have word : ∀ t < 8, initialWord t =
      ([initial.a, initial.b, initial.c, initial.d, initial.e, initial.f, initial.g, initial.h].getD t 0).toBitVec := by
    intro t inside
    obtain ⟨m, _, below, above⟩ := roots t inside
    rw [initialWord, nth_primes (by omega), fraction32_root (by decide) (UInt32.toNat_lt _) below above]
    exact (BitVec.ofNat_toNat 32 _).trans (BitVec.setWidth_eq _)
  rw [Fips180.initial, word 0 (by decide), word 1 (by decide), word 2 (by decide), word 3 (by decide), word 4 (by decide),
    word 5 (by decide), word 6 (by decide), word 7 (by decide)]
  rfl

/-! ### One block -/

theorem rotr_toBitVec (x : UInt32) {n : ℕ} (positive : 0 < n) (low : n < 32) :
    (rotr x (UInt32.ofNat n)).toBitVec = x.toBitVec.rotateRight n := by
  have right : ((UInt32.ofNat n).toBitVec % 32).toNat = n := by
    rw [BitVec.toNat_umod]
    show n % 2 ^ 32 % 32 = n
    omega
  have left : ((32 - UInt32.ofNat n).toBitVec % 32).toNat = 32 - n := by
    rw [UInt32.toBitVec_sub, BitVec.toNat_umod, BitVec.toNat_sub]
    show (2 ^ 32 - n % 2 ^ 32 + 32) % 2 ^ 32 % 32 = 32 - n
    omega
  rw [rotr, UInt32.toBitVec_or, UInt32.toBitVec_shiftRight, UInt32.toBitVec_shiftLeft, BitVec.rotateRight_def, Nat.mod_eq_of_lt low]
  rw [BitVec.ushiftRight_eq', BitVec.shiftLeft_eq', right, left]

/-- Bytes put behind each other are the number of their bits. -/
theorem bytes_number {data : List UInt8} (short : data.length ≤ 4) :
    ((data.map UInt8.toUInt32).foldl (fun (w byte : UInt32) => (w <<< 8) ||| byte) 0).toNat = number (bits data) := by
  induction data using List.reverseRecOn with
  | nil => rfl
  | append_singleton data b ih =>
    rw [List.length_append, List.length_singleton] at short
    have before := ih (by omega)
    have small : number (bits data) < 2 ^ 24 := by
      refine lt_of_lt_of_le (number_lt _) (Nat.pow_le_pow_right (by decide) ?_)
      rw [length_bits]
      omega
    rw [List.map_append, List.foldl_append, number_concat]
    rw [List.map_singleton, List.foldl_cons, List.foldl_nil, UInt32.toNat_or, UInt32.toNat_shiftLeft, before, UInt8.toNat_toUInt32]
    have low : b.toNat < 2 ^ 8 := UInt8.toNat_lt b
    show number (bits data) <<< 8 % 2 ^ 32 ||| b.toNat = _
    rw [Nat.mod_eq_of_lt (by rw [Nat.shiftLeft_eq]; omega), ← Nat.shiftLeft_add_eq_or_of_lt low, Nat.shiftLeft_eq]

theorem words_word {block : List UInt8} (full : block.length = 64) {t : ℕ} (inside : t < 16) :
    ((words block).getD t 0).toBitVec = wordAt (bits block) t := by
  have bytes : (List.range 4).map (fun j => (block.getD (4 * t + j) 0).toUInt32) = ((block.drop (4 * t)).take 4).map UInt8.toUInt32 := by
    refine List.ext_getElem (by simp; omega) fun j left right => ?_
    have here : 4 * t + j < block.length := by
      rw [List.length_map, List.length_range] at left
      omega
    rw [List.getElem_map, List.getElem_map, List.getElem_range, List.getElem_take, List.getElem_drop, List.getD_eq_getElem _ _ here]
  have entry : (words block).getD t 0
      = ((List.range 4).map fun j => (block.getD (4 * t + j) 0).toUInt32).foldl (fun (w byte : UInt32) => (w <<< 8) ||| byte) 0 := by
    simp [words, Array.getD_eq_getD_getElem?, inside]
  have value := @bytes_number ((block.drop (4 * t)).take 4) (by rw [List.length_take]; omega)
  have slice : ((bits block).drop (32 * t)).take 32 = bits ((block.drop (4 * t)).take 4) := by
    rw [bits_take, bits_drop, ← Nat.mul_assoc]
  rw [entry, bytes, wordAt, slice, ← value]
  exact ((BitVec.ofNat_toNat 32 _).trans (BitVec.setWidth_eq _)).symm

theorem smallSigma0_bits (x : UInt32) : (rotr x 7 ^^^ rotr x 18 ^^^ (x >>> 3)).toBitVec = smallSigma0 x.toBitVec := by
  rw [smallSigma0, ← rotr_toBitVec x (n := 7) (by decide) (by decide), ← rotr_toBitVec x (n := 18) (by decide) (by decide)]
  rfl

theorem smallSigma1_bits (x : UInt32) : (rotr x 17 ^^^ rotr x 19 ^^^ (x >>> 10)).toBitVec = smallSigma1 x.toBitVec := by
  rw [smallSigma1, ← rotr_toBitVec x (n := 17) (by decide) (by decide), ← rotr_toBitVec x (n := 19) (by decide) (by decide)]
  rfl

theorem bigSigma0_bits (x : UInt32) : (rotr x 2 ^^^ rotr x 13 ^^^ rotr x 22).toBitVec = bigSigma0 x.toBitVec := by
  rw [bigSigma0, ← rotr_toBitVec x (n := 2) (by decide) (by decide), ← rotr_toBitVec x (n := 13) (by decide) (by decide),
    ← rotr_toBitVec x (n := 22) (by decide) (by decide)]
  rfl

theorem bigSigma1_bits (x : UInt32) : (rotr x 6 ^^^ rotr x 11 ^^^ rotr x 25).toBitVec = bigSigma1 x.toBitVec := by
  rw [bigSigma1, ← rotr_toBitVec x (n := 6) (by decide) (by decide), ← rotr_toBitVec x (n := 11) (by decide) (by decide),
    ← rotr_toBitVec x (n := 25) (by decide) (by decide)]
  rfl

/-- A word more in the schedule. -/
def next (w : Array UInt32) (i : ℕ) : UInt32 :=
  w.getD (i - 16) 0 + (rotr (w.getD (i - 15) 0) 7 ^^^ rotr (w.getD (i - 15) 0) 18 ^^^ (w.getD (i - 15) 0 >>> 3)) + w.getD (i - 7) 0 +
    (rotr (w.getD (i - 2) 0) 17 ^^^ rotr (w.getD (i - 2) 0) 19 ^^^ (w.getD (i - 2) 0 >>> 10))

theorem schedule_fold (block : List UInt8) : schedule block = (List.range' 16 48).foldl (fun w i => w.push (next w i)) (words block) := rfl

theorem next_word {block : List UInt8} {w : Array UInt32} {i : ℕ} (late : 16 ≤ i)
    (before : ∀ t < i, (w.getD t 0).toBitVec = Fips180.schedule (bits block) t) :
    (next w i).toBitVec = Fips180.schedule (bits block) i := by
  rw [Fips180.schedule, if_neg (Nat.not_lt.mpr late)]
  rw [← before (i - 2) (by omega), ← before (i - 7) (by omega), ← before (i - 15) (by omega), ← before (i - 16) (by omega)]
  rw [next, UInt32.toBitVec_add, UInt32.toBitVec_add, UInt32.toBitVec_add, smallSigma0_bits, smallSigma1_bits]
  ac_rfl

theorem schedule_word {block : List UInt8} (full : block.length = 64) :
    (schedule block).size = 64 ∧ ∀ t < 64, ((schedule block).getD t 0).toBitVec = Fips180.schedule (bits block) t := by
  have run : ∀ n, ((List.range' 16 n).foldl (fun w i => w.push (next w i)) (words block)).size = 16 + n ∧
      ∀ t < 16 + n, (((List.range' 16 n).foldl (fun w i => w.push (next w i)) (words block)).getD t 0).toBitVec
        = Fips180.schedule (bits block) t := by
    intro n
    induction n with
    | zero =>
      refine ⟨by simp [words], fun t inside => ?_⟩
      rw [Fips180.schedule, if_pos inside]
      exact words_word full inside
    | succ n ih =>
      obtain ⟨size, before⟩ := ih
      rw [List.range'_concat, List.foldl_append, List.foldl_cons, List.foldl_nil, Nat.one_mul]
      generalize (List.range' 16 n).foldl (fun w i => w.push (next w i)) (words block) = w at size before
      refine ⟨by rw [Array.size_push, size]; rfl, fun t inside => ?_⟩
      rw [Array.getD_eq_getD_getElem?, Array.getElem?_push, size]
      split
      · rename_i last
        rw [last]
        exact next_word (by omega) before
      · rw [← Array.getD_eq_getD_getElem?]
        exact before t (by omega)
  exact run 48

theorem round_step {block : List UInt8} (full : block.length = 64) {t : ℕ} (inside : t < 64) (s : Hash) :
    (round s (kK.getD t 0) ((schedule block).getD t 0)).toWords = Fips180.step (bits block) s.toWords t := by
  have t1 : (s.h + (rotr s.e 6 ^^^ rotr s.e 11 ^^^ rotr s.e 25) + ((s.e &&& s.f) ^^^ (~~~s.e &&& s.g)) + kK.getD t 0
      + (schedule block).getD t 0).toBitVec
      = s.h.toBitVec + bigSigma1 s.e.toBitVec + ch s.e.toBitVec s.f.toBitVec s.g.toBitVec + constant t
        + Fips180.schedule (bits block) t := by
    rw [← kK_constant inside, ← (schedule_word full).2 t inside, ← bigSigma1_bits]
    rfl
  have t2 : ((rotr s.a 2 ^^^ rotr s.a 13 ^^^ rotr s.a 22) + ((s.a &&& s.b) ^^^ (s.a &&& s.c) ^^^ (s.b &&& s.c))).toBitVec
      = bigSigma0 s.a.toBitVec + maj s.a.toBitVec s.b.toBitVec s.c.toBitVec := by
    rw [← bigSigma0_bits]
    rfl
  unfold round Fips180.step Hash.toWords
  dsimp only
  rw [← t1, ← t2]
  rfl

theorem compress_toWords {block : List UInt8} (full : block.length = 64) (h : Hash) :
    (compress h block).toWords = Fips180.compress h.toWords (bits block) := by
  have pairs : kK.zip (schedule block).toList = (List.range 64).map fun t => (kK.getD t 0, (schedule block).getD t 0) := by
    have size := (schedule_word full).1
    refine List.ext_getElem (by simp [size, kK]) fun t left right => ?_
    have inside : t < 64 := by simpa using right
    rw [List.getElem_zip, List.getElem_map, List.getElem_range, List.getD_eq_getElem _ _ (by simpa [kK] using inside)]
    simp [Array.getD_eq_getD_getElem?, size, inside]
  have rounds : ∀ (ts : List ℕ) (s : Hash), (∀ t ∈ ts, t < 64) →
      (ts.foldl (fun s t => round s (kK.getD t 0) ((schedule block).getD t 0)) s).toWords = ts.foldl (Fips180.step (bits block)) s.toWords := by
    intro ts
    induction ts with
    | nil => exact fun _ _ => rfl
    | cons t ts ih =>
      intro s inside
      rw [List.foldl_cons, List.foldl_cons, ih _ fun t member => inside t (List.mem_cons_of_mem _ member),
        round_step full (inside t List.mem_cons_self)]
  have last := rounds (List.range 64) h fun t member => List.mem_range.mp member
  unfold compress Fips180.compress
  dsimp only
  rw [pairs, List.foldl_map, ← last]
  generalize (List.range 64).foldl (fun s t => round s (kK.getD t 0) ((schedule block).getD t 0)) h = s
  rfl

/-! ### The message -/

/-- The message padded to full blocks. -/
def padded (data : List UInt8) : List UInt8 := data.take (64 * (data.length / 64)) ++ tail (data.drop (64 * (data.length / 64))) data.length

theorem length_bytes {n : ℕ} (low : n < 2 ^ 64) :
    bits ((List.range 8).map fun i => UInt8.ofNat (n % 2 ^ 64 / 2 ^ (8 * (7 - i)))) = (List.range 64).map fun i => n.testBit (63 - i) := by
  have byte : ∀ i, byteBits (UInt8.ofNat (n % 2 ^ 64 / 2 ^ (8 * (7 - i)))) = (List.range 8).map fun j => n.testBit (8 * (7 - i) + (7 - j)) := by
    intro i
    refine List.map_congr_left fun j inside => ?_
    have less : 7 - j < 8 := by omega
    rw [UInt8.toNat_ofNat', Nat.testBit_mod_two_pow, Nat.mod_eq_of_lt low, Nat.testBit_div_two_pow, decide_eq_true less, Bool.true_and,
      Nat.add_comm]
  rw [bits, List.flatMap_map]
  simp only [byte]
  rfl

theorem tail_bits {data : List UInt8} (short : data.length < 2 ^ 61) : bits (padded data) = pad (bits data) := by
  set rem := data.drop (64 * (data.length / 64)) with left
  have length : rem.length = data.length % 64 := by
    rw [left, List.length_drop]
    omega
  have total := length_bits data
  -- the one bit with the seven zeros behind it, the other zero bytes, the length
  have marker : byteBits 0x80 = true :: List.replicate 7 false := by decide
  have count := length_bytes (n := data.length * 8) (by omega)
  have fills : Fills (bits data).length (7 + 8 * ((if rem.length + 1 + 8 ≤ 64 then 64 else 128) - rem.length - 9)) := by
    unfold Fills
    split <;> omega
  have zeros := fewest_zeros fills (by split <;> omega)
  rw [padded, tail, pad, zeros, ← left, ← List.append_assoc, ← List.append_assoc, left, List.take_append_drop, bits_append, bits_append]
  rw [bits_cons, marker, bits_zeros, List.cons_append, List.replicate_append_replicate, count, total, Nat.mul_comm data.length]

theorem blocks_sha256 (data : List UInt8) (n : ℕ) (inside : 64 * n ≤ data.length) (h : Hash) :
    (blocks h data n).toWords = (List.range n).foldl (fun H i => Fips180.compress H (blockAt (bits data) i)) h.toWords := by
  induction n with
  | zero => rfl
  | succ n ih =>
    have before := ih (by omega)
    rw [blocks] at before ⊢
    rw [List.range_succ, List.foldl_append, List.foldl_append, ← before, List.foldl_cons, List.foldl_nil, List.foldl_cons, List.foldl_nil]
    rw [compress_toWords (by rw [List.length_take, List.length_drop]; omega), blockAt, bits_take, bits_drop, ← Nat.mul_assoc]

theorem blocks_prefix (h : Hash) (xs ys : List UInt8) (m : ℕ) (full : xs.length = 64 * m) : blocks h (xs ++ ys) m = blocks h xs m := by
  refine List.foldl_ext _ _ _ fun h i inside => ?_
  have less := List.mem_range.mp inside
  rw [List.drop_append_of_le_length (by omega), List.take_append_of_le_length (by rw [List.length_drop]; omega)]

theorem blocks_append (h : Hash) (xs ys : List UInt8) (m n : ℕ) (full : xs.length = 64 * m) :
    blocks (blocks h xs m) ys n = blocks h (xs ++ ys) (m + n) := by
  have second : ∀ i, (xs ++ ys).drop (64 * (m + i)) = ys.drop (64 * i) := by
    intro i
    rw [Nat.mul_add, ← full, ← List.drop_drop, List.drop_left]
  rw [← blocks_prefix h xs ys m full]
  simp only [blocks, List.range_add, List.foldl_append, List.foldl_map, second]

/-! ### The digits -/

theorem hexWord_digits (w : UInt32) : hexWord w = (List.range 8).map fun i => Nat.digitChar (w.toBitVec.toNat / 16 ^ (7 - i) % 16) := by
  have pair : ∀ k, hexByte (UInt8.ofNat (w.toNat / 2 ^ (8 * k)))
      = [Nat.digitChar (w.toNat / 16 ^ (2 * k + 1) % 16), Nat.digitChar (w.toNat / 16 ^ (2 * k) % 16)] := by
    intro k
    have power : 16 ^ (2 * k) = 2 ^ (8 * k) := by
      rw [pow_mul, pow_mul]
      norm_num
    rw [hexByte, UInt8.toNat_ofNat', pow_succ 16, ← Nat.div_div_eq_div_mul, power]
    have high : ∀ n, n % 2 ^ 8 / 16 = n / 16 % 16 := by omega
    have low : ∀ n, n % 2 ^ 8 % 16 = n % 16 := by omega
    rw [high, low]
  show hexByte (UInt8.ofNat (w.toNat / 2 ^ (8 * 3))) ++ (hexByte (UInt8.ofNat (w.toNat / 2 ^ (8 * 2))) ++
    (hexByte (UInt8.ofNat (w.toNat / 2 ^ (8 * 1))) ++ (hexByte (UInt8.ofNat (w.toNat / 2 ^ (8 * 0))) ++ []))) = _
  rw [pair, pair, pair, pair]
  rfl

theorem byteChar_back (data : List UInt8) : (data.map byteChar).map (fun c => UInt8.ofNat c.toNat) = data := by
  have byte : ∀ b : UInt8, UInt8.ofNat (byteChar b).toNat = b := by
    intro b
    have small : b.toNat < 0xd800 := lt_trans (UInt8.toNat_lt b) (by decide)
    rw [byteChar, Char.ofNat, dif_pos (Or.inl small)]
    exact UInt8.ofNat_toNat
  rw [List.map_map]
  exact (List.map_congr_left fun b _ => byte b).trans (List.map_id _)

theorem tail_length (rem : List UInt8) (len : ℕ) (short : rem.length < 64) : (tail rem len).length % 64 = 0 := by
  simp only [tail, List.length_append, List.length_cons, List.length_replicate, List.length_map, List.length_range]
  split <;> omega

/-- The digest of any byte string shorter than `2 ^ 61` is the one of the standard. -/
theorem sha256Hex_standard {data : List UInt8} (short : data.length < 2 ^ 61) :
    sha256Hex (data.map byteChar) = (sha256 (bits data)).hex := by
  have full : (data.take (64 * (data.length / 64))).length = 64 * (data.length / 64) := by
    rw [List.length_take]
    omega
  have split : data.take (64 * (data.length / 64)) ++ data.drop (64 * (data.length / 64)) = data := List.take_append_drop _ _
  have first := blocks_prefix initial _ (data.drop (64 * (data.length / 64))) _ full
  rw [split] at first
  have rest := tail_length (data.drop (64 * (data.length / 64))) data.length (by rw [List.length_drop]; omega)
  have joined := blocks_append initial _ (tail (data.drop (64 * (data.length / 64))) data.length) _
    ((tail (data.drop (64 * (data.length / 64))) data.length).length / 64) full
  set count := data.length / 64 + (tail (data.drop (64 * (data.length / 64))) data.length).length / 64 with total
  have length : (padded data).length = 64 * count := by
    rw [padded, List.length_append, full, total]
    omega
  have standard := blocks_sha256 (padded data) count length.ge initial
  have blockCount : (pad (bits data)).length / 512 = count := by
    rw [← tail_bits short, length_bits, length]
    omega
  rw [sha256Hex, byteChar_back, first, joined, ← padded, sha256, blockCount, ← tail_bits short, ← initial_toWords, ← standard]
  simp only [Words.hex, Hash.toWords, List.flatMap_cons, List.flatMap_nil, hexWord_digits]

theorem sha256Hex_standard_abc : sha256Hex ['a', 'b', 'c'] = (sha256 (bits [0x61, 0x62, 0x63])).hex :=
  @sha256Hex_standard [0x61, 0x62, 0x63] (by decide)

end Dyx3.Artifact.Sha256
