import Dyx3.GnssRtk.RtcmParser
import Dyx3.Lib.Bits
import Dyx3.Lib.Gf2

/-!
The checksum of an RTCM frame (dyx3_gnss_rtk, rtcm_parser) is CRC-24Q: the table of `crc24q` gives the remainder of the message
polynomial, eight bits at a time.
-/

namespace Dyx3.GnssRtk

open Lib Lib.Gf2 Polynomial

/-- The generator of CRC-24Q. -/
def generator : ℕ := 0x1864CFB

/-- The checksum as it follows a message. -/
def crcBytes (data : Bytes) : Bytes := [(crc24q data >>> 16).toUInt8, (crc24q data >>> 8).toUInt8, (crc24q data).toUInt8]

theorem generator_top : generator.testBit 24 = true := by decide

theorem generator_small : generator < 2 ^ (24 + 1) := by decide

/-! ### The polynomial of a message -/

theorem ofBits_append (xs ys : List Bool) : ofBits (xs ++ ys) = ofBits xs * X ^ ys.length + ofBits ys := by
  induction ys using List.reverseRecOn with
  | nil => simp [ofBits]
  | append_singleton ys y ih =>
    have last : ∀ zs : List Bool, ofBits (zs ++ [y]) = ofBits zs * X + poly y.toNat := by
      intro zs
      rw [ofBits, List.foldl_append]
      rfl
    rw [← List.append_assoc, last, last, ih, List.length_append, List.length_singleton]
    ring

theorem ofBits_zeros (n : ℕ) : ofBits (List.replicate n false) = 0 := by
  induction n with
  | zero => rfl
  | succ n ih =>
    rw [List.replicate_succ', ofBits_append, ih, zero_mul, zero_add]
    simp [ofBits, poly_zero]

theorem ofBits_byte (b : UInt8) : ofBits (byteBits b) = poly b.toNat := by
  have number : ∀ n < 256, ((List.range 8).map fun i => n.testBit (7 - i)).foldl (fun r bit => r <<< 1 ^^^ bit.toNat) 0 = n := by
    decide +kernel
  have poly_fold : ∀ (xs : List Bool) (r : ℕ),
      poly (xs.foldl (fun r bit => r <<< 1 ^^^ bit.toNat) r) = xs.foldl (fun p bit => p * X + poly bit.toNat) (poly r) := by
    intro xs
    induction xs with
    | nil => exact fun _ => rfl
    | cons x xs ih =>
      intro r
      rw [List.foldl_cons, List.foldl_cons, ih, poly_xor, poly_shiftLeft, pow_one]
  have fold := poly_fold (byteBits b) 0
  rw [byteBits, number b.toNat (UInt8.toNat_lt b), poly_zero] at fold
  exact fold.symm

theorem message_concat (data : Bytes) (b : UInt8) : ofBits (bits (data ++ [b])) = ofBits (bits data) * X ^ 8 + poly b.toNat := by
  rw [bits_append, ofBits_append, show bits [b] = byteBits b from List.flatMap_singleton .., ofBits_byte, length_byteBits]

/-! ### The table -/

/-- Eight steps of the shift register. -/
def shift8 (r : ℕ) : ℕ := (List.range 8).foldl (fun r _ => divide generator 24 r false) r

theorem poly_shift8 (r : ℕ) : poly generator ∣ poly r * X ^ 8 - poly (shift8 r) := by
  have run : ∀ (xs : List ℕ) (r : ℕ), poly generator ∣ poly r * X ^ xs.length - poly (xs.foldl (fun r _ => divide generator 24 r false) r) := by
    intro xs
    induction xs with
    | nil => exact fun r => by simp
    | cons x xs ih =>
      intro r
      have first := poly_divide generator 24 r false
      rw [show poly (false.toNat) = 0 from poly_zero, add_zero] at first
      have both := dvd_add (dvd_mul_of_dvd_left first (X ^ xs.length)) (ih (divide generator 24 r false))
      rw [List.length_cons, List.foldl_cons]
      convert both using 1
      ring
  exact run (List.range 8) r

theorem table_shift8 {i : ℕ} (byte : i < 256) : (table (UInt32.ofNat i)).toNat = shift8 (i <<< 16) := by
  have all : ∀ i < 256, (table (UInt32.ofNat i)).toNat = shift8 (i <<< 16) := by decide +kernel
  exact all i byte

theorem shift8_lt {r : ℕ} (low : r < 2 ^ 24) : shift8 r < 2 ^ 24 := by
  have run : ∀ (xs : List ℕ) (r : ℕ), r < 2 ^ 24 → xs.foldl (fun r _ => divide generator 24 r false) r < 2 ^ 24 := by
    intro xs
    induction xs with
    | nil => exact fun _ low => low
    | cons x xs ih => exact fun r low => ih _ (divide_lt generator_top generator_small low false)
  exact run _ r low

/-- One byte more. -/
def crcStep (crc : UInt32) (b : UInt8) : UInt32 := ((crc <<< 8) ^^^ table (((crc >>> 16) &&& 0xFF) ^^^ b.toUInt32)) &&& 0xFFFFFF

theorem crcStep_toNat {crc : UInt32} (low : crc.toNat < 2 ^ 24) (b : UInt8) :
    (crcStep crc b).toNat = (crc.toNat % 2 ^ 16) <<< 8 ^^^ shift8 ((crc.toNat >>> 16 ^^^ b.toNat) <<< 16) := by
  have small : b.toNat < 2 ^ 8 := UInt8.toNat_lt b
  have high : crc.toNat >>> 16 < 2 ^ 8 := by
    rw [Nat.shiftRight_eq_div_pow]
    omega
  have index : crc.toNat >>> 16 ^^^ b.toNat < 256 := Nat.xor_lt_two_pow high small
  have entry : table (((crc >>> 16) &&& 0xFF) ^^^ b.toUInt32) = table (UInt32.ofNat (crc.toNat >>> 16 ^^^ b.toNat)) := by
    congr 1
    apply UInt32.toNat.inj
    have shifted : (UInt32.toNat 16) % 32 = 16 := rfl
    have mask : (UInt32.toNat 0xFF) = 2 ^ 8 - 1 := rfl
    have fits : crc.toNat >>> 16 ^^^ b.toNat < 2 ^ 32 := lt_trans index (by decide)
    rw [UInt32.toNat_xor, UInt32.toNat_and, UInt32.toNat_shiftRight, UInt8.toNat_toUInt32, UInt32.toNat_ofNat', Nat.mod_eq_of_lt fits]
    rw [shifted, mask, Nat.and_two_pow_sub_one_eq_mod, Nat.mod_eq_of_lt high]
  have row := shift8_lt (r := (crc.toNat >>> 16 ^^^ b.toNat) <<< 16) (by rw [Nat.shiftLeft_eq]; omega)
  rw [crcStep, entry, UInt32.toNat_and, UInt32.toNat_xor, UInt32.toNat_shiftLeft, table_shift8 index]
  rw [show (UInt32.toNat 0xFFFFFF) = 2 ^ 24 - 1 from rfl, Nat.and_two_pow_sub_one_eq_mod, Nat.xor_mod_two_pow, Nat.mod_eq_of_lt row]
  congr 1
  rw [show (UInt32.toNat 8) % 32 = 8 from rfl, Nat.shiftLeft_eq, Nat.shiftLeft_eq]
  omega

theorem crcStep_lt (crc : UInt32) (b : UInt8) : (crcStep crc b).toNat < 2 ^ 24 := by
  rw [crcStep, UInt32.toNat_and]
  exact lt_of_le_of_lt Nat.and_le_right (by decide)

/-- The high byte of the register and the rest of it. -/
theorem poly_register {c : ℕ} : poly c = poly (c >>> 16) * X ^ 16 + poly (c % 2 ^ 16) := by
  rw [← poly_shiftLeft, ← poly_xor]
  congr 1
  refine Nat.eq_of_testBit_eq fun i => ?_
  rw [Nat.testBit_xor, Nat.testBit_shiftLeft, Nat.testBit_shiftRight, Nat.testBit_mod_two_pow]
  by_cases le : 16 ≤ i
  · simp [le, Nat.not_lt.mpr le]
  · simp [le, Nat.lt_of_not_le le]

theorem poly_crcStep {crc : UInt32} (low : crc.toNat < 2 ^ 24) (b : UInt8) :
    poly generator ∣ poly crc.toNat * X ^ 8 + poly b.toNat * X ^ 24 - poly (crcStep crc b).toNat := by
  have row := poly_shift8 ((crc.toNat >>> 16 ^^^ b.toNat) <<< 16)
  rw [crcStep_toNat low b, poly_xor, poly_shiftLeft, poly_register (c := crc.toNat)]
  rw [poly_shiftLeft, poly_xor] at row
  convert row using 1
  ring

theorem crc24q_concat (data : Bytes) (b : UInt8) : crc24q (data ++ [b]) = crcStep (crc24q data) b := by
  rw [crc24q, List.foldl_append]
  rfl

/-- The register over a whole message. -/
theorem crc24q_run (data : Bytes) : (crc24q data).toNat < 2 ^ 24 ∧ poly generator ∣ ofBits (bits data) * X ^ 24 - poly (crc24q data).toNat := by
  induction data using List.reverseRecOn with
  | nil =>
    refine ⟨by decide, ?_⟩
    rw [show (crc24q []).toNat = 0 from rfl, poly_zero, sub_zero, show ofBits (bits []) = 0 from rfl, zero_mul]
    exact dvd_zero _
  | append_singleton data b ih =>
    obtain ⟨low, same⟩ := ih
    rw [crc24q_concat]
    refine ⟨crcStep_lt _ b, ?_⟩
    have next := dvd_add (dvd_mul_of_dvd_left same (X ^ 8)) (poly_crcStep low b)
    rw [message_concat]
    convert next using 1
    ring

/-! ### The checksum -/

theorem crcBytes_number (c : UInt32) (low : c.toNat < 2 ^ 24) :
    ((c >>> 16).toUInt8.toNat <<< 16 ^^^ (c >>> 8).toUInt8.toNat <<< 8) ^^^ c.toUInt8.toNat = c.toNat := by
  have first : (c >>> 16).toUInt8.toNat = c.toNat >>> 16 % 2 ^ 8 := by
    rw [UInt32.toNat_toUInt8, UInt32.toNat_shiftRight]
    rfl
  have second : (c >>> 8).toUInt8.toNat = c.toNat >>> 8 % 2 ^ 8 := by
    rw [UInt32.toNat_toUInt8, UInt32.toNat_shiftRight]
    rfl
  rw [first, second, UInt32.toNat_toUInt8]
  refine Nat.eq_of_testBit_eq fun i => ?_
  simp only [Nat.testBit_xor, Nat.testBit_shiftLeft, Nat.testBit_mod_two_pow, Nat.testBit_shiftRight]
  rcases Nat.lt_or_ge i 8 with low8 | high8
  · simp [show ¬16 ≤ i by omega, Nat.not_le.mpr low8, low8]
  rcases Nat.lt_or_ge i 16 with low16 | high16
  · simp [high8, Nat.not_le.mpr low16, Nat.not_lt.mpr high8, show i - 8 < 8 by omega, Nat.add_sub_cancel' high8]
  rcases Nat.lt_or_ge i 24 with low24 | high24
  · simp [high16, show 8 ≤ i by omega, show ¬i < 8 by omega, show ¬i - 8 < 8 by omega, show i - 16 < 8 by omega, Nat.add_sub_cancel' high16]
  · rw [Nat.testBit_lt_two_pow (lt_of_lt_of_le low (Nat.pow_le_pow_right (by decide) high24))]
    simp [show ¬i - 16 < 8 by omega, show ¬i - 8 < 8 by omega, show ¬i < 8 by omega]

theorem message_crcBytes (data : Bytes) : ofBits (bits (data ++ crcBytes data)) = ofBits (bits data) * X ^ 24 + poly (crc24q data).toNat := by
  have low := (crc24q_run data).1
  have split : data ++ crcBytes data
      = data ++ [(crc24q data >>> 16).toUInt8] ++ [(crc24q data >>> 8).toUInt8] ++ [(crc24q data).toUInt8] := by
    rw [crcBytes, List.append_assoc, List.append_assoc]
    rfl
  rw [split, message_concat, message_concat, message_concat]
  conv_rhs => rw [← crcBytes_number (crc24q data) low, poly_xor, poly_xor, poly_shiftLeft, poly_shiftLeft]
  ring

/-- `crc24q` is the remainder of the message polynomial times `x ^ 24` modulo the generator, as the long division of the bits finds it;
a message with its checksum behind it has the checksum zero. -/
theorem crc24q_remainder (data : Bytes) :
    poly (crc24q data).toNat = ofBits (bits data) * X ^ 24 %ₘ poly generator ∧
    (crc24q data).toNat = (bits data ++ List.replicate 24 false).foldl (divide generator 24) 0 ∧
    crc24q (data ++ crcBytes data) = 0 := by
  have remainder : ∀ data : Bytes, poly (crc24q data).toNat = ofBits (bits data) * X ^ 24 %ₘ poly generator := fun data =>
    remainder_unique generator_top generator_small (crc24q_run data).1 (crc24q_run data).2
  refine ⟨remainder data, ?_, ?_⟩
  · apply poly_injective
    rw [remainder data, division_remainder generator_top generator_small, ofBits_append, ofBits_zeros, add_zero, List.length_replicate]
  · -- the message with its checksum is a multiple of the generator
    have whole : poly generator ∣ ofBits (bits (data ++ crcBytes data)) := by
      rw [message_crcBytes, ← CharTwo.sub_eq_add]
      exact (crc24q_run data).2
    have none : poly (crc24q (data ++ crcBytes data)).toNat = poly 0 := by
      rw [remainder, poly_zero]
      exact (modByMonic_eq_zero_iff_dvd (poly_monic generator_top generator_small).1).mpr (dvd_mul_of_dvd_left whole _)
    exact UInt32.toNat.inj (poly_injective none)

end Dyx3.GnssRtk
