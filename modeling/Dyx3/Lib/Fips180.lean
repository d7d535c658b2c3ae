import Dyx3.Lib.Bits
import Mathlib.Analysis.SpecialFunctions.Pow.Real
import Mathlib.Data.Nat.Prime.Nth

/-!
SHA-256 as FIPS 180-4 defines it on strings of bits: the constants by their meaning, the padding, the message schedule and the hash
computation block by block.
-/

namespace Dyx3.Lib.Fips180

abbrev Word := BitVec 32

/-! ### Functions and constants -/

def ch (x y z : Word) : Word := (x &&& y) ^^^ (~~~x &&& z)
def maj (x y z : Word) : Word := (x &&& y) ^^^ (x &&& z) ^^^ (y &&& z)
def bigSigma0 (x : Word) : Word := x.rotateRight 2 ^^^ x.rotateRight 13 ^^^ x.rotateRight 22
def bigSigma1 (x : Word) : Word := x.rotateRight 6 ^^^ x.rotateRight 11 ^^^ x.rotateRight 25
def smallSigma0 (x : Word) : Word := x.rotateRight 7 ^^^ x.rotateRight 18 ^^^ (x >>> 3)
def smallSigma1 (x : Word) : Word := x.rotateRight 17 ^^^ x.rotateRight 19 ^^^ (x >>> 10)

/-- The first thirty-two bits of the fractional part. -/
noncomputable def fraction32 (x : ℝ) : Word := BitVec.ofNat 32 ⌊Int.fract x * (2 ^ 32 : ℕ)⌋₊

/-- From the cube roots of the primes. -/
noncomputable def constant (t : ℕ) : Word := fraction32 ((Nat.nth Nat.Prime t : ℝ) ^ ((3 : ℕ) : ℝ)⁻¹)

/-- The eight words of a hash value, and the working variables. -/
structure Words where
  a : Word
  b : Word
  c : Word
  d : Word
  e : Word
  f : Word
  g : Word
  h : Word
deriving DecidableEq

/-- From the square roots of the primes. -/
noncomputable def initialWord (i : ℕ) : Word := fraction32 ((Nat.nth Nat.Prime i : ℝ) ^ ((2 : ℕ) : ℝ)⁻¹)

noncomputable def initial : Words :=
  ⟨initialWord 0, initialWord 1, initialWord 2, initialWord 3, initialWord 4, initialWord 5, initialWord 6, initialWord 7⟩

/-! ### The message -/

/-- The length after `k` zero bits leaves room for the length in the last block. -/
def Fills (l k : ℕ) : Prop := (l + 1 + k) % 512 = 448

instance (l : ℕ) : DecidablePred (Fills l) := fun _ => inferInstanceAs (Decidable (_ = _))

theorem fills_exists (l : ℕ) : ∃ k, Fills l k := by
  refine ⟨(959 - l % 512) % 512, ?_⟩
  unfold Fills
  omega

/-- A one bit, the fewest zero bits that fill and the length in sixty-four bits. -/
def pad (m : List Bool) : List Bool :=
  m ++ true :: List.replicate (Nat.find (fills_exists m.length)) false ++ (List.range 64).map fun i => m.length.testBit (63 - i)

/-- The block `i` of the padded message. -/
def blockAt (padded : List Bool) (i : ℕ) : List Bool := (padded.drop (512 * i)).take 512

/-- The word `t` of a block. -/
def wordAt (block : List Bool) (t : ℕ) : Word := BitVec.ofNat 32 (number ((block.drop (32 * t)).take 32))

/-! ### The hash computation -/

def schedule (block : List Bool) (t : ℕ) : Word :=
  if t < 16 then wordAt block t
  else smallSigma1 (schedule block (t - 2)) + schedule block (t - 7) + smallSigma0 (schedule block (t - 15)) + schedule block (t - 16)
termination_by t

noncomputable def step (block : List Bool) (v : Words) (t : ℕ) : Words :=
  let t1 := v.h + bigSigma1 v.e + ch v.e v.f v.g + constant t + schedule block t
  let t2 := bigSigma0 v.a + maj v.a v.b v.c
  { a := t1 + t2, b := v.a, c := v.b, d := v.c, e := v.d + t1, f := v.e, g := v.f, h := v.g }

noncomputable def compress (H : Words) (block : List Bool) : Words :=
  let v := (List.range 64).foldl (step block) H
  { a := H.a + v.a, b := H.b + v.b, c := H.c + v.c, d := H.d + v.d, e := H.e + v.e, f := H.f + v.f, g := H.g + v.g, h := H.h + v.h }

noncomputable def sha256 (m : List Bool) : Words :=
  (List.range ((pad m).length / 512)).foldl (fun H i => compress H (blockAt (pad m) i)) initial

/-- The digest in hexadecimal digits, eight for each word. -/
def Words.hex (H : Words) : List Char :=
  [H.a, H.b, H.c, H.d, H.e, H.f, H.g, H.h].flatMap fun w => (List.range 8).map fun i => Nat.digitChar (w.toNat / 16 ^ (7 - i) % 16)

/-! ### The constants as numbers -/

/-- The root of a number in fixed point: `m` before the point and the bits `k` behind it. -/
theorem fraction32_root {p n m k : ℕ} (positive : n ≠ 0) (low : k < 2 ^ 32)
    (below : (m * 2 ^ 32 + k) ^ n ≤ p * 2 ^ (32 * n)) (above : p * 2 ^ (32 * n) < (m * 2 ^ 32 + k + 1) ^ n) :
    fraction32 ((p : ℝ) ^ ((n : ℕ) : ℝ)⁻¹) = BitVec.ofNat 32 k := by
  set x : ℝ := (p : ℝ) ^ ((n : ℕ) : ℝ)⁻¹ with root
  have nonneg : 0 ≤ x := Real.rpow_nonneg (Nat.cast_nonneg p) _
  have power : x ^ n = p := Real.rpow_inv_natCast_pow (Nat.cast_nonneg p) positive
  have scaled : (x * 2 ^ 32) ^ n = ((p * 2 ^ (32 * n) : ℕ) : ℝ) := by
    rw [mul_pow, power, ← pow_mul]
    push_cast
    rfl
  have lower : ((m * 2 ^ 32 + k : ℕ) : ℝ) ≤ x * 2 ^ 32 := by
    refine le_of_pow_le_pow_left₀ positive (by positivity) ?_
    rw [scaled]
    exact_mod_cast below
  have upper : x * 2 ^ 32 < ((m * 2 ^ 32 + k + 1 : ℕ) : ℝ) := by
    refine lt_of_pow_lt_pow_left₀ n (by positivity) ?_
    rw [scaled]
    exact_mod_cast above
  push_cast at lower upper
  have fits : (k : ℝ) + 1 ≤ 2 ^ 32 := by exact_mod_cast low
  have whole : ⌊x⌋ = (m : ℤ) := by
    rw [Int.floor_eq_iff]
    push_cast
    constructor <;> nlinarith [(Nat.cast_nonneg k : (0 : ℝ) ≤ k)]
  have part : ⌊Int.fract x * 2 ^ 32⌋₊ = k := by
    rw [Nat.floor_eq_iff (mul_nonneg (Int.fract_nonneg x) (by positivity)), Int.fract, whole]
    push_cast
    constructor <;> linarith
  rw [fraction32, Nat.cast_pow, Nat.cast_ofNat, part]

/-- The first sixty-four primes. -/
def primes : List ℕ :=
  [2, 3, 5, 7, 11, 13, 17, 19, 23, 29, 31, 37, 41, 43, 47, 53, 59, 61, 67, 71, 73, 79, 83, 89, 97, 101, 103, 107, 109, 113, 127, 131,
   137, 139, 149, 151, 157, 163, 167, 173, 179, 181, 191, 193, 197, 199, 211, 223, 227, 229, 233, 239, 241, 251, 257, 263, 269, 271,
   277, 281, 283, 293, 307, 311]

theorem prime_of_small {p : ℕ} (two : 2 ≤ p) (small : p < 18 ^ 2) (none : ∀ m < 18, 2 ≤ m → m < p → p % m ≠ 0) : Nat.Prime p := by
  refine Nat.prime_def_le_sqrt.mpr ⟨two, fun m above root divides => ?_⟩
  have below : m < 18 := lt_of_le_of_lt root (Nat.sqrt_lt'.mpr small)
  have less : m < p := lt_of_le_of_lt root (Nat.sqrt_lt_self two)
  exact none m below above less (Nat.mod_eq_zero_of_dvd divides)

/-- Between two of them every number has a divisor below 18. -/
theorem primes_next : ∀ t < 63, primes.getD t 0 < primes.getD (t + 1) 0 ∧
    ∀ k < primes.getD (t + 1) 0 - (primes.getD t 0 + 1),
      ∃ m < 18, 2 ≤ m ∧ m < primes.getD t 0 + 1 + k ∧ (primes.getD t 0 + 1 + k) % m = 0 := by
  decide +kernel

theorem primes_prime : ∀ t < 64, 2 ≤ primes.getD t 0 ∧ primes.getD t 0 < 18 ^ 2 ∧
    ∀ m < 18, 2 ≤ m → m < primes.getD t 0 → primes.getD t 0 % m ≠ 0 := by
  decide +kernel

theorem count_primes {t : ℕ} (inside : t < 64) : Nat.count Nat.Prime (primes.getD t 0) = t := by
  induction t with
  | zero => decide
  | succ t ih =>
    obtain ⟨above, between⟩ := primes_next t (by omega)
    obtain ⟨two, small, none⟩ := primes_prime t (by omega)
    obtain ⟨gap, split⟩ : ∃ gap, primes.getD (t + 1) 0 = primes.getD t 0 + 1 + gap :=
      ⟨primes.getD (t + 1) 0 - (primes.getD t 0 + 1), by omega⟩
    rw [split, Nat.add_sub_cancel_left] at between
    have others : Nat.count (fun k => Nat.Prime (primes.getD t 0 + 1 + k)) gap = 0 := by
      refine Nat.count_iff_forall_not.mpr fun k inside => ?_
      obtain ⟨m, _, low, less, divides⟩ := between k inside
      exact Nat.not_prime_of_dvd_of_lt (Nat.dvd_of_mod_eq_zero divides) low less
    rw [split, Nat.count_add, Nat.count_succ, if_pos (prime_of_small two small none), ih (by omega), others]

theorem nth_primes {t : ℕ} (inside : t < 64) : Nat.nth Nat.Prime t = primes.getD t 0 := by
  obtain ⟨two, small, none⟩ := primes_prime t inside
  conv_lhs => rw [← count_primes inside]
  exact Nat.nth_count (prime_of_small two small none)

/-! ### The padding -/

theorem pad_length (m : List Bool) : (pad m).length % 512 = 0 := by
  have fills : (m.length + 1 + Nat.find (fills_exists m.length)) % 512 = 448 := Nat.find_spec (fills_exists m.length)
  simp only [pad, List.length_append, List.length_cons, List.length_replicate, List.length_map, List.length_range]
  omega

theorem fewest_zeros {l k : ℕ} (fills : Fills l k) (few : k < 512) : Nat.find (fills_exists l) = k := by
  refine le_antisymm (Nat.find_min' _ fills) ?_
  have found : Fills l (Nat.find (fills_exists l)) := Nat.find_spec (fills_exists l)
  have least : ∀ j, (l + 1 + j) % 512 = 448 → k ≤ j := by
    unfold Fills at fills
    omega
  exact least _ found

end Dyx3.Lib.Fips180
