import Dyx3.GnssRtk.GgaProvider
import Mathlib.Algebra.Order.Round
import Mathlib.Data.Bool.AllAny
import Mathlib.Tactic.Linarith

/-!
What the sentence says of the position. The minutes of an angle are rounded after its degrees were cut off, so just below a whole degree
they come out as `60.0000`.
-/

namespace Dyx3.GnssRtk

open Lib

/-! ### Digits -/

theorem padded_digits {w n : ℕ} (positive : 0 < w) (small : n < 10 ^ w) :
    (padZeros w (decimal n)).length = w ∧ AllDigits (padZeros w (decimal n)) ∧ Nat.ofDigitChars 10 (padZeros w (decimal n)) 0 = n := by
  have short : (decimal n).length ≤ w := (Nat.length_toDigits_le_iff (by decide) positive).mpr small
  refine ⟨?_, (allDigits_zeros _).append (allDigits_toDigits n), ?_⟩
  · rw [padZeros, List.length_append, List.length_replicate]
    omega
  · rw [padZeros, Nat.ofDigitChars_append, Nat.ofDigitChars_replicate_zero, Nat.mul_zero]
    exact Nat.ofDigitChars_ten_toDigits

/-- The number that `fixed` writes, in units of the last decimal. -/
def units (decimals : ℕ) (x : ℚ) : ℕ :=
  let scaled := |x| * 10 ^ decimals
  let down := ⌊scaled⌋.toNat
  let half := scaled - down
  if half < 1 / 2 ∨ (half = 1 / 2 ∧ down % 2 = 0) then down else down + 1

theorem fixed_toList (decimals : ℕ) (x : ℚ) :
    (fixed decimals x).toList = (if x < 0 then ['-'] else []) ++ decimal (units decimals x / 10 ^ decimals) ++
      '.' :: padZeros decimals (decimal (units decimals x % 10 ^ decimals)) := by
  have zeros : ∀ k, (String.join (List.replicate k "0")).toList = List.replicate k '0' := by
    intro k
    rw [String.toList_join]
    induction k with
    | zero => rfl
    | succ k ih =>
      rw [List.replicate_succ, List.flatMap_cons, ih]
      rfl
  have count : ∀ n : ℕ, (toString n).length = (decimal n).length := by
    intro n
    rw [← String.length_toList, Nat.toString_eq_repr, Nat.toList_repr]
    rfl
  have digits : ∀ n : ℕ, (toString n).toList = decimal n := by
    intro n
    rw [Nat.toString_eq_repr, Nat.toList_repr]
    rfl
  have sign : (if x < 0 then "-" else "").toList = if x < 0 then ['-'] else [] := by
    split <;> rfl
  unfold fixed
  dsimp only
  rw [String.toList_append, String.toList_append, String.toList_append, String.toList_append, zeros, digits, digits, count, sign,
    show ".".toList = ['.'] from rfl, padZeros]
  simp only [List.append_assoc, List.cons_append, List.nil_append]
  rfl

variable {x : ℚ}

theorem scaled_floor (decimals : ℕ) (x : ℚ) :
    ((⌊|x| * 10 ^ decimals⌋.toNat : ℕ) : ℚ) ≤ |x| * 10 ^ decimals ∧ |x| * 10 ^ decimals < (⌊|x| * 10 ^ decimals⌋.toNat : ℕ) + 1 := by
  have nonneg : 0 ≤ |x| * 10 ^ decimals := mul_nonneg (abs_nonneg x) (by positivity)
  have cast : ((⌊|x| * 10 ^ decimals⌋.toNat : ℕ) : ℚ) = (⌊|x| * 10 ^ decimals⌋ : ℤ) := by
    rw [← Int.cast_natCast, Int.toNat_of_nonneg (Int.floor_nonneg.mpr nonneg)]
  rw [cast]
  exact ⟨Int.floor_le _, Int.lt_floor_add_one _⟩

theorem units_near (decimals : ℕ) (x : ℚ) : |(units decimals x : ℚ) - |x| * 10 ^ decimals| ≤ 1 / 2 := by
  obtain ⟨below, above⟩ := scaled_floor decimals x
  unfold units
  dsimp only
  rw [abs_le]
  split
  · rename_i down
    rcases down with less | ⟨same, -⟩ <;> constructor <;> linarith
  · rename_i up
    have half : 1 / 2 ≤ |x| * 10 ^ decimals - (⌊|x| * 10 ^ decimals⌋.toNat : ℕ) := not_lt.mp fun less => up (.inl less)
    push_cast
    constructor <;> linarith

/-- An even number is reached from a half below it. -/
theorem units_lt {decimals n : ℕ} (even : n % 2 = 0) : units decimals x < n ↔ |x| * 10 ^ decimals < n - 1 / 2 := by
  obtain ⟨below, above⟩ := scaled_floor decimals x
  unfold units
  dsimp only
  generalize ⌊|x| * 10 ^ decimals⌋.toNat = down at *
  generalize |x| * 10 ^ decimals = scaled at *
  have floor_lt : down < n ↔ scaled < n := by
    constructor
    · intro less
      have : ((down + 1 : ℕ) : ℚ) ≤ n := by exact_mod_cast less
      push_cast at this
      linarith
    · intro less
      exact_mod_cast lt_of_le_of_lt below less
  by_cases low : scaled - down < 1 / 2 ∨ (scaled - down = 1 / 2 ∧ down % 2 = 0)
  · rw [if_pos low, floor_lt]
    constructor
    · intro less
      have step : ((down + 1 : ℕ) : ℚ) ≤ n := by exact_mod_cast floor_lt.mpr less
      push_cast at step
      rcases low with near | ⟨tie, isEven⟩
      · linarith
      · -- a tie below an odd number: the even one is further up
        have further : ((down + 2 : ℕ) : ℚ) ≤ n := by
          have := floor_lt.mpr less
          exact_mod_cast (show down + 2 ≤ n by omega)
        push_cast at further
        linarith
    · intro less
      linarith
  · rw [if_neg low]
    have half : 1 / 2 ≤ scaled - down := not_lt.mp fun less => low (.inl less)
    constructor
    · intro less
      have step : ((down + 2 : ℕ) : ℚ) ≤ n := by exact_mod_cast less
      push_cast at step
      linarith
    · intro less
      have step : ((down + 1 : ℕ) : ℚ) < n := by
        push_cast
        linarith
      exact_mod_cast step

/-! ### One angle -/

/-- The minutes of the angle do not round up to sixty. -/
def CarryFree (angle : ℚ) : Prop := (|angle| - ⌊|angle|⌋) * 60 < 59.99995

theorem minutes_range (angle : ℚ) : 0 ≤ (|angle| - ⌊|angle|⌋) * 60 ∧ (|angle| - ⌊|angle|⌋) * 60 < 60 := by
  have low := Int.floor_le |angle|
  have high := Int.lt_floor_add_one |angle|
  constructor <;> linarith

theorem degrees_cast (angle : ℚ) : ((⌊|angle|⌋.toNat : ℕ) : ℚ) = ⌊|angle|⌋ := by
  rw [← Int.cast_natCast, Int.toNat_of_nonneg (Int.floor_nonneg.mpr (abs_nonneg angle))]

/-- The units of the minutes. -/
def minuteUnits (angle : ℚ) : ℕ := units 4 ((|angle| - ⌊|angle|⌋) * 60)

theorem minuteUnits_le (angle : ℚ) : minuteUnits angle ≤ 600000 := by
  obtain ⟨low, high⟩ := minutes_range angle
  have near := (abs_le.mp (units_near 4 ((|angle| - ⌊|angle|⌋) * 60))).2
  rw [abs_of_nonneg low] at near
  have : ((minuteUnits angle : ℕ) : ℚ) < (600001 : ℕ) := by
    unfold minuteUnits
    push_cast
    linarith
  exact Nat.lt_succ_iff.mp (by exact_mod_cast this)

theorem minuteUnits_lt (angle : ℚ) : minuteUnits angle < 600000 ↔ CarryFree angle := by
  rw [minuteUnits, units_lt (by decide), abs_of_nonneg (minutes_range angle).1, CarryFree]
  push_cast
  constructor <;> intro less <;> linarith

theorem angleField_eq (width : ℕ) (angle : ℚ) :
    angleField width angle = padZeros width (decimal ⌊|angle|⌋.toNat) ++
      (padZeros 2 (decimal (minuteUnits angle / 10 ^ 4)) ++ '.' :: padZeros 4 (decimal (minuteUnits angle % 10 ^ 4))) := by
  have nonneg := (minutes_range angle).1
  have count := (padded_digits (w := 4) (n := minuteUnits angle % 10 ^ 4) (by decide) (Nat.mod_lt _ (by decide))).1
  rw [angleField, degrees_cast, fixed_toList, if_neg (not_lt.mpr nonneg), ← minuteUnits]
  generalize padZeros 4 (decimal (minuteUnits angle % 10 ^ 4)) = decimals at count ⊢
  congr 1
  rw [padZeros, padZeros, List.nil_append, List.length_append, List.length_cons, count, ← List.append_assoc]
  rw [show ∀ k, 7 - (k + (4 + 1)) = 2 - k by omega]

theorem angle_read {width : ℕ} (positive : 0 < width) {angle : ℚ} (fits : ⌊|angle|⌋.toNat < 10 ^ width) :
    readAngle width (angleField width angle) = some (⌊|angle|⌋.toNat, (minuteUnits angle : ℚ) / 10 ^ 4) := by
  have small := minuteUnits_le angle
  obtain ⟨length₁, all₁, value₁⟩ := padded_digits positive fits
  obtain ⟨length₂, all₂, value₂⟩ := padded_digits (w := 2) (n := minuteUnits angle / 10 ^ 4) (by decide) (by omega)
  obtain ⟨length₃, all₃, value₃⟩ := padded_digits (w := 4) (n := minuteUnits angle % 10 ^ 4) (by decide) (Nat.mod_lt _ (by decide))
  rw [angleField_eq]
  generalize padZeros width (decimal ⌊|angle|⌋.toNat) = degrees at *
  generalize padZeros 2 (decimal (minuteUnits angle / 10 ^ 4)) = minutes at *
  generalize padZeros 4 (decimal (minuteUnits angle % 10 ^ 4)) = decimals at *
  have rest : (degrees ++ (minutes ++ '.' :: decimals)).drop (width + 2) = '.' :: decimals := by
    rw [← List.append_assoc, ← length₁, ← length₂, ← List.length_append, List.drop_left]
  have first : (degrees ++ (minutes ++ '.' :: decimals)).take width = degrees := by rw [← length₁, List.take_left]
  have second : ((degrees ++ (minutes ++ '.' :: decimals)).drop width).take 2 = minutes := by
    rw [← length₁, List.drop_left, ← length₂, List.take_left]
  have digits : (degrees ++ minutes ++ decimals).all Char.isDigit = true := List.all_eq_true.mpr ((all₁.append all₂).append all₃)
  rw [readAngle, rest]
  simp only
  rw [first, second, if_pos ⟨digits, length₁, length₂, length₃⟩, value₁, Nat.ofDigitChars_append,
    Nat.ofDigitChars_eq_ofDigitChars_zero, value₂, value₃, length₃]
  have sum : 10 ^ 4 * (minuteUnits angle / 10 ^ 4) + minuteUnits angle % 10 ^ 4 = minuteUnits angle := Nat.div_add_mod _ _
  rw [sum]

theorem encodes_iff {width : ℕ} (positive : 0 < width) {angle : ℚ} (fits : ⌊|angle|⌋.toNat < 10 ^ width) {p n : Char} :
    EncodesAngle angle width p n (angleField width angle) [hemisphere p n angle] ↔ CarryFree angle := by
  have read := angle_read positive fits
  have near := units_near 4 ((|angle| - ⌊|angle|⌋) * 60)
  rw [abs_of_nonneg (minutes_range angle).1, ← minuteUnits] at near
  constructor
  · rintro ⟨degrees, minutes, sign, found, -, less, -⟩
    cases read.symm.trans found
    rw [← minuteUnits_lt]
    have : ((minuteUnits angle : ℕ) : ℚ) < (600000 : ℕ) := by
      push_cast
      linarith
    exact_mod_cast this
  · intro free
    have less : ((minuteUnits angle : ℕ) : ℚ) < 600000 := by exact_mod_cast (minuteUnits_lt angle).mpr free
    have error : |((⌊|angle|⌋.toNat : ℕ) + (minuteUnits angle : ℚ) / 10 ^ 4 / 60) * 60 - |angle| * 60| ≤ 0.00005 := by
      rw [degrees_cast]
      rw [abs_le] at near ⊢
      constructor <;> linarith
    refine ⟨_, _, if angle ≥ 0 then 1 else -1, read, by positivity, by linarith, ?_, ?_⟩
    · unfold hemisphere
      split
      · exact .inl ⟨rfl, rfl⟩
      · exact .inr ⟨rfl, rfl⟩
    · split
      · rename_i nonneg
        rw [abs_of_nonneg nonneg] at error ⊢
        rw [one_mul]
        exact error
      · rename_i neg
        have opposite : angle = -|angle| := by rw [abs_of_neg (not_le.mp neg), neg_neg]
        rw [← abs_neg]
        convert error using 2
        rw [opposite]
        simp only [abs_neg, abs_abs]
        ring

/-! ### The sentence -/

theorem before_comma {a : List Char} (plain : ',' ∉ a) : ∀ c ∈ a, decide (c ≠ ',') = true := by
  intro c member
  refine decide_eq_true ?_
  rintro rfl
  exact plain member

theorem fieldAt_zero {a : List Char} (plain : ',' ∉ a) (s : List Char) : fieldAt 0 (a ++ ',' :: s) = a := by
  rw [fieldAt, List.takeWhile_append_of_pos (before_comma plain), List.takeWhile_cons_of_neg (by decide)]
  exact List.append_nil a

theorem fieldAt_succ {a : List Char} (plain : ',' ∉ a) (k : ℕ) (s : List Char) : fieldAt (k + 1) (a ++ ',' :: s) = fieldAt k s := by
  rw [fieldAt, List.dropWhile_append_of_pos (before_comma plain), List.dropWhile_cons_of_neg (by decide)]
  rfl

/-- A character of the text: neither a comma nor the end of the body. -/
def Plain (c : Char) : Prop := c ≠ ',' ∧ c ≠ '*' ∧ c.toNat < 128

instance (c : Char) : Decidable (Plain c) := inferInstanceAs (Decidable (_ ∧ _ ∧ _))

theorem digit_plain {c : Char} (digit : c.isDigit = true) : Plain c := by
  obtain ⟨d, small, rfl⟩ := digit_cases digit
  have all : ∀ d < 10, Nat.digitChar d ≠ ',' ∧ Nat.digitChar d ≠ '*' ∧ (Nat.digitChar d).toNat < 128 := by decide
  exact all d small

theorem padZeros_plain {width : ℕ} {text : List Char} (plain : ∀ c ∈ text, Plain c) : ∀ c ∈ padZeros width text, Plain c := by
  intro c member
  rcases List.mem_append.mp member with zero | member
  · rw [(List.mem_replicate.mp zero).2]
    exact digit_plain rfl
  · exact plain c member

theorem decimal_plain (n : ℕ) : ∀ c ∈ decimal n, Plain c := fun c member => digit_plain (allDigits_toDigits n c member)

theorem fixed_plain (decimals : ℕ) (x : ℚ) : ∀ c ∈ (fixed decimals x).toList, Plain c := by
  rw [fixed_toList]
  intro c member
  rcases List.mem_append.mp member with whole | fraction
  · rcases List.mem_append.mp whole with sign | digit
    · split at sign
      · rw [List.mem_singleton.mp sign]
        exact ⟨by decide, by decide, by decide⟩
      · exact absurd sign List.not_mem_nil
    · exact decimal_plain _ c digit
  · rcases List.mem_cons.mp fraction with rfl | digit
    · exact ⟨by decide, by decide, by decide⟩
    · exact padZeros_plain (decimal_plain _) c digit

theorem oneDecimal_plain (x : Flt) : ∀ c ∈ oneDecimal x, Plain c := by
  cases x with
  | fin x => exact fixed_plain 1 x
  | inf neg =>
    cases neg with
    | true => exact List.all_iff_forall_prop.mp (by decide)
    | false => exact List.all_iff_forall_prop.mp (by decide)
  | nan => exact List.all_iff_forall_prop.mp (by decide)

theorem timeField_plain (utcEpochS : ℤ) : ∀ c ∈ timeField utcEpochS, Plain c := by
  intro c member
  rcases List.mem_append.mp member with member | hundredths
  · rcases List.mem_append.mp member with member | member
    · rcases List.mem_append.mp member with member | member
      · exact padZeros_plain (decimal_plain _) c member
      · exact padZeros_plain (decimal_plain _) c member
    · exact padZeros_plain (decimal_plain _) c member
  · have all : ∀ c ∈ ".00".toList, Plain c := List.all_iff_forall_prop.mp (by decide)
    exact all c hundredths

theorem angleField_plain (width : ℕ) (angle : ℚ) : ∀ c ∈ angleField width angle, Plain c := by
  intro c member
  rcases List.mem_append.mp member with member | member
  · exact padZeros_plain (decimal_plain _) c member
  · exact padZeros_plain (fixed_plain 4 _) c member

theorem no_comma {text : List Char} (plain : ∀ c ∈ text, Plain c) : ',' ∉ text := fun member => (plain ',' member).1 rfl

theorem hemisphere_plain {p n : Char} (angle : ℚ) (first : Plain p) (second : Plain n) : ∀ c ∈ [hemisphere p n angle], Plain c := by
  intro c member
  rw [List.mem_singleton.mp member, hemisphere]
  split
  · exact first
  · exact second

/-- The text up to the comma behind the longitude's letter. -/
def ggaHead (g : GgaInput) : List Char :=
  "GPGGA".toList ++ ',' :: (timeField g.utcEpochS ++ ',' :: (angleField 2 g.latitudeDeg.toRat ++ ',' ::
    ([hemisphere 'N' 'S' g.latitudeDeg.toRat] ++ ',' :: (angleField 3 g.longitudeDeg.toRat ++ ',' ::
    ([hemisphere 'E' 'W' g.longitudeDeg.toRat] ++ [','])))))

def ggaTail (g : GgaInput) : List Char :=
  decimal (quality g.fixType) ++ ',' :: (decimal g.satellites.toNat ++ ',' :: (oneDecimal g.hdop ++ ',' ::
    (oneDecimal g.altitudeMslM ++ ",M,0.0,M,,".toList)))

theorem ggaText_eq (g : GgaInput) : ggaText g = ggaHead g ++ ggaTail g := by
  simp only [ggaText, ggaHead, ggaTail, List.append_assoc, List.cons_append, List.nil_append]

theorem timeField_length (utcEpochS : ℤ) : (timeField utcEpochS).length = 9 := by
  have two : ∀ {n}, n < 100 → (padZeros 2 (decimal n)).length = 2 := fun {n} small => (padded_digits (w := 2) (by decide) small).1
  rw [timeField, List.length_append, List.length_append, List.length_append, two (by split <;> omega), two (by omega), two (by omega)]
  rfl

theorem angleField_length {width : ℕ} (positive : 0 < width) {angle : ℚ} (fits : ⌊|angle|⌋.toNat < 10 ^ width) :
    (angleField width angle).length = width + 7 := by
  have small := minuteUnits_le angle
  rw [angleField_eq, List.length_append, List.length_append, List.length_cons, (padded_digits positive fits).1,
    (padded_digits (w := 2) (by decide) (show minuteUnits angle / 10 ^ 4 < 10 ^ 2 by omega)).1,
    (padded_digits (w := 4) (by decide) (Nat.mod_lt _ (by decide))).1]

theorem xorBytes_lt {body : List Char} (ascii : ∀ c ∈ body, c.toNat < 128) : xorBytes body < 128 := by
  have run : ∀ (body : List Char) (chk : ℕ), (∀ c ∈ body, c.toNat < 128) → chk < 2 ^ 7 →
      body.foldl (fun chk c => chk ^^^ c.toNat) chk < 2 ^ 7 := by
    intro body
    induction body with
    | nil => exact fun _ _ low => low
    | cons c body ih =>
      intro chk ascii low
      exact ih _ (fun d member => ascii d (List.mem_cons_of_mem c member)) (Nat.xor_lt_two_pow low (ascii c List.mem_cons_self))
  exact run body 0 ascii (by decide)

theorem checksum_read {body : List Char} (ascii : ∀ c ∈ body, c.toNat < 128) :
    ∃ high low, nmeaChecksum body = [high, low] ∧ hexValue high * 16 + hexValue low = xorBytes body := by
  have all : ∀ n < 128, hexValue (Nat.digitChar (n / 16)).toUpper * 16 + hexValue (Nat.digitChar (n % 16)).toUpper = n := by
    decide +kernel
  have small := xorBytes_lt ascii
  have byte : xorBytes body &&& 0xFF = xorBytes body := by
    rw [show 0xFF = 2 ^ 8 - 1 from rfl, Nat.and_two_pow_sub_one_eq_mod, Nat.mod_eq_of_lt (by omega)]
  exact ⟨_, _, by rw [nmeaChecksum, byte, hexByte], all _ small⟩

theorem ggaText_chars (g : GgaInput) : ∀ c ∈ ggaText g, c ≠ '*' ∧ c.toNat < 128 := by
  have comma : (',' : Char) ≠ '*' ∧ (',' : Char).toNat < 128 := by decide
  have north : ∀ c ∈ [hemisphere 'N' 'S' g.latitudeDeg.toRat], Plain c :=
    hemisphere_plain _ ⟨by decide, by decide, by decide⟩ ⟨by decide, by decide, by decide⟩
  have east : ∀ c ∈ [hemisphere 'E' 'W' g.longitudeDeg.toRat], Plain c :=
    hemisphere_plain _ ⟨by decide, by decide, by decide⟩ ⟨by decide, by decide, by decide⟩
  have name : ∀ c ∈ "GPGGA".toList, c ≠ '*' ∧ c.toNat < 128 := List.all_iff_forall_prop.mp (by decide)
  have ending : ∀ c ∈ ",M,0.0,M,,".toList, c ≠ '*' ∧ c.toNat < 128 := List.all_iff_forall_prop.mp (by decide)
  have piece : ∀ {text : List Char}, (∀ c ∈ text, Plain c) → ∀ {rest : List Char}, (∀ c ∈ rest, c ≠ '*' ∧ c.toNat < 128) →
      ∀ c ∈ text ++ ',' :: rest, c ≠ '*' ∧ c.toNat < 128 := by
    intro text plain rest good c member
    rcases List.mem_append.mp member with own | member
    · exact (plain c own).2
    · rcases List.mem_cons.mp member with rfl | later
      · exact comma
      · exact good c later
  have last : ∀ c ∈ oneDecimal g.altitudeMslM ++ ",M,0.0,M,,".toList, c ≠ '*' ∧ c.toNat < 128 := by
    intro c member
    rcases List.mem_append.mp member with own | later
    · exact (oneDecimal_plain _ c own).2
    · exact ending c later
  have fields := piece (timeField_plain g.utcEpochS) (piece (angleField_plain 2 g.latitudeDeg.toRat) (piece north
    (piece (angleField_plain 3 g.longitudeDeg.toRat) (piece east (piece (decimal_plain (quality g.fixType))
    (piece (decimal_plain g.satellites.toNat) (piece (oneDecimal_plain g.hdop) last)))))))
  intro c member
  rcases List.mem_append.mp member with own | member
  · exact name c own
  · rcases List.mem_cons.mp member with rfl | later
    · exact comma
    · exact fields c later

theorem sentence_checksum (g : GgaInput) : ChecksumOf ('$' :: ggaBody g ++ '*' :: nmeaChecksum (ggaBody g) ++ ['\r', '\n']) := by
  have chars : ∀ c ∈ ggaBody g, c ≠ '*' ∧ c.toNat < 128 := fun c member => ggaText_chars g c (List.mem_of_mem_take member)
  obtain ⟨high, low, written, value⟩ := checksum_read fun c member => (chars c member).2
  refine ⟨ggaBody g, high, low, ?_, fun star => (chars '*' star).1 rfl, value⟩
  rw [written, List.append_assoc]
  rfl

theorem usable_angles {g : GgaInput} {maxAgeS : Flt}
    (usable : ggaPositionIsUsable g.latitudeDeg g.longitudeDeg g.altitudeMslM g.positionAgeS maxAgeS = true) :
    ⌊|g.latitudeDeg.toRat|⌋.toNat < 10 ^ 2 ∧ ⌊|g.longitudeDeg.toRat|⌋.toNat < 10 ^ 3 := by
  have floor : ∀ {x : ℚ} {n : ℕ}, |x| < n → ⌊|x|⌋.toNat < n := by
    intro x n less
    have whole : ⌊|x|⌋ < (n : ℤ) := Int.floor_lt.mpr (by exact_mod_cast less)
    have nonneg : 0 ≤ ⌊|x|⌋ := Int.floor_nonneg.mpr (abs_nonneg x)
    omega
  simp only [ggaPositionIsUsable, Bool.and_eq_true, decide_eq_true_eq] at usable
  obtain ⟨⟨⟨⟨⟨⟨⟨⟨⟨latitude, longitude⟩, -⟩, -⟩, south⟩, north⟩, west⟩, east⟩, -⟩, -⟩ := usable
  obtain ⟨x, isX⟩ := Flt.isFinite_iff.mp latitude
  obtain ⟨y, isY⟩ := Flt.isFinite_iff.mp longitude
  rw [isX] at south north ⊢
  rw [isY] at west east ⊢
  have wide : |x| ≤ 90 := abs_le.mpr ⟨Flt.fin_le.mp south, Flt.fin_le.mp north⟩
  have long : |y| ≤ 180 := abs_le.mpr ⟨Flt.fin_le.mp west, Flt.fin_le.mp east⟩
  exact ⟨floor (lt_of_le_of_lt wide (by norm_num)), floor (lt_of_le_of_lt long (by norm_num))⟩

theorem ggaBody_eq {g : GgaInput} (latitude : ⌊|g.latitudeDeg.toRat|⌋.toNat < 10 ^ 2) (longitude : ⌊|g.longitudeDeg.toRat|⌋.toNat < 10 ^ 3) :
    ∃ rest, ggaBody g = ggaHead g ++ rest := by
  have length : (ggaHead g).length = 41 := by
    simp only [ggaHead, List.length_append, List.length_cons, List.length_nil, timeField_length, angleField_length (by decide) latitude,
      angleField_length (by decide) longitude]
    rfl
  refine ⟨(ggaTail g).take (199 - (ggaHead g).length), ?_⟩
  rw [ggaBody, ggaText_eq, List.take_append, List.take_of_length_le (by omega)]

/-- The sentence says where the rover is exactly when neither angle is so close below a whole degree that its minutes round up to
sixty. -/
theorem gga_position {g : GgaInput} {maxAgeS : Flt}
    (usable : ggaPositionIsUsable g.latitudeDeg g.longitudeDeg g.altitudeMslM g.positionAgeS maxAgeS = true) :
    ∃ sentence, formatGga g maxAgeS = some sentence ∧
      (Encodes g sentence ↔ CarryFree g.latitudeDeg.toRat ∧ CarryFree g.longitudeDeg.toRat) := by
  obtain ⟨latitude, longitude⟩ := usable_angles usable
  refine ⟨_, if_pos usable, ?_⟩
  obtain ⟨rest, body⟩ := ggaBody_eq latitude longitude
  have fields : ∀ chk, '$' :: ggaBody g ++ '*' :: chk ++ ['\r', '\n'] =
      ('$' :: "GPGGA".toList) ++ ',' :: (timeField g.utcEpochS ++ ',' :: (angleField 2 g.latitudeDeg.toRat ++ ',' ::
        ([hemisphere 'N' 'S' g.latitudeDeg.toRat] ++ ',' :: (angleField 3 g.longitudeDeg.toRat ++ ',' ::
        ([hemisphere 'E' 'W' g.longitudeDeg.toRat] ++ ',' :: (rest ++ '*' :: chk ++ ['\r', '\n'])))))) := by
    intro chk
    rw [body, ggaHead]
    simp only [List.append_assoc, List.cons_append, List.nil_append]
  have north : ∀ c ∈ [hemisphere 'N' 'S' g.latitudeDeg.toRat], Plain c :=
    hemisphere_plain _ ⟨by decide, by decide, by decide⟩ ⟨by decide, by decide, by decide⟩
  have east : ∀ c ∈ [hemisphere 'E' 'W' g.longitudeDeg.toRat], Plain c :=
    hemisphere_plain _ ⟨by decide, by decide, by decide⟩ ⟨by decide, by decide, by decide⟩
  have first : ',' ∉ '$' :: "GPGGA".toList := by decide
  have time := no_comma (timeField_plain g.utcEpochS)
  have lat := no_comma (angleField_plain 2 g.latitudeDeg.toRat)
  have lon := no_comma (angleField_plain 3 g.longitudeDeg.toRat)
  have checked := sentence_checksum g
  rw [Encodes, fields, fieldAt_succ first, fieldAt_succ time, fieldAt_zero lat]
  rw [fieldAt_succ first, fieldAt_succ time, fieldAt_succ lat, fieldAt_zero (no_comma north)]
  rw [fieldAt_succ first, fieldAt_succ time, fieldAt_succ lat, fieldAt_succ (no_comma north), fieldAt_zero lon]
  rw [fieldAt_succ first, fieldAt_succ time, fieldAt_succ lat, fieldAt_succ (no_comma north), fieldAt_succ lon, fieldAt_zero (no_comma east)]
  rw [encodes_iff (by decide) latitude, encodes_iff (by decide) longitude, ← fields, and_iff_left checked]

/-- Less than `2 ^ -24` degrees below thirteen. -/
def belowThirteen : GgaInput := { latitudeDeg := .fin (13 - 1 / 2 ^ 24) }

theorem gga_position_greenwich : ∃ sentence, formatGga {} (.fin 5) = some sentence ∧ (Encodes {} sentence ↔ CarryFree 0 ∧ CarryFree 0) :=
  @gga_position {} (.fin 5) (by decide +kernel)

/-- The minutes are written as sixty. -/
theorem gga_sixty_minutes : ∃ sentence, formatGga belowThirteen (.fin 5) = some sentence ∧ ¬Encodes belowThirteen sentence := by
  refine ⟨_, if_pos (by decide +kernel), ?_⟩
  rintro ⟨⟨degrees, minutes, sign, read, -, less, -⟩, -⟩
  have sixty : readAngle 2 (fieldAt 2 ('$' :: ggaBody belowThirteen ++ '*' :: nmeaChecksum (ggaBody belowThirteen) ++ ['\r', '\n']))
      = some (12, 60) := by
    decide +kernel
  cases sixty.symm.trans read
  exact absurd less (by decide)

end Dyx3.GnssRtk
