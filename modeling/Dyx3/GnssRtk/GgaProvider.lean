import Dyx3.Lib.Digits
import Dyx3.Lib.Flt

/-!
The NMEA sentence for the caster (dyx3_gnss_rtk, gga_provider), over exact numbers.
-/

namespace Dyx3.GnssRtk

open Lib

structure GgaInput where
  latitudeDeg : Flt := .fin 0
  longitudeDeg : Flt := .fin 0
  altitudeMslM : Flt := .fin 0
  positionAgeS : Flt := .fin 0
  utcEpochS : ℤ := 0
  fixType : UInt8 := 0
  satellites : UInt8 := 0
  hdop : Flt := .fin 0

def ggaPositionIsUsable (latitude longitude altitude ageS maxAgeS : Flt) : Bool :=
  latitude.isFinite && longitude.isFinite && altitude.isFinite && ageS.isFinite &&
    decide (Flt.fin (-90) ≤ latitude) && decide (latitude ≤ .fin 90) &&
    decide (Flt.fin (-180) ≤ longitude) && decide (longitude ≤ .fin 180) &&
    decide (Flt.fin 0 ≤ ageS) && decide (ageS ≤ Flt.max (.fin 0) maxAgeS)

/-! ### `snprintf` -/

/-- Zeros in front up to the width. -/
def padZeros (width : ℕ) (text : List Char) : List Char := List.replicate (width - text.length) '0' ++ text

def decimal (n : ℕ) : List Char := Nat.toDigits 10 n

/-- `%.1f` -/
def oneDecimal : Flt → List Char
  | .fin x => (fixed 1 x).toList
  | .inf neg => if neg then "-inf".toList else "inf".toList
  | .nan => "nan".toList

/-- `%02X` of a byte. -/
def hexByte (n : ℕ) : List Char := [(Nat.digitChar (n / 16)).toUpper, (Nat.digitChar (n % 16)).toUpper]

/-- The exclusive or of the bytes. -/
def xorBytes (body : List Char) : ℕ := body.foldl (fun chk c => chk ^^^ c.toNat) 0

def nmeaChecksum (body : List Char) : List Char := hexByte (xorBytes body &&& 0xFF)

/-! ### `format_gga` -/

/-- The hours, minutes and seconds of `gmtime_r`; zeros without a time. -/
def timeField (utcEpochS : ℤ) : List Char :=
  let second := if utcEpochS > 0 then utcEpochS.toNat % 86400 else 0
  padZeros 2 (decimal (second / 3600)) ++ padZeros 2 (decimal (second / 60 % 60)) ++ padZeros 2 (decimal (second % 60)) ++ ".00".toList

/-- Degrees in `width` digits and minutes with four decimals; the degrees are cut off before the minutes are rounded. -/
def angleField (width : ℕ) (angle : ℚ) : List Char :=
  let degrees := ⌊|angle|⌋.toNat
  let minutes := (|angle| - degrees) * 60
  padZeros width (decimal degrees) ++ padZeros 7 (fixed 4 minutes).toList

def quality (fixType : UInt8) : ℕ := if fixType = 6 then 4 else if fixType = 5 then 5 else if fixType = 4 then 2 else 1

def hemisphere (positive negative : Char) (angle : ℚ) : Char := if angle ≥ 0 then positive else negative

/-- The text before it is cut off at the end of the buffer. -/
def ggaText (g : GgaInput) : List Char :=
  let latitude := g.latitudeDeg.toRat
  let longitude := g.longitudeDeg.toRat
  "GPGGA".toList ++ ',' :: (timeField g.utcEpochS ++ ',' :: (angleField 2 latitude ++ ',' :: ([hemisphere 'N' 'S' latitude] ++
    ',' :: (angleField 3 longitude ++ ',' :: ([hemisphere 'E' 'W' longitude] ++ ',' :: (decimal (quality g.fixType) ++
    ',' :: (decimal g.satellites.toNat ++ ',' :: (oneDecimal g.hdop ++ ',' :: (oneDecimal g.altitudeMslM ++ ",M,0.0,M,,".toList)))))))))

/-- `snprintf` into 200 bytes. -/
def ggaBody (g : GgaInput) : List Char := (ggaText g).take 199

def formatGga (g : GgaInput) (maxAgeS : Flt) : Option (List Char) :=
  if ggaPositionIsUsable g.latitudeDeg g.longitudeDeg g.altitudeMslM g.positionAgeS maxAgeS then
    some ('$' :: ggaBody g ++ '*' :: nmeaChecksum (ggaBody g) ++ ['\r', '\n'])
  else none

/-! ### How a sentence is read -/

/-- The text up to the comma `k + 1`, from the comma `k` on. -/
def fieldAt : ℕ → List Char → List Char
  | 0, s => s.takeWhile (· ≠ ',')
  | k + 1, s => fieldAt k ((s.dropWhile (· ≠ ',')).drop 1)

/-- Degrees in `width` digits, two digits of minutes and four decimals of them. -/
def readAngle (width : ℕ) (field : List Char) : Option (ℕ × ℚ) :=
  let degrees := field.take width
  let minutes := (field.drop width).take 2
  match field.drop (width + 2) with
  | '.' :: decimals =>
    if (degrees ++ minutes ++ decimals).all Char.isDigit ∧ degrees.length = width ∧ minutes.length = 2 ∧ decimals.length = 4 then
      some (Nat.ofDigitChars 10 degrees 0, Nat.ofDigitChars 10 (minutes ++ decimals) 0 / 10 ^ 4)
    else none
  | _ => none

/-- The angle read is the one given, to half a digit: its minutes are less than sixty and its letter has the sign. -/
def EncodesAngle (angle : ℚ) (width : ℕ) (positive negative : Char) (field letter : List Char) : Prop :=
  ∃ degrees minutes sign, readAngle width field = some (degrees, minutes) ∧ 0 ≤ minutes ∧ minutes < 60 ∧
    (letter = [positive] ∧ sign = 1 ∨ letter = [negative] ∧ sign = -1) ∧
    |sign * (degrees + minutes / 60) * 60 - angle * 60| ≤ 0.00005

/-- The two digits behind the asterisk are the exclusive or of the bytes before it. -/
def ChecksumOf (sentence : List Char) : Prop :=
  ∃ body high low, sentence = '$' :: body ++ ['*', high, low, '\r', '\n'] ∧ '*' ∉ body ∧
    hexValue high * 16 + hexValue low = xorBytes body

def Encodes (g : GgaInput) (sentence : List Char) : Prop :=
  EncodesAngle g.latitudeDeg.toRat 2 'N' 'S' (fieldAt 2 sentence) (fieldAt 3 sentence) ∧
  EncodesAngle g.longitudeDeg.toRat 3 'E' 'W' (fieldAt 4 sentence) (fieldAt 5 sentence) ∧
  ChecksumOf sentence

end Dyx3.GnssRtk
