import Dyx3.Lib.Scanner
import Mathlib.Data.List.GetD
import Mathlib.Data.Nat.Bitwise
import Mathlib.Tactic.Common

/-!
`RtcmParser` and `ValidatedFrame` (dyx3_gnss_rtk, rtcm_parser and validated_frame). The counters are `uint64_t`; they are
natural numbers here.
-/

namespace Dyx3.GnssRtk

open Lib

abbrev Bytes := List UInt8

def preamble : UInt8 := 0xD3
def headerLen : ℕ := 3
def crcLen : ℕ := 3

/-- `table()[i]` -/
def table (i : UInt32) : UInt32 :=
  (List.range 8).foldl
    (fun crc _ => (if crc &&& 0x800000 ≠ 0 then (crc <<< 1) ^^^ 0x1864CFB else crc <<< 1) &&& 0xFFFFFF) (i <<< 16)

def crc24q (data : Bytes) : UInt32 :=
  data.foldl (fun crc b => ((crc <<< 8) ^^^ table (((crc >>> 16) &&& 0xFF) ^^^ b.toUInt32)) &&& 0xFFFFFF) 0

example : crc24q [0x31, 0x32, 0x33, 0x34, 0x35, 0x36, 0x37, 0x38, 0x39] = 0xCDE703 := by decide +kernel

/-- The three bytes from `i` on. -/
def wireCrc (buf : Bytes) (i : ℕ) : UInt32 :=
  ((buf.getD i 0).toUInt32 <<< 16) ||| ((buf.getD (i + 1) 0).toUInt32 <<< 8) ||| (buf.getD (i + 2) 0).toUInt32

/-- The ten bits of the length; the six reserved bits above them are tolerated. -/
def msgLen (buf : Bytes) : ℕ := (((buf.getD 1 0).toNat <<< 8) ||| (buf.getD 2 0).toNat) &&& 0x03FF

def total (buf : Bytes) : ℕ := headerLen + msgLen buf + crcLen

structure RtcmParser where
  maxBuffer : ℕ := 8192
  buf : Bytes := []
  frames : ℕ := 0
  crcFailures : ℕ := 0
  invalidHeaders : ℕ := 0
  resyncBytes : ℕ := 0
deriving DecidableEq, Repr

namespace RtcmParser

/-- The loop of `feed`: `rest` is the buffer from `i` on, `out` the frames so far. -/
def loop (p : RtcmParser) (out : List Bytes) (rest : Bytes) : RtcmParser × List Bytes :=
  match rest with
  | [] => ({ p with buf := [] }, out)
  | b :: tail =>
    if b ≠ preamble then loop { p with resyncBytes := p.resyncBytes + 1 } out tail
    else if (b :: tail).length < headerLen then ({ p with buf := b :: tail }, out)
    else if (b :: tail).length < total (b :: tail) then ({ p with buf := b :: tail }, out)
    else
      let p := if (tail.getD 0 0) &&& 0xFC ≠ 0 then { p with invalidHeaders := p.invalidHeaders + 1 } else p
      let payloadLen := headerLen + msgLen (b :: tail)
      if crc24q ((b :: tail).take payloadLen) ≠ wireCrc (b :: tail) payloadLen then
        -- the scan goes on one byte after the preamble
        loop { p with crcFailures := p.crcFailures + 1, resyncBytes := p.resyncBytes + 1 } out tail
      else
        loop { p with frames := p.frames + 1 } (out ++ [(b :: tail).take (total (b :: tail))])
          ((b :: tail).drop (total (b :: tail)))
termination_by rest.length
decreasing_by
  all_goals simp [total, headerLen, crcLen]; try omega

def feed (p : RtcmParser) (data : Bytes) : RtcmParser × List Bytes :=
  let (p, out) := p.loop [] (p.buf ++ data)
  if p.maxBuffer < p.buf.length then
    let drop := p.buf.length - p.maxBuffer
    ({ p with resyncBytes := p.resyncBytes + drop, buf := p.buf.drop drop }, out)
  else (p, out)

def clear (p : RtcmParser) : RtcmParser := { p with buf := [] }

/-- One call of `feed` for each chunk. -/
def feedAll (p : RtcmParser) : List Bytes → RtcmParser × List Bytes
  | [] => (p, [])
  | chunk :: chunks =>
    let (p, out) := p.feed chunk
    let (p, later) := p.feedAll chunks
    (p, out ++ later)

end RtcmParser

/-! ### `ValidatedFrame` -/

/-- What `ValidatedFrame::parse` checks. -/
def Envelope (bytes : Bytes) : Prop :=
  6 ≤ bytes.length ∧ bytes.length ≤ 1029 ∧ bytes.getD 0 0 = preamble ∧
  bytes.length = ((((bytes.getD 1 0).toNat &&& 0x03) <<< 8) ||| (bytes.getD 2 0).toNat) + 6 ∧
  crc24q (bytes.take (bytes.length - 3)) = wireCrc bytes (bytes.length - 3)

instance (bytes : Bytes) : Decidable (Envelope bytes) := inferInstanceAs (Decidable (_ ∧ _))

structure ValidatedFrame where
  bytes : Bytes
  envelope : Envelope bytes

def ValidatedFrame.parse (bytes : Bytes) : Option ValidatedFrame :=
  if envelope : Envelope bytes then some ⟨bytes, envelope⟩ else none

/-! ### The scanner -/

/-- What is taken off the front: a byte that is no preamble, the preamble of a candidate with a wrong checksum, a frame. -/
inductive Note where
  | noPreamble
  | badCrc (reserved : Bool)
  | frame (reserved : Bool)
deriving DecidableEq, Repr

def reservedBits (buf : Bytes) : Bool := (buf.getD 1 0) &&& 0xFC ≠ 0

def front : Bytes → Option (Note × ℕ)
  | [] => none
  | b :: tail =>
    let buf := b :: tail
    if b ≠ preamble then some (.noPreamble, 0)
    else if buf.length < headerLen then none
    else if buf.length < total buf then none
    else if crc24q (buf.take (headerLen + msgLen buf)) ≠ wireCrc buf (headerLen + msgLen buf) then
      some (.badCrc (reservedBits buf), 0)
    else some (.frame (reservedBits buf), msgLen buf + 5)

theorem front_other {b : UInt8} (other : b ≠ preamble) (tail : Bytes) : front (b :: tail) = some (.noPreamble, 0) := by
  rw [front]
  exact if_pos other

theorem front_short {tail : Bytes} (short : (preamble :: tail).length < headerLen) : front (preamble :: tail) = none := by
  rw [front]
  rw [if_neg (not_not.mpr rfl), if_pos short]

theorem front_partial {tail : Bytes} (unfinished : (preamble :: tail).length < total (preamble :: tail)) :
    front (preamble :: tail) = none := by
  rw [front]
  rw [if_neg (not_not.mpr rfl), if_pos unfinished, ite_self]

theorem front_whole {tail : Bytes} (whole : total (preamble :: tail) ≤ (preamble :: tail).length) :
    front (preamble :: tail) =
      if crc24q ((preamble :: tail).take (headerLen + msgLen (preamble :: tail))) ≠
          wireCrc (preamble :: tail) (headerLen + msgLen (preamble :: tail)) then
        some (.badCrc (reservedBits (preamble :: tail)), 0)
      else some (.frame (reservedBits (preamble :: tail)), msgLen (preamble :: tail) + 5) := by
  have header : headerLen ≤ (preamble :: tail).length := by
    unfold total at whole
    omega
  rw [front]
  rw [if_neg (not_not.mpr rfl), if_neg (Nat.not_lt.mpr header), if_neg (Nat.not_lt.mpr whole)]

/-- What the front of a buffer can be. -/
theorem front_cases (xs : Bytes) :
    (xs = [] ∧ front xs = none) ∨
    (∃ b tail, xs = b :: tail ∧ b ≠ preamble) ∨
    (∃ tail, xs = preamble :: tail ∧ (xs.length < headerLen ∨ xs.length < total xs) ∧ front xs = none) ∨
    ∃ tail, xs = preamble :: tail ∧ total xs ≤ xs.length := by
  cases xs with
  | nil => exact .inl ⟨rfl, rfl⟩
  | cons b tail =>
    by_cases other : b ≠ preamble
    · exact .inr (.inl ⟨b, tail, rfl, other⟩)
    rw [not_not.mp other]
    by_cases short : (preamble :: tail).length < headerLen
    · exact .inr (.inr (.inl ⟨tail, rfl, .inl short, front_short short⟩))
    by_cases unfinished : (preamble :: tail).length < total (preamble :: tail)
    · exact .inr (.inr (.inl ⟨tail, rfl, .inr unfinished, front_partial unfinished⟩))
    exact .inr (.inr (.inr ⟨tail, rfl, Nat.not_lt.mp unfinished⟩))

/-! ### What has arrived does not change -/

theorem msgLen_append {xs : Bytes} (header : headerLen ≤ xs.length) (ys : Bytes) : msgLen (xs ++ ys) = msgLen xs := by
  unfold headerLen at header
  rw [msgLen, msgLen, List.getD_append _ _ _ _ (by omega), List.getD_append _ _ _ _ (by omega)]

theorem reservedBits_append {xs : Bytes} (header : headerLen ≤ xs.length) (ys : Bytes) :
    reservedBits (xs ++ ys) = reservedBits xs := by
  unfold headerLen at header
  rw [reservedBits, reservedBits, List.getD_append _ _ _ _ (by omega)]

theorem wireCrc_append {xs : Bytes} {i : ℕ} (within : i + 2 < xs.length) (ys : Bytes) : wireCrc (xs ++ ys) i = wireCrc xs i := by
  rw [wireCrc, wireCrc, List.getD_append _ _ _ _ (by omega), List.getD_append _ _ _ _ (by omega),
    List.getD_append _ _ _ _ within]

theorem front_append {xs : Bytes} {piece : Note × ℕ} (ys : Bytes) (settled : front xs = some piece) :
    front (xs ++ ys) = some piece := by
  obtain ⟨-, waits⟩ | ⟨b, tail, rfl, other⟩ | ⟨tail, -, -, waits⟩ | ⟨tail, rfl, whole⟩ := front_cases xs
  · rw [waits] at settled
    cases settled
  · rw [front_other other] at settled
    rw [List.cons_append, front_other other, settled]
  · rw [waits] at settled
    cases settled
  · have header : headerLen ≤ (preamble :: tail).length := by
      unfold total at whole
      omega
    have length := msgLen_append header ys
    have size : (preamble :: tail ++ ys).length = (preamble :: tail).length + ys.length := List.length_append
    rw [front_whole whole] at settled
    unfold total headerLen crcLen at whole
    rw [List.cons_append] at length size ⊢
    rw [front_whole (by unfold total headerLen crcLen; omega), length, ← List.cons_append, reservedBits_append header,
      wireCrc_append (by unfold headerLen; omega), List.take_append_of_le_length (by unfold headerLen; omega), settled]

theorem front_fits {xs : Bytes} {note : Note} {n : ℕ} (settled : front xs = some (note, n)) : n < xs.length := by
  obtain ⟨-, waits⟩ | ⟨b, tail, rfl, other⟩ | ⟨tail, -, -, waits⟩ | ⟨tail, rfl, whole⟩ := front_cases xs
  · rw [waits] at settled
    cases settled
  · rw [front_other other] at settled
    cases settled
    exact Nat.succ_pos _
  · rw [waits] at settled
    cases settled
  · rw [front_whole whole] at settled
    split at settled <;> cases settled
    · exact Nat.succ_pos _
    · unfold total headerLen crcLen at whole
      omega

def scanner : Scanner UInt8 Note where
  front := front
  fits := front_fits
  settled := front_append

/-! ### The parser is the scanner -/

namespace RtcmParser

/-- What one piece does to the counters. -/
def tally (p : RtcmParser) (note : Note) : RtcmParser :=
  match note with
  | .noPreamble => { p with resyncBytes := p.resyncBytes + 1 }
  | .badCrc reserved => { p with
      invalidHeaders := p.invalidHeaders + reserved.toNat
      crcFailures := p.crcFailures + 1
      resyncBytes := p.resyncBytes + 1 }
  | .frame reserved => { p with invalidHeaders := p.invalidHeaders + reserved.toNat, frames := p.frames + 1 }

def tallies (p : RtcmParser) (pieces : List (Note × Bytes)) : RtcmParser := pieces.foldl (fun p piece => p.tally piece.1) p

end RtcmParser

def Note.isFrame : Note → Bool
  | .frame _ => true
  | _ => false

def framesOf (pieces : List (Note × Bytes)) : List Bytes := (pieces.filter fun piece => piece.1.isFrame).map Prod.snd

namespace RtcmParser

theorem loop_other {b : UInt8} (other : b ≠ preamble) (p : RtcmParser) (out : List Bytes) (tail : Bytes) :
    p.loop out (b :: tail) = (p.tally .noPreamble).loop out tail := by
  rw [loop, if_pos other]
  rfl

theorem loop_waits {tail : Bytes}
    (waits : (preamble :: tail).length < headerLen ∨ (preamble :: tail).length < total (preamble :: tail)) (p : RtcmParser)
    (out : List Bytes) : p.loop out (preamble :: tail) = ({ p with buf := preamble :: tail }, out) := by
  rw [loop, if_neg (not_not.mpr rfl)]
  by_cases short : (preamble :: tail).length < headerLen
  · rw [if_pos short]
  · rw [if_neg short, if_pos (waits.resolve_left short)]

theorem header_tally (p : RtcmParser) (buf : Bytes) :
    (if buf.getD 1 0 &&& 0xFC ≠ 0 then { p with invalidHeaders := p.invalidHeaders + 1 } else p) =
      { p with invalidHeaders := p.invalidHeaders + (reservedBits buf).toNat } := by
  by_cases reserved : buf.getD 1 0 &&& 0xFC ≠ 0
  · rw [if_pos reserved, reservedBits, decide_eq_true reserved]
    rfl
  · rw [if_neg reserved, reservedBits, decide_eq_false reserved]
    rfl

theorem loop_badCrc {tail : Bytes} (whole : total (preamble :: tail) ≤ (preamble :: tail).length)
    (wrong : crc24q ((preamble :: tail).take (headerLen + msgLen (preamble :: tail))) ≠
      wireCrc (preamble :: tail) (headerLen + msgLen (preamble :: tail))) (p : RtcmParser) (out : List Bytes) :
    p.loop out (preamble :: tail) = (p.tally (.badCrc (reservedBits (preamble :: tail)))).loop out tail := by
  have header : headerLen ≤ (preamble :: tail).length := by
    unfold total at whole
    omega
  rw [loop, if_neg (not_not.mpr rfl), if_neg (Nat.not_lt.mpr header), if_neg (Nat.not_lt.mpr whole), if_pos wrong,
    show tail.getD 0 0 = (preamble :: tail).getD 1 0 from rfl, header_tally]
  rfl

theorem loop_frame {tail : Bytes} (whole : total (preamble :: tail) ≤ (preamble :: tail).length)
    (right : ¬crc24q ((preamble :: tail).take (headerLen + msgLen (preamble :: tail))) ≠
      wireCrc (preamble :: tail) (headerLen + msgLen (preamble :: tail))) (p : RtcmParser) (out : List Bytes) :
    p.loop out (preamble :: tail) =
      (p.tally (.frame (reservedBits (preamble :: tail)))).loop
        (out ++ [(preamble :: tail).take (total (preamble :: tail))]) ((preamble :: tail).drop (total (preamble :: tail))) := by
  have header : headerLen ≤ (preamble :: tail).length := by
    unfold total at whole
    omega
  rw [loop, if_neg (not_not.mpr rfl), if_neg (Nat.not_lt.mpr header), if_neg (Nat.not_lt.mpr whole), if_neg right,
    show tail.getD 0 0 = (preamble :: tail).getD 1 0 from rfl, header_tally]
  rfl

theorem loop_eq (p : RtcmParser) (out : List Bytes) (xs : Bytes) :
    p.loop out xs =
      ({ p.tallies (scanner.scan xs).1 with buf := (scanner.scan xs).2 }, out ++ framesOf (scanner.scan xs).1) := by
  induction xs using Scanner.scan_induction (s := scanner) generalizing p out with
  | waits xs waits =>
    rw [Scanner.scan_none waits, framesOf, List.filter_nil, List.map_nil, List.append_nil]
    obtain ⟨rfl, -⟩ | ⟨b, tail, rfl, other⟩ | ⟨tail, rfl, short, -⟩ | ⟨tail, rfl, whole⟩ := front_cases xs
    · rw [loop]
      rfl
    · rw [show scanner.front = front from rfl, front_other other] at waits
      cases waits
    · rw [loop_waits short]
      rfl
    · rw [show scanner.front = front from rfl, front_whole whole] at waits
      split at waits <;> cases waits
  | piece xs note n settled ih =>
    rw [Scanner.scan_some settled]
    obtain ⟨rfl, waits⟩ | ⟨b, tail, rfl, other⟩ | ⟨tail, rfl, -, waits⟩ | ⟨tail, rfl, whole⟩ := front_cases xs
    · cases settled
    · rw [show scanner.front = front from rfl, front_other other] at settled
      cases settled
      rw [loop_other other]
      exact ih _ out
    · rw [show scanner.front = front from rfl, waits] at settled
      cases settled
    · rw [show scanner.front = front from rfl, front_whole whole] at settled
      by_cases wrong : crc24q ((preamble :: tail).take (headerLen + msgLen (preamble :: tail))) ≠
          wireCrc (preamble :: tail) (headerLen + msgLen (preamble :: tail))
      · rw [if_pos wrong] at settled
        cases settled
        rw [loop_badCrc whole wrong]
        exact ih _ out
      · rw [if_neg wrong] at settled
        cases settled
        have size : msgLen (preamble :: tail) + 5 + 1 = total (preamble :: tail) := by
          unfold total headerLen crcLen
          omega
        rw [size] at ih ⊢
        rw [loop_frame whole wrong, ih, List.append_assoc]
        rfl

end RtcmParser

theorem msgLen_le (buf : Bytes) : msgLen buf ≤ 1023 := Nat.and_le_right

theorem msgLen_eq (buf : Bytes) :
    msgLen buf = (((buf.getD 1 0).toNat &&& 0x03) <<< 8) ||| (buf.getD 2 0).toNat := by
  have low : (buf.getD 2 0).toNat < 2 ^ 8 := UInt8.toNat_lt _
  rw [msgLen, ← Nat.shiftLeft_add_eq_or_of_lt low, ← Nat.shiftLeft_add_eq_or_of_lt low,
    show 0x03FF = 2 ^ 10 - 1 from rfl, show 0x03 = 2 ^ 2 - 1 from rfl, Nat.and_two_pow_sub_one_eq_mod,
    Nat.and_two_pow_sub_one_eq_mod, Nat.shiftLeft_eq, Nat.shiftLeft_eq]
  omega

/-- What waits is shorter than the longest frame. -/
theorem waiting_short {xs : Bytes} (waits : front xs = none) : xs.length < 1029 := by
  obtain ⟨rfl, -⟩ | ⟨b, tail, rfl, other⟩ | ⟨tail, rfl, short, -⟩ | ⟨tail, rfl, whole⟩ := front_cases xs
  · decide
  · rw [front_other other] at waits
    cases waits
  · have longest := msgLen_le (preamble :: tail)
    unfold total headerLen crcLen at short
    omega
  · rw [front_whole whole] at waits
    split at waits <;> cases waits

theorem skipped_one {xs : Bytes} {note : Note} {n : ℕ} (settled : front xs = some (note, n)) (skipped : note.isFrame = false) :
    n = 0 := by
  obtain ⟨rfl, waits⟩ | ⟨b, tail, rfl, other⟩ | ⟨tail, -, -, waits⟩ | ⟨tail, rfl, whole⟩ := front_cases xs
  · rw [waits] at settled
    cases settled
  · rw [front_other other] at settled
    cases settled
    rfl
  · rw [waits] at settled
    cases settled
  · rw [front_whole whole] at settled
    split at settled <;> cases settled
    · rfl
    · cases skipped

/-- A frame at the front has the envelope that `ValidatedFrame` asks for. -/
theorem frame_envelope {xs : Bytes} {reserved : Bool} {n : ℕ} (settled : front xs = some (.frame reserved, n)) :
    Envelope (xs.take (n + 1)) := by
  obtain ⟨rfl, waits⟩ | ⟨b, tail, rfl, other⟩ | ⟨tail, -, -, waits⟩ | ⟨tail, rfl, whole⟩ := front_cases xs
  · rw [waits] at settled
    cases settled
  · rw [front_other other] at settled
    cases settled
  · rw [waits] at settled
    cases settled
  · rw [front_whole whole] at settled
    split at settled <;> cases settled
    rename_i right
    generalize buffered : preamble :: tail = xs at whole right ⊢
    have size : msgLen xs + 5 + 1 = total xs := by
      unfold total headerLen crcLen
      omega
    have taken : (xs.take (total xs)).length = total xs := List.length_take_of_le whole
    have header : headerLen ≤ (xs.take (total xs)).length := by
      rw [taken]
      unfold total
      omega
    have length := msgLen_append header (xs.drop (total xs))
    rw [List.take_append_drop] at length
    have payload : total xs - 3 = headerLen + msgLen xs := by
      unfold total crcLen
      omega
    have longest := msgLen_le xs
    rw [size]
    refine ⟨by omega, by omega, ?_, ?_, ?_⟩
    · rw [← size, ← buffered]
      rfl
    · rw [← msgLen_eq, taken, ← length, ← size]
    · rw [taken, payload, List.take_take, Nat.min_eq_left (by unfold total; omega), not_not.mp right]
      have inside : headerLen + msgLen xs + 2 < (xs.take (total xs)).length := by
        rw [taken]
        unfold total crcLen
        omega
      have wire := wireCrc_append inside (xs.drop (total xs))
      rw [List.take_append_drop] at wire
      exact wire

/-- The other way round: such bytes are one frame. -/
theorem envelope_frame {bytes : Bytes} (envelope : Envelope bytes) :
    bytes ≠ [] ∧ front bytes = some (.frame (reservedBits bytes), bytes.length - 1) := by
  obtain ⟨least, -, head, length, right⟩ := envelope
  rw [← msgLen_eq] at length
  cases bytes with
  | nil => simp at least
  | cons b tail =>
    rw [List.getD_cons_zero] at head
    subst head
    have whole : total (preamble :: tail) ≤ (preamble :: tail).length := by
      unfold total headerLen crcLen
      omega
    have payload : (preamble :: tail).length - 3 = headerLen + msgLen (preamble :: tail) := by
      unfold headerLen
      omega
    rw [payload] at right
    refine ⟨List.cons_ne_nil _ _, ?_⟩
    rw [front_whole whole, if_neg (not_not.mpr right), length]
    rfl

/-! ### How the stream is cut -/

namespace RtcmParser

theorem tallies_maxBuffer (p : RtcmParser) (pieces : List (Note × Bytes)) : (p.tallies pieces).maxBuffer = p.maxBuffer := by
  induction pieces generalizing p with
  | nil => rfl
  | cons piece pieces ih =>
    refine (ih (p.tally piece.1)).trans ?_
    cases piece.1 <;> rfl

theorem feed_maxBuffer (p : RtcmParser) (data : Bytes) : (p.feed data).1.maxBuffer = p.maxBuffer := by
  rw [feed, loop_eq]
  dsimp only
  split
  · exact tallies_maxBuffer p _
  · exact tallies_maxBuffer p _

theorem tallies_append (p : RtcmParser) (pieces later : List (Note × Bytes)) :
    p.tallies (pieces ++ later) = (p.tallies pieces).tallies later := List.foldl_append

/-- The counters do not look at the buffer. -/
theorem tallies_buf (p : RtcmParser) (buf : Bytes) (pieces : List (Note × Bytes)) :
    ({ p with buf := buf } : RtcmParser).tallies pieces = { p.tallies pieces with buf := buf } := by
  induction pieces generalizing p with
  | nil => rfl
  | cons piece pieces ih =>
    obtain ⟨note, bytes⟩ := piece
    refine Eq.trans ?_ (ih (p.tally note))
    cases note <;> rfl

/-- The bound on the buffer never cuts what waits. -/
theorem feed_eq {p : RtcmParser} (enough : 1029 ≤ p.maxBuffer) (data : Bytes) :
    p.feed data = ({ p.tallies (scanner.scan (p.buf ++ data)).1 with buf := (scanner.scan (p.buf ++ data)).2 },
      framesOf (scanner.scan (p.buf ++ data)).1) := by
  have short : (scanner.scan (p.buf ++ data)).2.length < 1029 := waiting_short (Scanner.scan_waits (s := scanner) _)
  have bound := tallies_maxBuffer p (scanner.scan (p.buf ++ data)).1
  rw [feed, loop_eq, List.nil_append]
  dsimp only
  rw [if_neg (by omega)]

theorem feed_nil {p : RtcmParser} (enough : 1029 ≤ p.maxBuffer) (empty : p.buf = []) : p.feed [] = (p, []) := by
  rw [feed_eq enough, empty, List.append_nil, Scanner.scan_none (s := scanner) rfl]
  refine Prod.ext ?_ rfl
  obtain ⟨maxBuffer, buf⟩ := p
  cases empty
  rfl

/-- Chunk by chunk is all at once. -/
theorem feedAll_eq {p : RtcmParser} (enough : 1029 ≤ p.maxBuffer) (waits : front p.buf = none) (chunks : List Bytes) :
    p.feedAll chunks = p.feed chunks.flatten := by
  induction chunks generalizing p with
  | nil =>
    rw [feed_eq enough, List.flatten_nil, List.append_nil, Scanner.scan_none (s := scanner) waits]
    rfl
  | cons chunk chunks ih =>
    have resume := Scanner.scan_resume (s := scanner) (p.buf ++ chunk) chunks.flatten
    rw [feed_eq enough, List.flatten_cons, ← List.append_assoc, resume, feedAll, feed_eq enough chunk]
    have waits := Scanner.scan_waits (s := scanner) (p.buf ++ chunk)
    generalize scanner.scan (p.buf ++ chunk) = first at waits ⊢
    have still : 1029 ≤ ({ p.tallies first.1 with buf := first.2 } : RtcmParser).maxBuffer :=
      (tallies_maxBuffer p first.1).symm ▸ enough
    dsimp only
    rw [ih still waits, feed_eq still]
    dsimp only
    rw [tallies_append, tallies_buf, framesOf, framesOf, framesOf, List.filter_append, List.map_append]

/-- Every byte of a piece is one of a frame or was skipped. -/
theorem tallies_resyncBytes (p : RtcmParser) {pieces : List (Note × Bytes)}
    (one : ∀ piece ∈ pieces, piece.1.isFrame = false → piece.2.length = 1) :
    (pieces.map Prod.snd).flatten.length + p.resyncBytes =
      ((framesOf pieces).map List.length).sum + (p.tallies pieces).resyncBytes := by
  induction pieces generalizing p with
  | nil => simp [framesOf, tallies]
  | cons piece pieces ih =>
    have later := ih (p.tally piece.1) fun q member => one q (List.mem_cons_of_mem piece member)
    have here := one piece (List.mem_cons_self ..)
    rw [List.map_cons, List.flatten_cons, List.length_append]
    rw [show (p.tallies (piece :: pieces)) = (p.tally piece.1).tallies pieces from rfl]
    obtain ⟨note, bytes⟩ := piece
    cases note with
    | noPreamble =>
      have bytes_one : bytes.length = 1 := here rfl
      rw [show framesOf ((.noPreamble, bytes) :: pieces) = framesOf pieces from rfl]
      dsimp only [tally] at later ⊢
      omega
    | badCrc reserved =>
      have bytes_one : bytes.length = 1 := here rfl
      rw [show framesOf ((.badCrc reserved, bytes) :: pieces) = framesOf pieces from rfl]
      dsimp only [tally] at later ⊢
      omega
    | frame reserved =>
      rw [show framesOf ((.frame reserved, bytes) :: pieces) = bytes :: framesOf pieces from rfl, List.map_cons,
        List.sum_cons]
      dsimp only [tally] at later ⊢
      omega

theorem framesOf_valid {xs f : Bytes} (member : f ∈ framesOf (scanner.scan xs).1) : Envelope f := by
  obtain ⟨⟨note, bytes⟩, kept, rfl⟩ := List.mem_map.mp member
  obtain ⟨scanned, taken⟩ := List.mem_filter.mp kept
  obtain ⟨ys, n, settled, rfl⟩ := Scanner.scan_mem scanned
  cases note with
  | noPreamble => cases taken
  | badCrc reserved => cases taken
  | frame reserved => exact frame_envelope settled

/-- The frames of a stream of valid frames. -/
theorem scan_valid (valid : List ValidatedFrame) :
    scanner.scan (valid.map (·.bytes)).flatten =
      ((valid.map (·.bytes)).map fun bytes => (.frame (reservedBits bytes), bytes), []) := by
  apply Scanner.scan_flatten (s := scanner) rfl
  intro piece member
  obtain ⟨v, -, rfl⟩ := List.mem_map.mp member
  exact envelope_frame v.envelope

theorem framesOf_frames (pieces : List Bytes) :
    framesOf (pieces.map fun bytes => (.frame (reservedBits bytes), bytes)) = pieces := by
  induction pieces with
  | nil => rfl
  | cons piece pieces ih => exact congrArg (piece :: ·) ih

theorem feed_accounted {p : RtcmParser} (enough : 1029 ≤ p.maxBuffer) (data : Bytes) :
    (p.buf ++ data).length + p.resyncBytes =
      ((p.feed data).2.map List.length).sum + (p.feed data).1.resyncBytes + (p.feed data).1.buf.length := by
  have whole := congrArg List.length (Scanner.scan_pieces (s := scanner) (p.buf ++ data))
  have one : ∀ piece ∈ (scanner.scan (p.buf ++ data)).1, piece.1.isFrame = false → piece.2.length = 1 := by
    intro piece member skipped
    obtain ⟨ys, n, settled, taken⟩ := Scanner.scan_mem member
    have fits := scanner.fits settled
    have zero : n = 0 := skipped_one settled skipped
    rw [taken, List.length_take_of_le (by omega), zero]
  have counted := tallies_resyncBytes p one
  rw [List.length_append] at whole
  rw [feed_eq enough]
  dsimp only
  omega

/-- However a stream is cut, the same frames come out and the same state is left; every byte is one of a frame, skipped
or still buffered; what comes out is valid, and valid frames come out as they went in. -/
theorem feed_chunking {max : ℕ} (enough : 1029 ≤ max) (chunks : List Bytes) :
    let p : RtcmParser := { maxBuffer := max }
    let q := (p.feedAll chunks).1
    let frames := (p.feedAll chunks).2
    (∀ cut : List Bytes, cut.flatten = chunks.flatten → p.feedAll cut = (q, frames)) ∧
    chunks.flatten.length = (frames.map List.length).sum + q.resyncBytes + q.buf.length ∧
    (∀ f ∈ frames, (ValidatedFrame.parse f).map (·.bytes) = some f) ∧
    ∀ valid : List ValidatedFrame, chunks.flatten = (valid.map (·.bytes)).flatten → frames = valid.map (·.bytes) := by
  intro p q frames
  have fresh : front p.buf = none := rfl
  have whole : p.feedAll chunks = p.feed chunks.flatten := feedAll_eq enough fresh chunks
  have emitted : frames = framesOf (scanner.scan chunks.flatten).1 := by
    rw [show frames = (p.feedAll chunks).2 from rfl, whole, feed_eq enough]
    rfl
  refine ⟨?_, ?_, ?_, ?_⟩
  · intro cut same
    rw [feedAll_eq enough fresh cut, same, ← whole]
  · have accounted := feed_accounted (p := p) enough chunks.flatten
    rw [← whole] at accounted
    exact accounted
  · intro f member
    rw [emitted] at member
    rw [ValidatedFrame.parse, dif_pos (framesOf_valid member)]
    rfl
  · intro valid stream
    rw [emitted, stream, scan_valid]
    exact framesOf_frames _

/-- The shortest frame: it has no payload. -/
def shortest : ValidatedFrame where
  bytes := [0xD3, 0x00, 0x00, 0x47, 0xEA, 0x4B]
  envelope := by decide +kernel

theorem feed_chunking_shortest :
    1029 ≤ 8192 ∧
      (({} : RtcmParser).feedAll [[0xD3], [0x00, 0x00, 0x47, 0xEA, 0x4B, 0xD3, 0x00], [], [0x00, 0x47, 0xEA, 0x4B]]).2 =
        [shortest.bytes, shortest.bytes] :=
  ⟨by decide, (feed_chunking (by decide) _).2.2.2 [shortest, shortest] rfl⟩

end RtcmParser

end Dyx3.GnssRtk
