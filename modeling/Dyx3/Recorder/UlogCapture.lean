import Mathlib.Data.List.Lex
import Mathlib.Order.Nat
import Dyx3.Lib.ByteReader
import Dyx3.Lib.Messages
import Dyx3.Lib.SortedMap

/-!
The recorder's ULog capture (dyx3_recorder/ulog_capture): the chunks of the FCU's stream are cut into messages, which go to the run's
file; the file header, the definitions section, the subscriptions and the changed parameters are kept for the files of later runs.
-/

namespace Dyx3.Recorder

open Lib Lib.ByteReader

def kFileHeaderLen : ℕ := 16

def kMsgHeaderLen : ℕ := 3

def kMagic : ByteString := [byte 'U', byte 'L', byte 'o', byte 'g', 0x01, 0x12, 0x35]

def kMaxHeaderBytes : ℕ := 8 * 2 ^ 20

def isDefinition (t : UInt8) : Bool := t = byte 'B' || t = byte 'F' || t = byte 'I' || t = byte 'M' || t = byte 'P' || t = byte 'Q'

def isStreamStart (fmo : UInt8) (data : ByteString) : Bool := fmo = 0 && kFileHeaderLen ≤ data.length && data.take kMagic.length = kMagic

def isKnownType (t : UInt8) : Bool :=
  isDefinition t || t = byte 'A' || t = byte 'R' || t = byte 'D' || t = byte 'L' || t = byte 'C' || t = byte 'S' || t = byte 'O'

inductive HeaderState where
  | none
  | definitions
  | complete
  | lost
  | tooLarge
  deriving DecidableEq

def ulogHeaderStateName : HeaderState → String
  | .none => "incomplete: no header (the FCU stream started before the recorder)"
  | .definitions => "definitions in progress"
  | .complete => "complete"
  | .lost => "incomplete: header lost (gap in the definitions section)"
  | .tooLarge => "incomplete: header larger than the cache bound"

structure UlogGap where
  expectedSeq : UInt16
  gotSeq : UInt16
  missingChunks : ℕ
  fileOffset : ℕ
  resyncOffset : UInt8
  deriving DecidableEq

/-- What the file system answers, by the number of the call: whether a file is opened, how many bytes a write takes when it does not
take all of them, and whether a file is flushed and closed. -/
structure Disk where
  opens : ℕ → Bool
  takes : ℕ → Option ℕ
  closes : ℕ → Bool

structure UlogCapture where
  /-- The files of the run, the newest first. -/
  files : List ByteString := []
  /-- The newest file is open. -/
  isOpen : Bool := false
  /-- The calls of the file system so far. -/
  calls : ℕ := 0
  fileBytes : ℕ := 0
  /-- The sequence number of the last chunk that was not dropped. -/
  last : Option UInt16 := none
  synced : Bool := false
  /-- The message in progress. -/
  partialMsg : ByteString := []
  headerState : HeaderState := .none
  header : ByteString := []
  /-- The `A` message by its message id. -/
  subs : List (ℕ × ByteString) := []
  /-- The last `P` message of the data section by its key. -/
  params : List (List ℕ × ByteString) := []
  runHeaderStatus : String := "no file"
  bytes : ℕ := 0
  chunks : ℕ := 0
  duplicates : ℕ := 0
  outOfOrder : ℕ := 0
  parseErrors : ℕ := 0
  segments : ℕ := 0
  writeFailed : Bool := false
  gaps : List UlogGap := []

namespace UlogCapture

variable (disk : Disk)

/-! ### Files -/

def openFile (s : UlogCapture) : UlogCapture :=
  if disk.opens s.calls then
    { s with files := [] :: s.files, isOpen := true, calls := s.calls + 1, fileBytes := 0, segments := s.segments + 1 }
  else { s with isOpen := false, calls := s.calls + 1, fileBytes := 0 }

/-- The newest file grows. -/
def appended (p : ByteString) : List ByteString → List ByteString
  | [] => []
  | f :: fs => (f ++ p) :: fs

def write (p : ByteString) (s : UlogCapture) : UlogCapture :=
  if !s.isOpen ∨ p = [] then s
  else
    let taken := p.take ((disk.takes s.calls).getD p.length)
    { s with
      files := appended taken s.files, calls := s.calls + 1, writeFailed := s.writeFailed || taken.length ≠ p.length
      bytes := s.bytes + p.length, fileBytes := s.fileBytes + p.length }

def close (s : UlogCapture) : UlogCapture × Bool :=
  if s.isOpen then
    ({ s with isOpen := false, calls := s.calls + 1, writeFailed := s.writeFailed || !disk.closes s.calls }, disk.closes s.calls)
  else (s, true)

/-- Header and definitions, then the subscriptions and the parameter changes so far. -/
def writeCachedHeader (s : UlogCapture) : UlogCapture :=
  let s := s.write disk s.header
  let s := s.subs.foldl (fun s entry => s.write disk entry.2) s
  s.params.foldl (fun s entry => s.write disk entry.2) s

def openRun (s : UlogCapture) : UlogCapture × Bool :=
  let s := (s.close disk).1
  let s := { s with
    files := [], bytes := 0, chunks := 0, duplicates := 0, outOfOrder := 0, parseErrors := 0, segments := 0, writeFailed := false, gaps := [] }
  let s := s.openFile disk
  if !s.isOpen then ({ s with runHeaderStatus := "no file" }, false)
  else if s.headerState = .complete ∨ s.headerState = .definitions then
    ({ s.writeCachedHeader disk with runHeaderStatus := "complete" }, true)
  else ({ s with runHeaderStatus := ulogHeaderStateName s.headerState }, true)

/-! ### The stream -/

/-- The first file of a run gets the header; when the newest file has bytes already the run goes on in a new one. -/
def streamStart (fileHeader : ByteString) (s : UlogCapture) : UlogCapture :=
  let s := { s with
    header := fileHeader, subs := [], params := [], partialMsg := [], synced := true, headerState := .definitions }
  if !s.isOpen then s
  else if 0 < s.fileBytes then
    let s := (s.close disk).1.openFile disk
    if !s.isOpen then { s with writeFailed := true } else s.write disk fileHeader
  else { s with runHeaderStatus := "complete" }.write disk fileHeader

/-- The byte of a message, or 0. -/
def byteAt (m : ByteString) (i : ℕ) : ℕ := (m.getD i 0).toNat

/-- The message id of an `A` message, and of an `R` message. -/
def subscriptionId (m : ByteString) : ℕ := byteAt m 4 + 256 * byteAt m 5

def removedId (m : ByteString) : ℕ := byteAt m 3 + 256 * byteAt m 4

def paramKey (m : ByteString) : List ℕ := ((m.drop 4).take (byteAt m 3)).map UInt8.toNat

def onMessage (m : ByteString) (s : UlogCapture) : UlogCapture :=
  let type := m.getD 2 0
  if s.headerState = .definitions ∧ isDefinition type then
    let header := s.header ++ m
    if kMaxHeaderBytes < header.length then { s with headerState := .tooLarge, header := [] }.write disk m
    else { s with header := header }.write disk m
  else
    -- first message of the data section
    let s := if s.headerState = .definitions then { s with headerState := .complete } else s
    let s :=
      if type = byte 'A' ∧ 6 ≤ m.length then { s with subs := SortedMap.put (subscriptionId m) m s.subs }
      else if type = byte 'R' ∧ 5 ≤ m.length then { s with subs := SortedMap.erase (removedId m) s.subs }
      else if type = byte 'P' ∧ 4 ≤ m.length ∧ 4 + byteAt m 3 ≤ m.length then { s with params := SortedMap.put (paramKey m) m s.params }
      else s
    s.write disk m

/-- Not a message boundary: everything is dropped until the next chunk that starts a message. -/
def parseError (s : UlogCapture) : UlogCapture :=
  { s with
    parseErrors := s.parseErrors + 1, synced := false, partialMsg := []
    headerState := if s.headerState = .definitions then .lost else s.headerState }

/-- The length of a message with these first bytes. -/
def total (m₀ m₁ : UInt8) : ℕ := kMsgHeaderLen + (m₀.toNat + 256 * m₁.toNat)

/-- The loop of `feed` over the buffer, which is at least as long as it has messages. -/
def feedLoop : ℕ → ByteString → UlogCapture → UlogCapture
  | 0, buffer, s => { s with partialMsg := buffer }
  | fuel + 1, buffer, s =>
    match buffer with
    | m₀ :: m₁ :: type :: _ =>
      if !isKnownType type then parseError s
      else if buffer.length < total m₀ m₁ then { s with partialMsg := buffer }
      else feedLoop fuel (buffer.drop (total m₀ m₁)) (onMessage disk (buffer.take (total m₀ m₁)) s)
    | _ => { s with partialMsg := buffer }

def feed (data : ByteString) (s : UlogCapture) : UlogCapture := feedLoop disk (s.partialMsg ++ data).length (s.partialMsg ++ data) s

/-- The chunks that are missing in front of this one. -/
def gapBefore (seq : UInt16) (fmo : UInt8) (s : UlogCapture) : UlogCapture :=
  match s.last with
  | none => s
  | some last =>
    let expected := last + 1
    { s with
      gaps := if s.isOpen then s.gaps ++ [⟨expected, seq, (seq - expected).toNat, s.bytes, fmo⟩] else s.gaps
      synced := false, partialMsg := [], headerState := if s.headerState = .definitions then .lost else s.headerState }

/-- The rest of a chunk that is not dropped. -/
def receive (seq : UInt16) (fmo : UInt8) (data : ByteString) (s : UlogCapture) : UlogCapture :=
  let s := { s with last := some seq, chunks := if s.isOpen then s.chunks + 1 else s.chunks }
  if isStreamStart fmo data then (s.streamStart disk (data.take kFileHeaderLen)).feed disk (data.drop kFileHeaderLen)
  else if !s.synced then
    if fmo = 255 ∨ data.length ≤ fmo.toNat then s
    else { s with synced := true, partialMsg := [] }.feed disk (data.drop fmo.toNat)
  else s.feed disk data

/-- What a chunk is to the last one: the same again, one that comes late, or the next with some missing before it. -/
def isDuplicate (last : Option UInt16) (seq : UInt16) : Bool := last = some seq

def isLate (last : Option UInt16) (seq : UInt16) (fmo : UInt8) (data : ByteString) : Bool :=
  last.any fun last => 0x8000 ≤ seq - (last + 1) && !isStreamStart fmo data

def isGap (last : Option UInt16) (seq : UInt16) (fmo : UInt8) (data : ByteString) : Bool :=
  last.any fun last => seq - (last + 1) ≠ 0 && !isStreamStart fmo data

def onChunk (seq : UInt16) (fmo : UInt8) (data : ByteString) (s : UlogCapture) : UlogCapture × Bool :=
  if isDuplicate s.last seq then ({ s with duplicates := if s.isOpen then s.duplicates + 1 else s.duplicates }, false)
  else if isLate s.last seq fmo data then ({ s with outOfOrder := if s.isOpen then s.outOfOrder + 1 else s.outOfOrder }, false)
  else
    let s' := receive disk seq fmo data (if isGap s.last seq fmo data then gapBefore seq fmo s else s)
    (s', s.bytes < s'.bytes && !s'.writeFailed)

end UlogCapture

/-! ### Messages -/

def ulogFront (s : ByteString) : Front :=
  match s with
  | m₀ :: m₁ :: type :: _ =>
    if !isKnownType type then .bad
    else if s.length < UlogCapture.total m₀ m₁ then .more
    else .whole (UlogCapture.total m₀ m₁)
  | _ => .more

/-- The messages of a ULog file: two bytes of length, a type and the rest. -/
def ulog : Format UInt8 where
  front := ulogFront
  size := by
    intro s n whole
    unfold ulogFront at whole
    split at whole
    · split_ifs at whole with unknown short
      cases whole
      exact ⟨by unfold UlogCapture.total kMsgHeaderLen; omega, not_lt.mp short⟩
    · cases whole
  own := by
    intro s n whole
    unfold ulogFront at whole
    split at whole
    · rename_i m₀ m₁ type rest
      split_ifs at whole with unknown short
      cases whole
      obtain ⟨k, size⟩ : ∃ k, UlogCapture.total m₀ m₁ = k + 3 := ⟨m₀.toNat + 256 * m₁.toNat, Nat.add_comm _ _⟩
      rw [size] at short ⊢
      have taken : (m₀ :: m₁ :: type :: rest).take (k + 3) = m₀ :: m₁ :: type :: rest.take k := rfl
      have long : ¬(m₀ :: m₁ :: type :: rest.take k).length < k + 3 := by
        simp only [List.length_cons, List.length_take] at short ⊢
        omega
      simp only [taken, ulogFront, size, if_neg unknown, if_neg long]
    · cases whole
  settled := by
    intro s t known
    unfold ulogFront at known ⊢
    split at known
    · rename_i m₀ m₁ type rest
      split_ifs at known with unknown short
      · simp only [List.cons_append, if_pos unknown]
      · exact absurd rfl known
      · have long : ¬(m₀ :: m₁ :: type :: (rest ++ t)).length < UlogCapture.total m₀ m₁ := by
          simp only [List.length_cons, List.length_append] at short ⊢
          omega
        simp only [List.cons_append, if_neg unknown, if_neg long, if_neg short]
    · exact absurd rfl known

namespace UlogCapture

/-- The part of the state that is kept for later files. -/
@[ext] structure Cache where
  headerState : HeaderState
  header : ByteString
  subs : List (ℕ × ByteString)
  params : List (List ℕ × ByteString)

def cache (s : UlogCapture) : Cache := ⟨s.headerState, s.header, s.subs, s.params⟩

namespace Cache

/-- A message of the definitions section. -/
def define (m : ByteString) (c : Cache) : Cache :=
  if kMaxHeaderBytes < (c.header ++ m).length then { c with headerState := .tooLarge, header := [] } else { c with header := c.header ++ m }

/-- The tables after a message outside of the definitions section. -/
def table (m : ByteString) (c : Cache) : Cache :=
  let type := m.getD 2 0
  if type = byte 'A' ∧ 6 ≤ m.length then { c with subs := SortedMap.put (subscriptionId m) m c.subs }
  else if type = byte 'R' ∧ 5 ≤ m.length then { c with subs := SortedMap.erase (removedId m) c.subs }
  else if type = byte 'P' ∧ 4 ≤ m.length ∧ 4 + byteAt m 3 ≤ m.length then { c with params := SortedMap.put (paramKey m) m c.params }
  else c

/-- What a message leaves in the cache. -/
def keep (c : Cache) (m : ByteString) : Cache :=
  if c.headerState = .definitions ∧ isDefinition (m.getD 2 0) then c.define m
  else (if c.headerState = .definitions then { c with headerState := .complete } else c).table m

/-- The definitions section is lost when it is not over yet. -/
def lose (c : Cache) : Cache := if c.headerState = .definitions then { c with headerState := .lost } else c

end Cache

/-- The open file has got the bytes `p`; nothing else of the run and of the sequence numbers is different. -/
structure Put (p : ByteString) (s s' : UlogCapture) : Prop where
  files : s'.files = if s.isOpen then appended p s.files else s.files
  fileBytes : s'.fileBytes = if s.isOpen then s.fileBytes + p.length else s.fileBytes
  isOpen : s'.isOpen = s.isOpen
  last : s'.last = s.last
  status : s'.runHeaderStatus = s.runHeaderStatus

/-- Nor is the stream. -/
structure Wrote (p : ByteString) (s s' : UlogCapture) : Prop extends Put p s s' where
  synced : s'.synced = s.synced
  partialMsg : s'.partialMsg = s.partialMsg
  cache : s'.cache = s.cache

theorem appended_nil (files : List ByteString) : appended [] files = files := by
  cases files with
  | nil => rfl
  | cons f fs => rw [appended, List.append_nil]

theorem appended_append (p q : ByteString) (files : List ByteString) : appended q (appended p files) = appended (p ++ q) files := by
  cases files with
  | nil => rfl
  | cons f fs => simp only [appended, List.append_assoc]

theorem Put.refl (s : UlogCapture) : Put [] s s := ⟨by rw [appended_nil, ite_self], by simp, rfl, rfl, rfl⟩

theorem Put.trans {p q : ByteString} {s t u : UlogCapture} (first : Put p s t) (second : Put q t u) : Put (p ++ q) s u where
  files := by
    rw [second.files, first.files, first.isOpen]
    split
    · exact appended_append p q s.files
    · rfl
  fileBytes := by
    rw [second.fileBytes, first.fileBytes, first.isOpen, List.length_append]
    split
    · exact Nat.add_assoc _ _ _
    · rfl
  isOpen := second.isOpen.trans first.isOpen
  last := second.last.trans first.last
  status := second.status.trans first.status

theorem Wrote.refl (s : UlogCapture) : Wrote [] s s := ⟨.refl s, rfl, rfl, rfl⟩

theorem Wrote.trans {p q : ByteString} {s t u : UlogCapture} (first : Wrote p s t) (second : Wrote q t u) : Wrote (p ++ q) s u :=
  ⟨first.toPut.trans second.toPut, second.synced.trans first.synced, second.partialMsg.trans first.partialMsg,
    second.cache.trans first.cache⟩

section

variable {disk : Disk} (works : ∀ i, disk.takes i = none)

include works

theorem write_wrote (p : ByteString) (s : UlogCapture) : Wrote p s (s.write disk p) := by
  unfold write
  split
  · rename_i nothing
    rcases nothing with closed | rfl
    · rw [Bool.not_eq_true'] at closed
      exact ⟨⟨by rw [closed]; rfl, by rw [closed]; rfl, rfl, rfl, rfl⟩, rfl, rfl, rfl⟩
    · exact .refl s
  · rename_i some
    rw [not_or, Bool.not_eq_true', Bool.not_eq_false] at some
    have taken : p.take ((disk.takes s.calls).getD p.length) = p := by rw [works, Option.getD_none, List.take_length]
    exact ⟨⟨by simp only [taken, some.1, if_true], by simp only [some.1, if_true], rfl, rfl, rfl⟩, rfl, rfl, rfl⟩

theorem writes_wrote {κ : Type} (entries : List (κ × ByteString)) (s : UlogCapture) :
    Wrote (entries.map Prod.snd).flatten s (entries.foldl (fun s entry => s.write disk entry.2) s) := by
  induction entries generalizing s with
  | nil => exact .refl s
  | cons entry entries ih => exact (write_wrote works entry.2 s).trans (ih _)

/-- What the cache holds for the start of a file. -/
def Cache.text (c : Cache) : ByteString := c.header ++ (c.subs.map Prod.snd).flatten ++ (c.params.map Prod.snd).flatten

theorem writeCachedHeader_wrote (s : UlogCapture) : Wrote s.cache.text s (s.writeCachedHeader disk) := by
  have header := write_wrote works s.header s
  have subs := writes_wrote works s.subs (s.write disk s.header)
  have params := writes_wrote works s.params (s.subs.foldl (fun s entry => s.write disk entry.2) (s.write disk s.header))
  have whole := (header.trans subs).trans params
  have kept : (s.subs.foldl (fun s entry => s.write disk entry.2) (s.write disk s.header)).cache = s.cache := (header.trans subs).cache
  have subsKept : (s.write disk s.header).subs = s.subs := congrArg Cache.subs header.cache
  have paramsKept : (s.subs.foldl (fun s entry => s.write disk entry.2) (s.write disk s.header)).params = s.params := congrArg Cache.params kept
  rw [writeCachedHeader]
  simp only [subsKept, paramsKept]
  exact whole

end

end UlogCapture

end Dyx3.Recorder
