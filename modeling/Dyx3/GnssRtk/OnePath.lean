import Dyx3.GnssRtk.InjectionAuthority

/-!
One way to the receiver: whatever the devices answer, one sink is open at most, frames go out whole and in order, and what is counted
is what went out.
-/

namespace Dyx3.GnssRtk

open Lib

/-- The counters of a sink that let out the frames. -/
def SinkCounters.Counts {R : Type} (c : SinkCounters R) (frames : List ValidatedFrame) : Prop :=
  c.framesDelivered = frames.length ∧ c.bytesDelivered = (frames.map fun frame => frame.bytes.length).sum

theorem ValidatedFrame.some_byte (frame : ValidatedFrame) : frame.bytes ≠ [] := by
  have long := frame.envelope.1
  intro none
  rw [none] at long
  exact absurd long (by decide)

theorem ValidatedFrame.fits (frame : ValidatedFrame) : Fits frame.bytes := by
  refine ⟨frame.some_byte, frame.envelope.2.1.trans ?_⟩
  decide

theorem pieces_bytes (pieces : List Bytes) : (pieces.map Traffic.wrote).flatMap Traffic.bytes = pieces.flatten := by
  rw [List.flatMap_map, List.flatten_eq_flatMap]
  rfl

open InjectionAuthority

variable {R : Type}

namespace UsbSerialSink

/-! ### The serial sink -/

theorem closing_line {sent : List ValidatedFrame} {s : UsbSerialSink R} {log : List Traffic} (line : Line sent s.isOpen log) :
    Line sent s.closing.1.isOpen (log ++ s.closing.2) := by
  unfold closing
  split
  · rename_i isOpen
    rw [isOpen] at line
    exact line.closed
  · rw [List.append_nil]
    exact line

theorem closing_isOpen (s : UsbSerialSink R) : s.closing.1.isOpen = false := by
  unfold closing
  split
  · rfl
  · rename_i shut
    exact Bool.eq_false_iff.mpr shut

theorem closing_open {s : UsbSerialSink R} (isOpen : s.isOpen = true) : s.closing.2 = [.closed] := by
  rw [closing, if_pos isOpen]

theorem closing_shut {s : UsbSerialSink R} (shut : s.isOpen = false) : s.closing.2 = [] := by
  rw [closing, if_neg (Bool.eq_false_iff.mp shut)]

theorem closing_traffic (s : UsbSerialSink R) : s.closing.2.flatMap Traffic.bytes = [] := by
  unfold closing
  split <;> rfl

theorem closing_counts {s : UsbSerialSink R} {frames : List ValidatedFrame} (counts : s.counters.Counts frames) :
    s.closing.1.counters.Counts frames := by
  unfold closing
  split <;> exact counts

variable [Scalar R]

theorem writeLoop_prefix (deadline : R) (replies : List (WriteReply R)) (left : Bytes) :
    ∃ rest, left = (writeLoop deadline replies left).1.flatten ++ rest ∧ ((writeLoop deadline replies left).2 = true ↔ rest = []) := by
  fun_induction writeLoop deadline replies left with
  | case1 => exact ⟨[], rfl, by simp⟩
  | case2 n replies b left more later ih =>
    obtain ⟨rest, split, ends⟩ := ih
    refine ⟨rest, ?_, ends⟩
    rw [List.flatten_cons, List.append_assoc, ← split, List.take_append_drop]
  | case4 replies b left ih => exact ih
  | case5 now poll replies b left again ih => exact ih
  | _ => exact ⟨_, rfl, by simp⟩

theorem opening_isOpen (s : UsbSerialSink R) (now : R) (granted : Bool) :
    (s.opening now granted).1.isOpen = (s.opening now granted).2.2 := by
  unfold opening
  split_ifs with already device early <;> simp_all

theorem opening_line {sent : List ValidatedFrame} {s : UsbSerialSink R} {log : List Traffic} (line : Line sent s.isOpen log) (now : R)
    (granted : Bool) : Line sent (s.opening now granted).1.isOpen (log ++ (s.opening now granted).2.1) := by
  unfold opening
  split_ifs with already device early
  · rw [List.append_nil]
    exact line
  · rw [List.append_nil]
    exact line
  · rw [List.append_nil]
    exact line
  · rw [Bool.eq_false_iff.mpr already] at line
    exact line.opened
  · rw [List.append_nil]
    exact line

theorem opening_traffic (s : UsbSerialSink R) (now : R) (granted : Bool) : (s.opening now granted).2.1.flatMap Traffic.bytes = [] := by
  unfold opening
  split_ifs <;> rfl

theorem opening_counts {s : UsbSerialSink R} {frames : List ValidatedFrame} (counts : s.counters.Counts frames) (now : R) (granted : Bool) :
    (s.opening now granted).1.counters.Counts frames := by
  unfold opening
  split_ifs <;> exact counts

/-- What one `deliver` does: the device cannot be opened, or it is gone before the first byte, or the pieces written are a part of the
frame before the device is closed, or they are the frame. -/
theorem deliver_cases (s : UsbSerialSink R) (frame : ValidatedFrame) (now : R) (replies : Replies R) :
    ((s.opening now replies.granted).2.2 = false ∧
      s.deliver frame now replies = ((s.opening now replies.granted).1, (s.opening now replies.granted).2.1, false)) ∨
    ((s.opening now replies.granted).2.2 = true ∧
      ∃ after, after.isOpen = false ∧ (∀ frames, s.counters.Counts frames → after.counters.Counts frames) ∧
      ∃ pieces : List Bytes, pieces.flatten <+: frame.bytes ∧ pieces.flatten ≠ frame.bytes ∧
        s.deliver frame now replies = (after, (s.opening now replies.granted).2.1 ++ pieces.map .wrote ++ [.closed], false)) ∨
    ((s.opening now replies.granted).2.2 = true ∧
      ∃ after, after.isOpen = true ∧ (∀ frames, s.counters.Counts frames → after.counters.Counts (frames ++ [frame])) ∧
      ∃ pieces : List Bytes, pieces.flatten = frame.bytes ∧
        s.deliver frame now replies = (after, (s.opening now replies.granted).2.1 ++ pieces.map .wrote, true)) := by
  have isOpen := opening_isOpen s now replies.granted
  have counts : ∀ frames, s.counters.Counts frames → (s.opening now replies.granted).1.counters.Counts frames :=
    fun _ given => opening_counts given now replies.granted
  unfold deliver
  generalize s.opening now replies.granted = result at isOpen counts
  obtain ⟨opened, traffic, granted⟩ := result
  dsimp only at isOpen counts ⊢
  cases granted with
  | false => exact .inl ⟨rfl, rfl⟩
  | true =>
    refine .inr ?_
    have failed : ∀ at' : UsbSerialSink R, (at'.fail now).1.isOpen = false ∧
        ∀ frames, at'.counters.Counts frames → (at'.fail now).1.counters.Counts frames := fun at' =>
      ⟨closing_isOpen at', fun _ counts => counts⟩
    cases hangup : replies.hangup with
    | true =>
      -- the device is gone: nothing is written
      have lost := failed opened
      have none : writeLoop (replies.clock + (opened.fail now).1.config.writeTimeoutS) [] frame.bytes = ([], false) := by
        cases bytes : frame.bytes with
        | nil => exact absurd bytes frame.some_byte
        | cons b left => rfl
      refine .inl ⟨rfl, ((opened.fail now).1.fail now).1, (failed _).1, fun frames given => (failed _).2 _ (lost.2 _ (counts _ given)),
        [], List.nil_prefix, frame.some_byte.symm, ?_⟩
      dsimp only
      rw [if_pos rfl, lost.1, if_neg (by decide), none]
      dsimp only
      rw [show (opened.fail now).2 = [.closed] from closing_open isOpen, show ((opened.fail now).1.fail now).2 = [] from closing_shut lost.1]
      simp
    | false =>
      obtain ⟨rest, split, ends⟩ := writeLoop_prefix (replies.clock + opened.config.writeTimeoutS) replies.writes frame.bytes
      dsimp only
      rw [if_neg (by decide)]
      dsimp only
      rw [isOpen, if_pos rfl]
      generalize writeLoop (replies.clock + opened.config.writeTimeoutS) replies.writes frame.bytes = written at split ends
      obtain ⟨pieces, whole⟩ := written
      cases whole with
      | true =>
        have same : frame.bytes = pieces.flatten := by rw [split, ends.mp rfl, List.append_nil]
        refine .inr ⟨rfl, { opened with counters := { opened.counters with
          framesDelivered := opened.counters.framesDelivered + 1
          bytesDelivered := opened.counters.bytesDelivered + frame.bytes.length
          lastDeliveryS := now } }, isOpen, fun frames given => ?_, pieces, same.symm, by simp only [List.append_nil, isOpen]⟩
        obtain ⟨count, bytes⟩ := counts _ given
        refine ⟨?_, ?_⟩
        · rw [List.length_append, List.length_singleton, ← count]
        · rw [List.map_append, List.sum_append, ← bytes, List.map_singleton, List.sum_singleton]
      | false =>
        have some : rest ≠ [] := fun none => Bool.false_ne_true (ends.mpr none)
        refine .inl ⟨rfl, (opened.fail now).1, (failed _).1, fun frames given => (failed _).2 _ (counts _ given), pieces,
          ⟨rest, split.symm⟩, fun same => ?_, ?_⟩
        · rw [same] at split
          exact some (List.self_eq_append_right.mp split)
        · rw [List.append_nil, show (opened.fail now).2 = [.closed] from closing_open isOpen]

theorem deliver_line {sent : List ValidatedFrame} {s : UsbSerialSink R} {log : List Traffic} (line : Line sent s.isOpen log)
    (frame : ValidatedFrame) (now : R) (replies : Replies R) :
    ∃ sent', (sent' = sent ∨ sent' = sent ++ [frame]) ∧
      Line sent' (s.deliver frame now replies).1.isOpen (log ++ (s.deliver frame now replies).2.1) := by
  have opened := opening_line line now replies.granted
  have isOpen := opening_isOpen s now replies.granted
  rcases deliver_cases s frame now replies with ⟨refused, result⟩ | ⟨granted, after, shut, -, pieces, part, cut, result⟩ |
    ⟨granted, after, remains, -, pieces, same, result⟩
  · exact ⟨sent, .inl rfl, by rw [result]; exact opened⟩
  · rw [isOpen, granted] at opened
    refine ⟨sent ++ [frame], .inr rfl, ?_⟩
    rw [result, shut, ← List.append_assoc, ← List.append_assoc]
    exact .cut frame pieces opened part cut
  · rw [isOpen, granted] at opened
    refine ⟨sent ++ [frame], .inr rfl, ?_⟩
    rw [result, remains, ← List.append_assoc]
    exact .frame frame pieces opened same

/-- A frame is counted when every byte of it was written. -/
theorem deliver_counts {s : UsbSerialSink R} {frames : List ValidatedFrame} (counts : s.counters.Counts frames) (frame : ValidatedFrame)
    (now : R) (replies : Replies R) :
    (s.deliver frame now replies).1.counters.Counts
      (if (s.deliver frame now replies).2.1.flatMap Traffic.bytes = frame.bytes then frames ++ [frame] else frames) := by
  have opened := opening_counts counts now replies.granted
  have quiet := opening_traffic s now replies.granted
  rcases deliver_cases s frame now replies with ⟨refused, result⟩ | ⟨granted, after, -, kept, pieces, part, cut, result⟩ |
    ⟨granted, after, -, counted, pieces, same, result⟩
  · rw [result, if_neg (by rw [quiet]; exact frame.some_byte.symm)]
    exact opened
  · have bytes : ((s.opening now replies.granted).2.1 ++ pieces.map Traffic.wrote ++ [Traffic.closed]).flatMap Traffic.bytes = pieces.flatten := by
      rw [List.flatMap_append, List.flatMap_append, quiet, pieces_bytes]
      exact List.append_nil _
    rw [result, if_neg (by rw [bytes]; exact cut)]
    exact kept _ counts
  · have bytes : ((s.opening now replies.granted).2.1 ++ pieces.map Traffic.wrote).flatMap Traffic.bytes = frame.bytes := by
      rw [List.flatMap_append, quiet, pieces_bytes, same]
      rfl
    rw [result, if_pos bytes]
    exact counted _ counts

theorem readAvailable_line {sent : List ValidatedFrame} {s : UsbSerialSink R} {log : List Traffic} (line : Line sent s.isOpen log) (now : R)
    (hangup : Bool) : Line sent (s.readAvailable now hangup).1.isOpen (log ++ (s.readAvailable now hangup).2) := by
  unfold readAvailable
  split
  · exact closing_line line
  · rw [List.append_nil]
    exact line

theorem readAvailable_quiet (s : UsbSerialSink R) (now : R) (hangup : Bool) : (s.readAvailable now hangup).2.flatMap Traffic.bytes = [] := by
  unfold readAvailable
  split
  · exact closing_traffic s
  · rfl

theorem readAvailable_counts {s : UsbSerialSink R} {frames : List ValidatedFrame} (counts : s.counters.Counts frames) (now : R)
    (hangup : Bool) : (s.readAvailable now hangup).1.counters.Counts frames := by
  unfold readAvailable
  split <;> exact counts

theorem readAvailable_open {s : UsbSerialSink R} {now : R} {hangup : Bool} (isOpen : (s.readAvailable now hangup).1.isOpen = true) :
    s.isOpen = true := by
  unfold readAvailable at isOpen
  split at isOpen
  · rename_i dead
    exact (Bool.and_eq_true_iff.mp dead).1
  · exact isOpen

end UsbSerialSink

/-! ### The DDS sink -/

namespace DdsSink

theorem publishLoop_prefix (chunks : List Chunk) (answers : List Bool) : publishLoop chunks answers <+: chunks := by
  fun_induction publishLoop chunks answers with
  | case1 chunk chunks answers ih => exact (List.prefix_cons_inj chunk).mpr ih
  | case2 => exact List.nil_prefix

/-- The first chunks of a frame hold all of it only when they are all. -/
theorem published_whole {frame : Bytes} {sequence : ℕ} {chunks published : List Chunk} (pieces : Fragments frame sequence chunks)
    (first : published <+: chunks) : published.flatMap Chunk.data = frame ↔ published.length = chunks.length := by
  obtain ⟨rest, rfl⟩ := first
  have whole := pieces.whole
  rw [List.flatMap_append] at whole
  rw [← whole, List.self_eq_append_right, List.length_append, Nat.left_eq_add, List.length_eq_zero_iff, List.flatMap_eq_nil_iff]
  constructor
  · intro none
    by_contra some
    obtain ⟨chunk, member⟩ := List.exists_mem_of_ne_nil _ some
    exact (pieces.sizes chunk (List.mem_append_right _ member)).1 (none chunk member)
  · rintro rfl
    exact fun _ member => absurd member List.not_mem_nil

variable {R : Type}

theorem opening_counts {s : DdsSink R} {frames : List ValidatedFrame} (counts : s.counters.Counts frames) (ready : Ready) :
    (s.opening ready).1.counters.Counts frames := by
  unfold opening
  split
  · exact counts
  · cases ready <;> exact counts

theorem opening_chunker (s : DdsSink R) (ready : Ready) : (s.opening ready).1.chunker = s.chunker := by
  unfold opening
  split
  · rfl
  · cases ready <;> rfl

/-- What one `deliver` does: the chunks of the frame go out up to the first that is not taken. -/
theorem deliver_spec {s : DdsSink R} (low : s.chunker.seq.toNat < 32) {frames : List ValidatedFrame} (counts : s.counters.Counts frames)
    (frame : ValidatedFrame) (now : R) (replies : Replies) :
    (s.deliver frame now replies).1.chunker.seq.toNat < 32 ∧
    (∃ sequence < 32, ∃ chunks, Fragments frame.bytes sequence chunks ∧ (s.deliver frame now replies).2.1 <+: chunks) ∧
    (s.deliver frame now replies).1.counters.Counts
      (if (s.deliver frame now replies).2.1.flatMap Chunk.data = frame.bytes then frames ++ [frame] else frames) := by
  have opened := opening_counts counts replies.openReady
  have same := opening_chunker s replies.openReady
  unfold deliver
  generalize s.opening replies.openReady = result at opened same
  obtain ⟨s₁, active⟩ := result
  dsimp only at opened same ⊢
  have low₁ : s₁.chunker.seq.toNat < 32 := by rwa [same]
  obtain ⟨next, pieces⟩ := Chunker.split_fits low₁ frame.fits
  have low₂ : (s₁.chunker.split frame.bytes).1.seq.toNat < 32 := by
    rw [next, Chunker.next_seq low₁]
    exact Nat.mod_lt _ (by decide)
  by_cases ready : (!(active && decide (replies.ready = .yes))) = true
  · rw [if_pos ready]
    refine ⟨low₁, ⟨_, low₁, _, pieces, List.nil_prefix⟩, ?_⟩
    rw [if_neg (show ([] : List Chunk).flatMap Chunk.data ≠ frame.bytes from frame.some_byte.symm)]
    exact opened
  · rw [if_neg ready]
    generalize s₁.chunker.split frame.bytes = result at pieces low₂
    obtain ⟨chunker, chunks⟩ := result
    dsimp only at pieces low₂ ⊢
    have some : chunks ≠ [] := by
      rintro rfl
      exact frame.some_byte pieces.whole.symm
    have first := publishLoop_prefix chunks replies.published
    have whole := published_whole pieces first
    rw [if_neg some]
    split
    · rename_i short
      refine ⟨low₂, ⟨_, low₁, _, pieces, first⟩, ?_⟩
      rw [if_neg (by rw [whole]; exact short.ne)]
      exact opened
    · rename_i all
      refine ⟨low₂, ⟨_, low₁, _, pieces, first⟩, ?_⟩
      rw [if_pos (whole.mpr (le_antisymm first.length_le (Nat.not_lt.mp all)))]
      refine ⟨?_, ?_⟩
      · rw [List.length_append, List.length_singleton, ← opened.1]
      · rw [List.map_append, List.sum_append, ← opened.2, List.map_singleton, List.sum_singleton]

end DdsSink

/-! ### The authority -/

namespace InjectionAuthority

variable {R : Type}

/-- What every state has, with the history that led to it. -/
structure Inv (h : History R) (a : InjectionAuthority R) : Prop where
  usb : a.usb.isOpen = true → a.selected = some .usbDirect
  dds : a.dds.active = true → a.selected = some .px4Dds
  generation : a.generation = changes h
  sequence : a.dds.chunker.seq.toNat < 32
  line : ∃ sent, sent.Sublist (frames h) ∧ Line sent a.usb.isOpen (serialLog h)
  written : a.usb.counters.Counts (whole Outcome.serialBytes h)
  published : a.dds.counters.Counts (whole Outcome.publishedBytes h)
  sound : Everywhere Sound h

/-- After the selected sink is closed both are. -/
theorem closeSelected_spec {h : History R} {a : InjectionAuthority R} (inv : Inv h a) :
    let b := ({ a with generation := a.generation + 1 } : InjectionAuthority R).closeSelected
    b.1.usb.isOpen = false ∧ b.1.dds.active = false ∧ b.1.selected = none ∧ b.1.generation = changes h + 1 ∧
    b.1.dds.chunker = a.dds.chunker ∧ b.1.usb.counters.Counts (whole Outcome.serialBytes h) ∧
    b.1.dds.counters.Counts (whole Outcome.publishedBytes h) ∧ b.2.flatMap Traffic.bytes = [] ∧
    ∃ sent, sent.Sublist (frames h) ∧ Line sent b.1.usb.isOpen (serialLog h ++ b.2) := by
  obtain ⟨usb, dds, generation, sequence, ⟨sent, order, line⟩, written, published, -⟩ := inv
  intro b
  have next : a.generation + 1 = changes h + 1 := by rw [generation]
  cases selected : a.selected with
  | none =>
    rw [selected] at usb dds
    have shut : a.usb.isOpen = false := Bool.eq_false_iff.mpr fun isOpen => nomatch usb isOpen
    have idle : a.dds.active = false := Bool.eq_false_iff.mpr fun active => nomatch dds active
    have same : b = ({ a with generation := a.generation + 1 }, []) := by
      simp only [b, closeSelected, selected]
    rw [same]
    refine ⟨shut, idle, selected, next, rfl, written, published, rfl, sent, order, ?_⟩
    rw [List.append_nil]
    exact line
  | some transport =>
    rw [selected] at usb dds
    cases transport with
    | usbDirect =>
      have idle : a.dds.active = false := Bool.eq_false_iff.mpr fun active => nomatch dds active
      have same : b = ({ a with usb := a.usb.closing.1, selected := none, generation := a.generation + 1 }, a.usb.closing.2) := by
        simp only [b, closeSelected, selected]
      rw [same]
      exact ⟨UsbSerialSink.closing_isOpen _, idle, rfl, next, rfl, UsbSerialSink.closing_counts written, published,
        UsbSerialSink.closing_traffic _, sent, order, UsbSerialSink.closing_line line⟩
    | px4Dds =>
      have shut : a.usb.isOpen = false := Bool.eq_false_iff.mpr fun isOpen => nomatch usb isOpen
      have same : b = ({ a with dds := a.dds.closing, selected := none, generation := a.generation + 1 }, []) := by
        simp only [b, closeSelected, selected]
      rw [same]
      refine ⟨shut, rfl, rfl, next, rfl, written, published, rfl, sent, order, ?_⟩
      rw [List.append_nil]
      exact line

theorem whole_none {bytes : Outcome → Bytes} {out : Outcome} (none : bytes out = []) (generation : ℕ) (frame : ValidatedFrame) (now : R)
    (usb : UsbSerialSink.Replies R) (dds : DdsSink.Replies) (h : History R) :
    whole bytes (⟨.deliver generation frame now usb dds, out⟩ :: h) = whole bytes h := by
  rw [whole, none, if_neg frame.some_byte.symm]

/-- A frame that goes nowhere. -/
theorem dropped_inv {h : History R} {a : InjectionAuthority R} (inv : Inv h a) (generation : ℕ) (frame : ValidatedFrame) (now : R)
    (usb : UsbSerialSink.Replies R) (dds : DdsSink.Replies) : Inv (⟨.deliver generation frame now usb dds, {}⟩ :: h) a := by
  obtain ⟨sent, order, line⟩ := inv.line
  have low := inv.sequence
  have pieces := (Chunker.split_fits low frame.fits).2
  refine ⟨inv.usb, inv.dds, inv.generation, low, ⟨sent, order.trans (List.sublist_append_left _ _), ?_⟩, ?_, ?_,
    ⟨⟨fun _ => ⟨rfl, rfl⟩, _, low, _, pieces, List.nil_prefix⟩, inv.sound⟩⟩
  · rw [serialLog, List.append_nil]
    exact line
  · rw [whole_none rfl]
    exact inv.written
  · rw [whole_none rfl]
    exact inv.published

theorem stop_inv {h : History R} {a : InjectionAuthority R} (inv : Inv h a) : Inv (⟨.stop, a.stop.2⟩ :: h) a.stop.1 := by
  obtain ⟨shut, idle, -, generation, chunker, written, published, quiet, sent, order, line⟩ := closeSelected_spec inv
  have low := inv.sequence
  rw [← chunker] at low
  unfold stop
  generalize ({ a with generation := a.generation + 1 } : InjectionAuthority R).closeSelected = result at *
  obtain ⟨b, ended⟩ := result
  dsimp only at *
  refine ⟨fun isOpen => ?_, fun active => ?_, generation, low, ⟨sent, order, line⟩, written, published, ⟨⟨quiet, rfl⟩, inv.sound⟩⟩
  · rw [isOpen] at shut
    exact absurd shut (by decide)
  · rw [active] at idle
    exact absurd idle (by decide)

variable [Scalar R]

theorem switchTo_inv {h : History R} {a : InjectionAuthority R} (inv : Inv h a) (source : CorrectionSource)
    (transport : CorrectionTransport) (now : R) (granted : Bool) (ready : Ready) :
    Inv (⟨.switchTo source transport now granted ready, (a.switchTo source transport now granted ready).2⟩ :: h)
      (a.switchTo source transport now granted ready).1 := by
  obtain ⟨shut, idle, -, generation, chunker, written, published, quiet, sent, order, line⟩ := closeSelected_spec inv
  have low := inv.sequence
  rw [← chunker] at low
  unfold switchTo
  generalize ({ a with generation := a.generation + 1 } : InjectionAuthority R).closeSelected = result at *
  obtain ⟨b, ended⟩ := result
  dsimp only at *
  cases transport with
  | usbDirect =>
    refine ⟨fun _ => rfl, fun active => ?_, generation, low, ⟨sent, order, ?_⟩, UsbSerialSink.opening_counts written now granted, published,
      ⟨⟨?_, ?_, rfl⟩, inv.sound⟩⟩
    · rw [show b.dds.active = true from active] at idle
      exact absurd idle (by decide)
    · rw [serialLog, ← List.append_assoc]
      exact UsbSerialSink.opening_line line now granted
    · exact congrArg some generation
    · rw [Outcome.serialBytes, List.flatMap_append, quiet, UsbSerialSink.opening_traffic]
      rfl
  | px4Dds =>
    refine ⟨fun isOpen => ?_, fun _ => rfl, generation, ?_, ⟨sent, order, line⟩, written, DdsSink.opening_counts published ready,
      ⟨⟨congrArg some generation, quiet, rfl⟩, inv.sound⟩⟩
    · rw [show b.usb.isOpen = true from isOpen] at shut
      exact absurd shut (by decide)
    · dsimp only
      rw [DdsSink.opening_chunker]
      exact low

theorem deliver_inv {h : History R} {a : InjectionAuthority R} (inv : Inv h a) (generation : ℕ) (frame : ValidatedFrame) (now : R)
    (usb : UsbSerialSink.Replies R) (dds : DdsSink.Replies) :
    Inv (⟨.deliver generation frame now usb dds, (a.deliver generation frame now usb dds).2⟩ :: h)
      (a.deliver generation frame now usb dds).1 := by
  unfold deliver
  split
  · exact dropped_inv inv generation frame now usb dds
  rename_i current
  have latest : generation = changes h := by rw [← inv.generation]; exact not_not.mp current
  obtain ⟨sent, order, line⟩ := inv.line
  split
  · exact dropped_inv inv generation frame now usb dds
  · rename_i selected
    obtain ⟨sent', grown, line'⟩ := UsbSerialSink.deliver_line line frame now usb
    have pieces := (Chunker.split_fits inv.sequence frame.fits).2
    refine ⟨fun _ => selected, inv.dds, inv.generation, inv.sequence, ⟨sent', ?_, line'⟩,
      UsbSerialSink.deliver_counts inv.written frame now usb, ?_,
      ⟨⟨fun old => absurd latest old, _, inv.sequence, _, pieces, List.nil_prefix⟩, inv.sound⟩⟩
    · rcases grown with rfl | rfl
      · exact order.trans (List.sublist_append_left _ _)
      · exact order.append (List.Sublist.refl _)
    · rw [whole_none rfl]
      exact inv.published
  · rename_i selected
    obtain ⟨low, chunks, counts⟩ := DdsSink.deliver_spec inv.sequence inv.published frame now dds
    refine ⟨inv.usb, fun _ => selected, inv.generation, low, ⟨sent, order.trans (List.sublist_append_left _ _), ?_⟩, ?_, counts,
      ⟨⟨fun old => absurd latest old, chunks⟩, inv.sound⟩⟩
    · rw [serialLog, List.append_nil]
      exact line
    · rw [whole_none rfl]
      exact inv.written

theorem readAvailable_inv {h : History R} {a : InjectionAuthority R} (inv : Inv h a) (now : R) (hangup : Bool) :
    Inv (⟨.readAvailable now hangup, (a.step (.readAvailable now hangup)).2⟩ :: h) (a.step (.readAvailable now hangup)).1 := by
  obtain ⟨sent, order, line⟩ := inv.line
  refine ⟨fun isOpen => inv.usb (UsbSerialSink.readAvailable_open isOpen), inv.dds, inv.generation, inv.sequence, ⟨sent, order, ?_⟩,
    UsbSerialSink.readAvailable_counts inv.written now hangup, inv.published, ⟨⟨?_, rfl⟩, inv.sound⟩⟩
  · exact UsbSerialSink.readAvailable_line line now hangup
  · exact UsbSerialSink.readAvailable_quiet _ now hangup

theorem run_inv {config : UsbConfig R} {h : History R} {a : InjectionAuthority R} (run : Run step (initial config) h a) : Inv h a := by
  refine run.invariant Inv ?_ fun h a call inv _ => ?_
  · exact ⟨(fun isOpen => nomatch isOpen), (fun active => nomatch active), rfl, Nat.succ_pos 31, ⟨[], List.Sublist.slnil, .start⟩, ⟨rfl, rfl⟩,
      ⟨rfl, rfl⟩, trivial⟩
  · cases call with
    | switchTo source transport now granted ready => exact switchTo_inv inv source transport now granted ready
    | stop => exact stop_inv inv
    | deliver generation frame now usb dds => exact deliver_inv inv generation frame now usb dds
    | readAvailable now hangup => exact readAvailable_inv inv now hangup

/-- After any calls one sink is open at most, the serial line has had whole frames between opening and closing but for the last before
a close, every call was sound, and each sink counts the frames that it let out whole. -/
theorem one_path {config : UsbConfig R} {h : History R} {a : InjectionAuthority R} (run : Run step (initial config) h a) :
    ¬(a.usb.isOpen = true ∧ a.dds.active = true) ∧
    (∃ sent, sent.Sublist (frames h) ∧ Line sent a.usb.isOpen (serialLog h)) ∧
    Everywhere Sound h ∧
    a.usb.counters.Counts (whole Outcome.serialBytes h) ∧ a.dds.counters.Counts (whole Outcome.publishedBytes h) := by
  have inv := run_inv run
  refine ⟨fun both => ?_, inv.line, inv.sound, inv.written, inv.published⟩
  have same := (inv.usb both.1).symm.trans (inv.dds both.2)
  exact absurd same (by decide)

/-- The device takes a part of the frame and then nothing: the line is closed and the frame is not counted. -/
def cutCalls : List (Call Flt) :=
  [.switchTo .ntrip .usbDirect (.fin 0) true .no,
    .deliver 1 RtcmParser.shortest (.fin 1) ⟨true, false, .fin 1, [.wrote 2, .failed]⟩ ⟨.no, .no, []⟩,
    .stop]

theorem one_path_cut :
    let (h, a) := exec step [] (initial ⟨"/dev/serial/by-id/receiver", .fin 1, .fin 1⟩) cutCalls
    a.usb.counters.Counts (whole Outcome.serialBytes h) :=
  (one_path (exec_run cutCalls .start)).2.2.2.1

end InjectionAuthority
end Dyx3.GnssRtk
