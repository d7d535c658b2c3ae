import Dyx3.GnssRtk.RtcmParser
import Mathlib.Data.List.Induction

/-!
`Chunker` (dyx3_gnss_rtk, rtcm_transport): RTCM frames in pieces for GpsInjectData. Bit 0 of the flags says that the frame is
fragmented, bits 1-2 are the fragment id, bits 3-7 the sequence id.
-/

namespace Dyx3.GnssRtk

structure Chunk where
  flags : UInt8 := 0
  data : Bytes
deriving DecidableEq, Repr

namespace Chunk

def fragmented (c : Chunk) : Bool := c.flags.toNat.testBit 0

def fragmentId (c : Chunk) : ℕ := c.flags.toNat / 2 % 4

def sequenceId (c : Chunk) : ℕ := c.flags.toNat / 8

end Chunk

def kMaxChunkBytes : ℕ := 300
def kMaxFragments : ℕ := 4

structure Chunker where
  seq : UInt8 := 0
  rejected : UInt64 := 0
deriving DecidableEq, Repr

namespace Chunker

/-- The chunk `k` of `n`. -/
def chunk (frame : Bytes) (n : ℕ) (seq : UInt8) (k : ℕ) : Chunk :=
  let start := k * kMaxChunkBytes
  let stop := min frame.length (start + kMaxChunkBytes)
  { flags := (if n > 1 then (1 : UInt8) else 0) ||| (UInt8.ofNat k <<< 1) ||| (seq <<< 3)
    data := (frame.drop start).take (stop - start) }

def split (c : Chunker) (frame : Bytes) : Chunker × List Chunk :=
  if frame = [] ∨ frame.length > kMaxChunkBytes * kMaxFragments then ({ c with rejected := c.rejected + 1 }, [])
  else
    let n := (frame.length + kMaxChunkBytes - 1) / kMaxChunkBytes
    ({ c with seq := (c.seq + 1) &&& 0x1F }, (List.range n).map (chunk frame n c.seq))

/-- The chunker after the frames. -/
def after (frames : List Bytes) : Chunker := frames.foldl (fun c frame => (c.split frame).1) {}

end Chunker

/-- A frame that is not cut off. -/
abbrev Fits (frame : Bytes) : Prop := frame ≠ [] ∧ frame.length ≤ kMaxChunkBytes * kMaxFragments

/-- The chunks of a frame under a sequence id: the frame in order, in pieces of which only the last may be short. -/
structure Fragments (frame : Bytes) (sequence : ℕ) (chunks : List Chunk) : Prop where
  whole : chunks.flatMap Chunk.data = frame
  few : chunks.length ≤ kMaxFragments
  sizes : ∀ c ∈ chunks, c.data ≠ [] ∧ c.data.length ≤ kMaxChunkBytes
  full : ∀ k, k + 1 < chunks.length → chunks[k]?.map (fun c => c.data.length) = some kMaxChunkBytes
  flags : ∀ c ∈ chunks, (c.fragmented = decide (1 < chunks.length)) ∧ c.sequenceId = sequence
  ids : chunks.map Chunk.fragmentId = List.range chunks.length

namespace Chunker

/-! ### The flags -/

theorem chunk_flags {n k : ℕ} {seq : UInt8} (small : k < 4) (low : seq.toNat < 32) (frame : Bytes) :
    (chunk frame n seq k).fragmented = decide (1 < n) ∧ (chunk frame n seq k).fragmentId = k ∧ (chunk frame n seq k).sequenceId = seq.toNat := by
  have all : ∀ one : Bool, ∀ k < 4, ∀ s < 32,
      let flags : UInt8 := (if one then (1 : UInt8) else 0) ||| (UInt8.ofNat k <<< 1) ||| (UInt8.ofNat s <<< 3)
      flags.toNat.testBit 0 = one ∧ flags.toNat / 2 % 4 = k ∧ flags.toNat / 8 = s := by
    decide +kernel
  have here := all (decide (n > 1)) k small seq.toNat low
  rw [UInt8.ofNat_toNat] at here
  simp only [decide_eq_true_eq] at here
  exact here

theorem next_seq {seq : UInt8} (low : seq.toNat < 32) : ((seq + 1) &&& 0x1F).toNat = (seq.toNat + 1) % 32 := by
  have all : ∀ s < 32, ((UInt8.ofNat s + 1) &&& 0x1F).toNat = (s + 1) % 32 := by decide +kernel
  have here := all seq.toNat low
  rwa [UInt8.ofNat_toNat] at here

/-! ### The pieces -/

theorem chunk_data (frame : Bytes) (n : ℕ) (seq : UInt8) (k : ℕ) :
    (chunk frame n seq k).data = (frame.drop (k * kMaxChunkBytes)).take kMaxChunkBytes := by
  rw [chunk]
  dsimp only
  rcases Nat.le_total frame.length (k * kMaxChunkBytes + kMaxChunkBytes) with short | long
  · rw [min_eq_left short, List.take_of_length_le (by rw [List.length_drop]), List.take_of_length_le (by rw [List.length_drop]; omega)]
  · rw [min_eq_right long, Nat.add_sub_cancel_left]

theorem chunk_length (frame : Bytes) (n : ℕ) (seq : UInt8) (k : ℕ) :
    (chunk frame n seq k).data.length = min kMaxChunkBytes (frame.length - k * kMaxChunkBytes) := by
  rw [chunk_data, List.length_take, List.length_drop]

/-- The first chunks hold the beginning of the frame. -/
theorem chunks_take (frame : Bytes) (n : ℕ) (seq : UInt8) (m : ℕ) :
    ((List.range m).map (chunk frame n seq)).flatMap Chunk.data = frame.take (m * kMaxChunkBytes) := by
  induction m with
  | zero => rw [Nat.zero_mul, List.take_zero]; rfl
  | succ m ih =>
    rw [List.range_succ, List.map_append, List.flatMap_append, ih, List.map_singleton, List.flatMap_singleton, chunk_data, Nat.succ_mul]
    exact List.take_add.symm

theorem fragments {frame : Bytes} (fits : Fits frame) {seq : UInt8} (low : seq.toNat < 32) :
    let n := (frame.length + kMaxChunkBytes - 1) / kMaxChunkBytes
    Fragments frame seq.toNat ((List.range n).map (chunk frame n seq)) := by
  intro n
  obtain ⟨some, bound⟩ := fits
  have long := List.length_pos_iff.mpr some
  have few : n ≤ kMaxFragments := by
    simp only [n, kMaxChunkBytes, kMaxFragments] at bound ⊢
    omega
  have enough : frame.length ≤ n * kMaxChunkBytes := by
    simp only [n, kMaxChunkBytes]
    omega
  have starts : ∀ k, k < n → k * kMaxChunkBytes < frame.length := by
    intro k less
    simp only [n, kMaxChunkBytes] at less ⊢
    omega
  have count : ((List.range n).map (chunk frame n seq)).length = n := by rw [List.length_map, List.length_range]
  refine ⟨?_, count.trans_le few, ?_, ?_, ?_, ?_⟩
  · rw [chunks_take, List.take_of_length_le enough]
  · intro c member
    obtain ⟨k, inside, rfl⟩ := List.mem_map.mp member
    have start := starts k (List.mem_range.mp inside)
    have length := chunk_length frame n seq k
    refine ⟨List.length_pos_iff.mp ?_, ?_⟩
    · rw [length]
      simp only [kMaxChunkBytes] at start ⊢
      omega
    · rw [length]
      exact min_le_left _ _
  · intro k inside
    rw [count] at inside
    have start := starts (k + 1) inside
    rw [List.getElem?_map, List.getElem?_range (by omega), Option.map_some, Option.map_some, chunk_length, Option.some_inj]
    rw [Nat.succ_mul] at start
    omega
  · intro c member
    obtain ⟨k, inside, rfl⟩ := List.mem_map.mp member
    obtain ⟨one, _, sequence⟩ := chunk_flags (n := n) (lt_of_lt_of_le (List.mem_range.mp inside) few) low frame
    rw [count]
    exact ⟨one, sequence⟩
  · rw [count, List.map_map]
    refine (List.map_congr_left fun k inside => ?_).trans (List.map_id _)
    exact (chunk_flags (lt_of_lt_of_le (List.mem_range.mp inside) few) low frame).2.1

/-! ### Frame after frame -/

theorem split_fits {c : Chunker} (low : c.seq.toNat < 32) {frame : Bytes} (fits : Fits frame) :
    (c.split frame).1 = { c with seq := (c.seq + 1) &&& 0x1F } ∧ Fragments frame c.seq.toNat (c.split frame).2 := by
  have enters : ¬(frame = [] ∨ frame.length > kMaxChunkBytes * kMaxFragments) := by
    rw [not_or, not_lt]
    exact fits
  rw [split, if_neg enters]
  exact ⟨rfl, fragments fits low⟩

theorem split_rejected (c : Chunker) {frame : Bytes} (bad : ¬Fits frame) :
    c.split frame = ({ c with rejected := c.rejected + 1 }, []) := by
  rw [split, if_pos]
  rwa [not_and_or, not_not, not_le] at bad

theorem after_concat (frames : List Bytes) (frame : Bytes) : after (frames ++ [frame]) = ((after frames).split frame).1 := by
  rw [after, List.foldl_append]
  rfl

/-- The sequence id counts the frames that were not rejected. -/
theorem after_seq (frames : List Bytes) : (after frames).seq.toNat = frames.countP (fun frame => Fits frame) % 32 := by
  induction frames using List.reverseRecOn with
  | nil => rfl
  | append_singleton frames frame ih =>
    have low : (after frames).seq.toNat < 32 := ih.trans_lt (Nat.mod_lt _ (by decide))
    rw [after_concat, List.countP_append, List.countP_singleton]
    by_cases fits : Fits frame
    · rw [(split_fits low fits).1, next_seq low, ih, if_pos (by simpa using fits), Nat.mod_add_mod]
    · rw [split_rejected _ fits, if_neg (by simpa using fits)]
      exact ih

/-- After any frames, a frame is rejected if it is empty or too long and else comes out whole in its fragments, under the number of
frames before it that were not rejected. -/
theorem split_frames (frames : List Bytes) (frame : Bytes) :
    ((after frames).split frame = ({ after frames with rejected := (after frames).rejected + 1 }, []) ↔
      frame = [] ∨ kMaxChunkBytes * kMaxFragments < frame.length) ∧
    (¬(frame = [] ∨ kMaxChunkBytes * kMaxFragments < frame.length) →
      Fragments frame (frames.countP (fun frame => Fits frame) % 32) ((after frames).split frame).2 ∧
      ((after frames).split frame).1.rejected = (after frames).rejected) := by
  have low : (after frames).seq.toNat < 32 := (after_seq frames).trans_lt (Nat.mod_lt _ (by decide))
  have fits_iff : ¬Fits frame ↔ frame = [] ∨ kMaxChunkBytes * kMaxFragments < frame.length := by
    rw [not_and_or, not_not, not_le]
  refine ⟨⟨fun refused => fits_iff.mp fun fits => ?_, fun bad => split_rejected _ (fits_iff.mpr bad)⟩, fun good => ?_⟩
  · have pieces := (split_fits low fits).2.whole
    rw [refused] at pieces
    exact fits.1 pieces.symm
  · obtain ⟨next, pieces⟩ := split_fits low (not_not.mp (mt fits_iff.mp good))
    rw [after_seq] at pieces
    exact ⟨pieces, by rw [next]⟩

end Chunker
end Dyx3.GnssRtk
