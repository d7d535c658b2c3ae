import Mathlib.Algebra.Group.Nat.Defs
import Mathlib.Data.Nat.Notation

/-!
SHA-256 (dyx3_mission, sha256). Bytes are characters with their number.
-/

namespace Dyx3.Artifact.Sha256

def kK : List UInt32 :=
  [0x428a2f98, 0x71374491, 0xb5c0fbcf, 0xe9b5dba5, 0x3956c25b, 0x59f111f1, 0x923f82a4, 0xab1c5ed5,
   0xd807aa98, 0x12835b01, 0x243185be, 0x550c7dc3, 0x72be5d74, 0x80deb1fe, 0x9bdc06a7, 0xc19bf174,
   0xe49b69c1, 0xefbe4786, 0x0fc19dc6, 0x240ca1cc, 0x2de92c6f, 0x4a7484aa, 0x5cb0a9dc, 0x76f988da,
   0x983e5152, 0xa831c66d, 0xb00327c8, 0xbf597fc7, 0xc6e00bf3, 0xd5a79147, 0x06ca6351, 0x14292967,
   0x27b70a85, 0x2e1b2138, 0x4d2c6dfc, 0x53380d13, 0x650a7354, 0x766a0abb, 0x81c2c92e, 0x92722c85,
   0xa2bfe8a1, 0xa81a664b, 0xc24b8b70, 0xc76c51a3, 0xd192e819, 0xd6990624, 0xf40e3585, 0x106aa070,
   0x19a4c116, 0x1e376c08, 0x2748774c, 0x34b0bcb5, 0x391c0cb3, 0x4ed8aa4a, 0x5b9cca4f, 0x682e6ff3,
   0x748f82ee, 0x78a5636f, 0x84c87814, 0x8cc70208, 0x90befffa, 0xa4506ceb, 0xbef9a3f7, 0xc67178f2]

def rotr (x n : UInt32) : UInt32 := (x >>> n) ||| (x <<< (32 - n))

structure Hash where
  a : UInt32
  b : UInt32
  c : UInt32
  d : UInt32
  e : UInt32
  f : UInt32
  g : UInt32
  h : UInt32

def initial : Hash :=
  ⟨0x6a09e667, 0xbb67ae85, 0x3c6ef372, 0xa54ff53a, 0x510e527f, 0x9b05688c, 0x1f83d9ab, 0x5be0cd19⟩

/-- The sixteen words of a block, big-endian. -/
def words (block : List UInt8) : Array UInt32 :=
  (Array.range 16).map fun i =>
    ((List.range 4).map fun j => (block.getD (4 * i + j) 0).toUInt32).foldl (fun w byte => (w <<< 8) ||| byte) 0

/-- The message schedule, word by word from the sixteenth on. -/
def schedule (block : List UInt8) : Array UInt32 :=
  (List.range' 16 48).foldl (fun w i =>
    let w15 := w.getD (i - 15) 0
    let w2 := w.getD (i - 2) 0
    let s0 := rotr w15 7 ^^^ rotr w15 18 ^^^ (w15 >>> 3)
    let s1 := rotr w2 17 ^^^ rotr w2 19 ^^^ (w2 >>> 10)
    w.push (w.getD (i - 16) 0 + s0 + w.getD (i - 7) 0 + s1)) (words block)

def round (s : Hash) (k w : UInt32) : Hash :=
  let s1 := rotr s.e 6 ^^^ rotr s.e 11 ^^^ rotr s.e 25
  let ch := (s.e &&& s.f) ^^^ (~~~s.e &&& s.g)
  let t1 := s.h + s1 + ch + k + w
  let s0 := rotr s.a 2 ^^^ rotr s.a 13 ^^^ rotr s.a 22
  let maj := (s.a &&& s.b) ^^^ (s.a &&& s.c) ^^^ (s.b &&& s.c)
  let t2 := s0 + maj
  { a := t1 + t2, b := s.a, c := s.b, d := s.c, e := s.d + t1, f := s.e, g := s.f, h := s.g }

def compress (h : Hash) (block : List UInt8) : Hash :=
  let s := (kK.zip (schedule block).toList).foldl (fun s kw => round s kw.1 kw.2) h
  { a := h.a + s.a, b := h.b + s.b, c := h.c + s.c, d := h.d + s.d
    e := h.e + s.e, f := h.f + s.f, g := h.g + s.g, h := h.h + s.h }

/-- What is left after the full blocks, padded to one block or two: a one bit, zeros and the length in bits. -/
def tail (rem : List UInt8) (len : ℕ) : List UInt8 :=
  let padded := if rem.length + 1 + 8 ≤ 64 then 64 else 128
  rem ++ 0x80 :: List.replicate (padded - rem.length - 9) 0 ++
    (List.range 8).map fun i => UInt8.ofNat (len * 8 % 2 ^ 64 / 2 ^ (8 * (7 - i)))

def blocks (h : Hash) (data : List UInt8) (count : ℕ) : Hash :=
  (List.range count).foldl (fun h i => compress h ((data.drop (64 * i)).take 64)) h

def hexByte (byte : UInt8) : List Char := [Nat.digitChar (byte.toNat / 16), Nat.digitChar (byte.toNat % 16)]

def hexWord (w : UInt32) : List Char := (List.range 4).flatMap fun j => hexByte (UInt8.ofNat (w.toNat / 2 ^ (24 - 8 * j)))

def sha256Hex (text : List Char) : List Char :=
  let data := text.map fun c => UInt8.ofNat c.toNat
  let full := data.length / 64
  let rest := tail (data.drop (64 * full)) data.length
  let h := blocks (blocks initial data full) rest (rest.length / 64)
  [h.a, h.b, h.c, h.d, h.e, h.f, h.g, h.h].flatMap hexWord

/-- The digest is written in lower-case hexadecimal digits. -/
theorem sha256Hex_digits (text : List Char) : ∀ c ∈ sha256Hex text, ∃ d < 16, c = Nat.digitChar d := by
  have byte : ∀ b, ∀ c ∈ hexByte b, ∃ d < 16, c = Nat.digitChar d := by
    intro b c member
    have small : b.toNat < 256 := UInt8.toNat_lt b
    rcases List.mem_cons.mp member with rfl | member
    · exact ⟨_, by omega, rfl⟩
    · rw [List.mem_singleton.mp member]
      exact ⟨_, by omega, rfl⟩
  intro c member
  obtain ⟨w, _, member⟩ := List.mem_flatMap.mp member
  obtain ⟨j, _, member⟩ := List.mem_flatMap.mp member
  exact byte _ c member

end Dyx3.Artifact.Sha256
