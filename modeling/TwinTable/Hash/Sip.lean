/-
SipHash-1-3: the keyed hash under which string keys are filed.

A message is read as little-endian 64-bit words. Each word goes through one
round, the last, short word carries the length of the message modulo 256 in its
top byte, and three rounds finish. The key is a `Seed` of two words, so that the
same key text lands in different buckets under different seeds.

A message need not be there at once: a `Hasher` takes it piece by piece, and keeps
the bytes that do not fill a word for the next piece. That is how a key is hashed
with its letters lowered, without ever making a lowered copy of the whole of it.

Everything is arithmetic on `UInt64`, which wraps as the algorithm asks, and the
message is consumed eight bytes at a time by recursion on the list, so there is
no index to get wrong.
-/
set_option autoImplicit false

namespace TwinTable

/-! ## Seeds -/

/-- The two words that key the hash. -/
structure Seed where
  /-- The first eight bytes, read little-endian. -/
  k0 : UInt64
  /-- The last eight bytes, read little-endian. -/
  k1 : UInt64
deriving DecidableEq, Repr

namespace SipHash

/-- The word whose little-endian bytes are `bytes`; up to eight are meaningful. -/
def wordOfBytes (bytes : List UInt8) : UInt64 :=
  bytes.foldr (fun b acc => acc <<< 8 ||| b.toUInt64) 0

/-- The little-endian bytes of a word. -/
def bytesOfWord (w : UInt64) : List UInt8 :=
  (List.range 8).map fun i => (w >>> (8 * i).toUInt64).toUInt8

end SipHash

namespace Seed

/-- No seed set: both words are zero. -/
def zero : Seed := ⟨0, 0⟩

/-- Reads sixteen bytes, each half little-endian. -/
def ofBytes (bytes : List UInt8) : Seed :=
  ⟨SipHash.wordOfBytes (bytes.take 8), SipHash.wordOfBytes ((bytes.drop 8).take 8)⟩

/-- The sixteen bytes that `Seed.ofBytes` reads back. -/
def toBytes (s : Seed) : List UInt8 :=
  SipHash.bytesOfWord s.k0 ++ SipHash.bytesOfWord s.k1

end Seed

namespace SipHash

/-! ## The round -/

/-- The four words that the rounds mix. -/
structure Lanes where
  a : UInt64
  b : UInt64
  c : UInt64
  d : UInt64
deriving DecidableEq, Repr

/-- Rotates left by `k` bits, for `0 < k < 64`. -/
def rotate (x k : UInt64) : UInt64 :=
  x <<< k ||| x >>> (64 - k)

/-- The lanes before any word is read: four constants, each under one half of the seed. -/
def Lanes.start (s : Seed) : Lanes where
  a := s.k0 ^^^ 0x736f6d6570736575
  b := s.k1 ^^^ 0x646f72616e646f6d
  c := s.k0 ^^^ 0x6c7967656e657261
  d := s.k1 ^^^ 0x7465646279746573

/-- One round: four additions, each followed by a rotation and an exclusive or. -/
def Lanes.round (v : Lanes) : Lanes :=
  let a := v.a + v.b
  let b := rotate v.b 13 ^^^ a
  let a := rotate a 32
  let c := v.c + v.d
  let d := rotate v.d 16 ^^^ c
  let a := a + d
  let d := rotate d 21 ^^^ a
  let c := c + b
  let b := rotate b 17 ^^^ c
  let c := rotate c 32
  ⟨a, b, c, d⟩

/-- Mixes in one word of the message, with one round. -/
def Lanes.absorb (v : Lanes) (m : UInt64) : Lanes :=
  let w := { v with d := v.d ^^^ m }.round
  { w with a := w.a ^^^ m }

/-- Three rounds, then the lanes folded into one word. -/
def Lanes.finish (v : Lanes) : UInt64 :=
  let w := { v with c := v.c ^^^ 0xff }.round.round.round
  w.a ^^^ w.b ^^^ w.c ^^^ w.d

/-! ## Messages -/

/-- Absorbs the full words of a row of bytes. Fewer than eight bytes are left over. -/
def Lanes.absorbWords : Lanes → List UInt8 → Lanes × List UInt8
  | v, b0 :: b1 :: b2 :: b3 :: b4 :: b5 :: b6 :: b7 :: rest =>
    absorbWords (v.absorb (wordOfBytes [b0, b1, b2, b3, b4, b5, b6, b7])) rest
  | v, short => (v, short)

/-- A hash in the making. -/
structure Hasher where
  /-- What the full words made of the lanes. -/
  lanes : Lanes
  /-- The bytes after the last full word. -/
  short : List UInt8
  /-- The number of bytes written. -/
  size : Nat
deriving DecidableEq, Repr

namespace Hasher

/-- Nothing written yet. -/
def start (s : Seed) : Hasher := ⟨.start s, [], 0⟩

/-- Writes the next piece of the message. -/
def write (h : Hasher) (piece : List UInt8) : Hasher :=
  let (lanes, short) := h.lanes.absorbWords (h.short ++ piece)
  ⟨lanes, short, h.size + piece.length⟩

/-- The hash of all that was written. The short word shares the last word with the
length. -/
def finish (h : Hasher) : UInt64 :=
  (h.lanes.absorb (wordOfBytes h.short ||| h.size.toUInt64 <<< 56)).finish

end Hasher

/-- SipHash-1-3 of a message under a seed. -/
def hash (s : Seed) (message : List UInt8) : UInt64 :=
  ((Hasher.start s).write message).finish

/-! ## Ignoring the case of letters -/

/-- The lower-case form of an ASCII capital letter; any other byte is itself. -/
def lowerByte (b : UInt8) : UInt8 :=
  if 0x41 ≤ b && b ≤ 0x5a then b + 0x20 else b

/-- Bytes that are lowered at a time. -/
def pieceSize : Nat := 64

/-- Cuts bytes into pieces of `size` bytes, the last one perhaps shorter, at most `most`
of them. -/
def pieces (size : Nat) : (most : Nat) → List UInt8 → List (List UInt8)
  | 0, _ => []
  | _ + 1, [] => []
  | most + 1, b :: bytes => (b :: bytes).take size :: pieces size most ((b :: bytes).drop size)

/-- Hashes with ASCII letters lowered first, so that the case of a letter does
not matter. Bytes of other characters are kept. The message is lowered and written
piece by piece. -/
def hashFolded (s : Seed) (message : List UInt8) : UInt64 :=
  ((pieces pieceSize message.length message).foldl
    (fun h piece => h.write (piece.map lowerByte)) (Hasher.start s)).finish

end SipHash

end TwinTable
