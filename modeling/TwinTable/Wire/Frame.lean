/-
The parts that every frame on the wire is made of: big-endian 32-bit words and
UTF-8 texts, read out of a buffer at a position.

Reading never looks past the end of the buffer. A part that is not there yet is
`FrameError.incomplete`, which says how long the buffer has to become before it is
worth looking again; a part that no further byte can mend is
`FrameError.malformed`. The two must not be confused: the first keeps a
connection open and the second ends it.
-/
set_option autoImplicit false

namespace TwinTable.Wire

/-- No frame asks for more arguments than this, nor for a longer text. -/
def lengthLimit : Nat := 32 * 1024 * 1024

/-- Why no frame could be read. -/
inductive FrameError where
  /-- The buffer holds `got` bytes of the `want` that are needed to go on. -/
  | incomplete (want got : Nat)
  /-- No continuation of these bytes is a frame. -/
  | malformed
deriving DecidableEq, Repr

/-- The sentence that describes the error. -/
def FrameError.message : FrameError → String
  | .incomplete want got => s!"not enough bytes (want: {want}, got: {got})"
  | .malformed => "protocol error (likely exceeding MAX_ARGS)"

/-! ## Words -/

/-- The four bytes of `n` modulo 2^32, the high one first. -/
def word (n : Nat) : ByteArray :=
  ⟨#[(n / 256 / 256 / 256).toUInt8, (n / 256 / 256).toUInt8, (n / 256).toUInt8, n.toUInt8]⟩

/-- The byte at a position; zero past the end. -/
def byteAt (src : ByteArray) (pos : Nat) : Nat :=
  if h : pos < src.size then (src.get pos h).toNat else 0

/-- The word at a position. -/
def wordAt (src : ByteArray) (pos : Nat) : Except FrameError Nat :=
  if src.size < pos + 4 then
    .error (.incomplete (pos + 4) src.size)
  else
    .ok (((byteAt src pos * 256 + byteAt src (pos + 1)) * 256
      + byteAt src (pos + 2)) * 256 + byteAt src (pos + 3))

@[simp] theorem size_word (n : Nat) : (word n).size = 4 := rfl

/-- Whether a word can be read depends on the length of the buffer alone. -/
theorem wordAt_eq_error_iff {src : ByteArray} {pos : Nat} {e : FrameError} :
    wordAt src pos = .error e ↔ src.size < pos + 4 ∧ e = .incomplete (pos + 4) src.size := by
  unfold wordAt
  split
  · rename_i h
    simp [h, eq_comm]
  · rename_i h
    simp [h]

/-! ## Texts -/

/-- The text of `len` bytes at a position. Whether the bytes are there is asked
before whether they are UTF-8. -/
def textAt (src : ByteArray) (pos len : Nat) : Except FrameError String :=
  if src.size < pos + len then
    .error (.incomplete (pos + len) src.size)
  else
    match String.fromUTF8? (src.extract pos (pos + len)) with
    | some text => .ok text
    | none => .error .malformed

/-! ## Streams of frames -/

/-- Takes frames off the front of a buffer as long as `decode` finds one, at most
`most` of them. Returned are the frames, each with its length, why the next one
could not be read, and the bytes from there on. -/
def splitFrames {α : Type} (decode : ByteArray → Except FrameError (α × Nat)) :
    (most : Nat) → ByteArray → List (α × Nat) × FrameError × ByteArray
  | 0, src => ([], .incomplete (src.size + 1) src.size, src)
  | most + 1, src =>
    match decode src with
    | .error e => ([], e, src)
    | .ok (frame, used) =>
      let (frames, stop, rest) := splitFrames decode most (src.extract used src.size)
      ((frame, used) :: frames, stop, rest)

end TwinTable.Wire
