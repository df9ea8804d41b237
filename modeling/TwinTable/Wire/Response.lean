/-
Response frames: the length of the whole frame, a status, and a payload.

The length counts its own four bytes and those of the status, so it is at least
eight. `decode` refuses a frame above the length limit even if all of it is there.
-/
import TwinTable.Wire.Request

set_option autoImplicit false

namespace TwinTable.Wire

/-- The answer to one request. -/
structure Response where
  /-- How the request went: one of `Response.okay`, `Response.absent` and
  `Response.refused` from this library's service. -/
  status : Int32
  payload : ByteArray

namespace Response

/-- The request was carried out. -/
def okay : Int32 := 0

/-- There is no such key. -/
def absent : Int32 := 1

/-- The request was not understood. -/
def refused : Int32 := -1

/-- The bytes before the payload: the length and the status. -/
def headerSize : Nat := 8

/-- The frame of a response. -/
def encode (r : Response) : ByteArray :=
  word (headerSize + r.payload.size) ++ word r.status.toUInt32.toNat ++ r.payload

@[simp] theorem size_encode (r : Response) : r.encode.size = headerSize + r.payload.size := by
  simp [encode, headerSize]

/-- A response whose payload is a list of texts, written as a request is. -/
def ofTexts (status : Int32) (texts : List String) : Response :=
  ⟨status, Request.encode texts⟩

/-- A response whose payload is one text. -/
def ofText (status : Int32) (text : String) : Response :=
  ⟨status, text.toUTF8⟩

/-- Reads one response from the front of `src`, and its length. -/
def decode (src : ByteArray) : Except FrameError (Response × Nat) :=
  match wordAt src 0 with
  | .error e => .error e
  | .ok len =>
    if len < headerSize || lengthLimit < len then
      .error .malformed
    else if src.size < len then
      .error (.incomplete len src.size)
    else
      match wordAt src 4 with
      | .error e => .error e
      | .ok status => .ok (⟨status.toUInt32.toInt32, src.extract headerSize len⟩, len)

/-- All the responses at the front of `src`, with what stopped the reading and what
is left. -/
def decodeAll (src : ByteArray) : List (Response × Nat) × FrameError × ByteArray :=
  splitFrames decode (src.size + 1) src

end Response

end TwinTable.Wire
