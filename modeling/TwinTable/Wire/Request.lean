/-
Request frames: the number of arguments, then each argument behind its length.

`encode` writes a list of texts and `decode` reads one back from the front of a
buffer, with the number of bytes it took, so that the next request can be read
where this one ended. Limits on the number and the length of arguments are checked
as soon as the word that breaks them is there, before the bytes it announces: a
peer cannot make a reader wait for gigabytes.

A scan reply carries its keys in a payload of the same form.
-/
import TwinTable.Wire.Frame

set_option autoImplicit false

namespace TwinTable.Wire.Request

/-- Adds one argument: its length, then its bytes. -/
def appendArgument (frame : ByteArray) (arg : String) : ByteArray :=
  frame ++ word arg.utf8ByteSize ++ arg.toUTF8

/-- The frame of a list of arguments. -/
def encode (args : List String) : ByteArray :=
  args.foldl appendArgument (word args.length)

/-- Reads `count` arguments from a position on; `earlier` holds those before,
the latest first. The number returned is the position behind the last. -/
def decodeArguments (src : ByteArray) :
    (count pos : Nat) → (earlier : List String) → Except FrameError (List String × Nat)
  | 0, pos, earlier => .ok (earlier.reverse, pos)
  | count + 1, pos, earlier =>
    match wordAt src pos with
    | .error e => .error e
    | .ok len =>
      if lengthLimit < len then
        .error .malformed
      else
        match textAt src (pos + 4) len with
        | .error e => .error e
        | .ok text => decodeArguments src count (pos + 4 + len) (text :: earlier)

/-- Reads one request from the front of `src`: its arguments and its length. -/
def decode (src : ByteArray) : Except FrameError (List String × Nat) :=
  match wordAt src 0 with
  | .error e => .error e
  | .ok count =>
    if lengthLimit < count then .error .malformed else decodeArguments src count 4 []

/-- All the requests at the front of `src`, with what stopped the reading and what
is left. A frame has at least four bytes, so a buffer holds fewer frames than bytes. -/
def decodeAll (src : ByteArray) : List (List String × Nat) × FrameError × ByteArray :=
  splitFrames decode (src.size + 1) src

end TwinTable.Wire.Request
