/-
Reading bytes as UTF-8 when they may not be: every maximal run of bytes that begins
a character but does not finish one is read as a single replacement character, and
so is every byte that can begin none.

The reader is a machine with one step per byte. Between characters it is idle; in
the middle of one it knows how many continuation bytes are owed and the range the
next one must lie in. The range is narrower than `80..bf` exactly after the lead
bytes whose full range would admit overlong forms, surrogates or values past the
last code point.
-/
set_option autoImplicit false

namespace TwinTable.Text.Lossy

/-- What stands for bytes that are no character. -/
def replacement : Char := Char.ofNat 0xfffd

/-- A character that has begun. -/
structure Begun where
  /-- Continuation bytes still owed, at least one. -/
  owed : Nat
  /-- The least byte that may come next. -/
  low : UInt8
  /-- The greatest byte that may come next. -/
  high : UInt8
  /-- The bits read so far. -/
  bits : Nat

/-- What a byte does between characters: the text it ends at once, or the
character it begins. -/
def begin? (b : UInt8) : List Char × Option Begun :=
  if b < 0x80 then ([Char.ofNat b.toNat], none)
  else if b < 0xc2 then ([replacement], none)
  else if b < 0xe0 then ([], some ⟨1, 0x80, 0xbf, b.toNat - 0xc0⟩)
  else if b = 0xe0 then ([], some ⟨2, 0xa0, 0xbf, 0⟩)
  else if b = 0xed then ([], some ⟨2, 0x80, 0x9f, 0xd⟩)
  else if b < 0xf0 then ([], some ⟨2, 0x80, 0xbf, b.toNat - 0xe0⟩)
  else if b = 0xf0 then ([], some ⟨3, 0x90, 0xbf, 0⟩)
  else if b < 0xf4 then ([], some ⟨3, 0x80, 0xbf, b.toNat - 0xf0⟩)
  else if b = 0xf4 then ([], some ⟨3, 0x80, 0x8f, 4⟩)
  else ([replacement], none)

/-- Takes in a continuation byte. -/
def Begun.extend (p : Begun) (b : UInt8) : List Char × Option Begun :=
  let bits := p.bits * 64 + (b.toNat - 0x80)
  if p.owed ≤ 1 then ([Char.ofNat bits], none) else ([], some ⟨p.owed - 1, 0x80, 0xbf, bits⟩)

/-- One byte: the text it completes, and what has begun after it. A byte that does
not continue what has begun replaces that, and is then read afresh. -/
def step : Option Begun → UInt8 → List Char × Option Begun
  | none, b => begin? b
  | some p, b =>
    if p.low ≤ b && b ≤ p.high then
      p.extend b
    else
      let (text, now) := begin? b
      (replacement :: text, now)

/-- The characters of a row of bytes. -/
def readFrom : Option Begun → List UInt8 → List Char
  | none, [] => []
  | some _, [] => [replacement]
  | state, b :: rest =>
    let (text, now) := step state b
    text ++ readFrom now rest

/-- The text that the bytes most nearly are. -/
def decode (bytes : ByteArray) : String :=
  match String.fromUTF8? bytes with
  | some text => text
  | none => String.ofList (readFrom none bytes.toList)

end TwinTable.Text.Lossy
