/-
IEEE 754 double-precision numbers, by their sixty-four bits.

A number is kept as its bits and not as a machine float, so that two numbers are
equal exactly if they are written alike, a zero keeps its sign and every not-a-number
keeps its payload. `Double.parts` takes the bits of a finite number apart into an
exact product: what its text needs is integer arithmetic from there on.
-/
set_option autoImplicit false

namespace TwinTable

/-- A double-precision number. -/
structure Double where
  bits : UInt64
deriving DecidableEq, Repr, Inhabited

namespace Double

/-- Whether the sign bit is set. -/
def negative (x : Double) : Bool :=
  x.bits >>> 63 == 1

/-- The eleven bits of the exponent. -/
def exponentBits (x : Double) : Nat :=
  ((x.bits >>> 52) &&& 0x7ff).toNat

/-- The fifty-two bits of the fraction. -/
def fractionBits (x : Double) : Nat :=
  (x.bits &&& 0xfffffffffffff).toNat

/-- Neither infinite nor a number at all. -/
def isFinite (x : Double) : Bool :=
  x.exponentBits < 0x7ff

/-- Not a number. -/
def isNaN (x : Double) : Bool :=
  x.exponentBits = 0x7ff && x.fractionBits ≠ 0

/-- What the bit before the fraction counts, which is set in a normal number. -/
def leadingBit : Nat := 0x10000000000000

/-- A finite number without its sign is `m * 2 ^ (e - 1074)`; this is `(m, e)`. Only
subnormal numbers have no leading bit, and they share the least exponent. -/
def parts (x : Double) : Nat × Nat :=
  if x.exponentBits = 0 then (x.fractionBits, 0)
  else (leadingBit + x.fractionBits, x.exponentBits - 1)

end Double

end TwinTable
