/-
Rounding quotients of natural numbers, and the two things it is needed for: the double
nearest to a quotient, and a double to a fixed number of decimal places.

Both round to nearest, and where two neighbours are equally near, to the even one. The
text of a double is that of its exact value, however many digits that has, rounded
once.
-/
import TwinTable.Number.Double

set_option autoImplicit false

namespace TwinTable

/-- The natural number nearest to `num / den`, the even one of two. -/
def roundDiv (num den : Nat) : Nat :=
  let q := num / den
  let twice := 2 * (num % den)
  if twice < den then q
  else if den < twice then q + 1
  else if q % 2 = 0 then q else q + 1

namespace Double

/-- The double nearest to `num / den`, for numbers below 2^64 other than a zero `den`.
A quotient in that range is zero or normal: `shift` is chosen so that `num / den` times
`2 ^ shift` is at least 2^52 and below 2^53, apart from rounding up to it, where the
carry out of the fraction makes the exponent one larger, as it should. -/
def ofRatio (num den : Nat) : Double :=
  if num = 0 then
    ⟨0⟩
  else
    let guess := 52 + den.log2 + 64 - num.log2
    let scaled (shift : Nat) : Nat := (num <<< shift) / (den <<< 64)
    let shift := if scaled guess < leadingBit then guess + 1 else guess
    let m := roundDiv (num <<< shift) (den <<< 64)
    ⟨((1075 + 64 - shift) * leadingBit + (m - leadingBit)).toUInt64⟩

/-- A text made at least `width` characters long by zeros in front. -/
def padZeros (width : Nat) (s : String) : String :=
  String.ofList (List.replicate (width - s.length) '0') ++ s

/-- A finite double that is not negative, to so many decimal places. -/
def toFixed (places : Nat) (x : Double) : String :=
  let (m, e) := x.parts
  let one := Nat.pow 10 places
  let units := roundDiv ((m <<< e) * one) (1 <<< 1074)
  s!"{units / one}.{padZeros places (toString (units % one))}"

end Double

end TwinTable
