/-
The text of a double: the fewest digits that read back to it.

A decimal reads back to a double if it lies in the interval of numbers that round to it.
The interval reaches half way to either neighbour, and its ends belong to it if the last
bit of the double is zero. For one digit, two digits and so on, the decimals next to the
double on either side are tried; the first that lies in the interval is taken, of two
the nearer one, and of two that are equally near the larger.

All of this is comparison of natural numbers: four times the double, and the ends of the
interval, are multiples of 2^-1076.
-/
import TwinTable.Number.Double

set_option autoImplicit false

namespace TwinTable.Double

/-! ## Digits -/

/-- The double and the ends of its interval, without sign, in units of 2^-1076, and
whether the ends belong to it. -/
structure Span where
  low : Nat
  value : Nat
  high : Nat
  closed : Bool

/-- The number of units in one. -/
def Span.one : Nat := 1 <<< 1076

/-- The span of a finite double other than zero. Below a power of two the neighbour is
only half as far away, unless it is a subnormal one. -/
def span (x : Double) : Span :=
  let (m, e) := x.parts
  let below := if m = leadingBit && e > 0 then 1 else 2
  ⟨(4 * m - below) <<< e, (4 * m) <<< e, (4 * m + 2) <<< e, m % 2 = 0⟩

/-- `10 ^ z` as a quotient. -/
def tenPower (z : Int) : Nat × Nat :=
  if 0 ≤ z then (Nat.pow 10 z.toNat, 1) else (1, Nat.pow 10 (-z).toNat)

/-- Whether `c * 10 ^ z` lies in the span. -/
def Span.holds (s : Span) (c : Nat) (z : Int) : Bool :=
  let (num, den) := tenPower z
  let c := c * num * one
  if s.closed then s.low * den ≤ c && c ≤ s.high * den
  else s.low * den < c && c < s.high * den

/-- The decimal with `n` digits that is taken, if there is one, as a multiple of
`10 ^ z`. The value has `k` digits before the point, so that `z = k - n`. -/
def Span.decimal? (s : Span) (k : Int) (n : Nat) : Option (Nat × Int) :=
  let z := k - n
  let (num, den) := tenPower z
  let unit := num * one
  let c := s.value * den / unit
  let farther := unit < 2 * (s.value * den - c * unit)
  let even := unit = 2 * (s.value * den - c * unit)
  match s.holds c z, s.holds (c + 1) z with
  | true, true => some (if farther || even then c + 1 else c, z)
  | true, false => some (c, z)
  | false, true => some (c + 1, z)
  | false, false => none

/-- How many zeros follow the point before the first other digit, for a value below one;
at most `most`. -/
def Span.zerosAfterPoint (s : Span) : (most : Nat) → Nat
  | 0 => 0
  | most + 1 =>
    if one ≤ s.value * 10 then 0
    else zerosAfterPoint { s with value := s.value * 10 } most + 1

/-- The number of digits before the point: none, or fewer than none, for a value below
one tenth. -/
def Span.digitsBeforePoint (s : Span) : Int :=
  if one ≤ s.value then (toString (s.value / one)).length
  else -(s.zerosAfterPoint 400)

/-- The digits of the shortest decimal, without zeros at the end, and the number of
digits before the point. Seventeen digits always suffice. -/
def shortest (x : Double) : List Char × Int :=
  let s := x.span
  let k := s.digitsBeforePoint
  match (List.range' 1 17).findSome? (s.decimal? k) with
  | none => (['0'], 1)
  | some (c, z) =>
    let digits := (toString c).toList
    ((digits.reverse.dropWhile (· = '0')).reverse, z + digits.length)

/-! ## Text -/

/-- From this many digits before the point on, an exponent is written. -/
def positionalEnd : Int := 17

/-- Below this many digits before the point an exponent is written: a value of one ten
thousandth has three zeros after the point. -/
def positionalStart : Int := -3

/-- Digits in their places, with at least one on either side of the point. -/
def positional (digits : List Char) (k : Int) : List Char :=
  if k ≤ 0 then
    '0' :: '.' :: List.replicate (-k).toNat '0' ++ digits
  else
    let whole := k.toNat
    let fraction := digits.drop whole
    digits.take whole ++ List.replicate (whole - digits.length) '0' ++ '.' ::
      (if fraction.isEmpty then ['0'] else fraction)

/-- The first digit, the others behind a point, and the power of ten. -/
def scientific (digits : List Char) (k : Int) : List Char :=
  let point := if digits.length > 1 then ['.'] else []
  digits.take 1 ++ point ++ digits.drop 1 ++ 'e' :: (toString (k - 1)).toList

/-- The text of a double. It always shows that it is one, by a point or an exponent. -/
def text (x : Double) : String :=
  let sign := if x.negative then "-" else ""
  if x.isNaN then "NaN"
  else if !x.isFinite then sign ++ "inf"
  else if x.parts.1 = 0 then sign ++ "0.0"
  else
    let (digits, k) := x.shortest
    let body :=
      if positionalStart ≤ k && k < positionalEnd then positional digits k
      else scientific digits k
    sign ++ String.ofList body

end TwinTable.Double
