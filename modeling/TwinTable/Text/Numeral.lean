/-
Reading natural numbers: ASCII digits after at most one plus sign, up to a bound.

Leading zeros are allowed. An empty text, a lone sign, any other character and a
value above the bound are refused.
-/
set_option autoImplicit false

namespace TwinTable.Text.Numeral

/-- The value of one ASCII digit. -/
def digit? (c : Char) : Option Nat :=
  if '0' ≤ c && c ≤ '9' then some (c.toNat - 48) else none

/-- The value of a row of digits, the highest first; `acc` is that of the digits before. -/
def valueFrom (acc : Nat) : List Char → Option Nat
  | [] => some acc
  | c :: rest =>
    match digit? c with
    | some d => valueFrom (10 * acc + d) rest
    | none => none

/-- The value of a non-empty row of digits. -/
def digits? : List Char → Option Nat
  | [] => none
  | c :: rest => valueFrom 0 (c :: rest)

/-- The number that a text writes, if it is at most `bound`. -/
def read? (bound : Nat) (s : String) : Option Nat :=
  let unsigned :=
    match s.toList with
    | '+' :: rest => rest
    | all => all
  match digits? unsigned with
  | some n => if n ≤ bound then some n else none
  | none => none

/-- The largest number of 32 bits. -/
def max32 : Nat := UInt32.size - 1

/-- The largest number of 64 bits. -/
def max64 : Nat := UInt64.size - 1

end TwinTable.Text.Numeral
