/-
Where a service listens: an internet address with a port, as text.

`a.b.c.d:port` is an address of four octets, `[groups]:port` one of eight groups of
sixteen bits. In the second form `::` stands once for one or more groups of zeros,
the last two groups may be written as four octets, and `%n` after the groups names a
scope. Octets have no leading zeros, a group has at most four hexadecimal digits,
and a port or a scope any number of digits as long as its value fits.

Reading takes the longest row of digits wherever it expects a number, so a number
with a digit too many is refused and not split. Writing is canonical: the first of the
longest runs of zero groups is shortened, in lower case, and an address that embeds
one of four octets is written with them.
-/
set_option autoImplicit false

namespace TwinTable.Service

/-- The machine part of an endpoint. -/
inductive Host where
  /-- Four octets. -/
  | octets (a b c d : UInt8)
  /-- Eight groups of sixteen bits, and the scope they are valid in, zero for none. -/
  | groups (parts : Vector UInt16 8) (scope : UInt32)
deriving DecidableEq

/-- A machine and a port on it. -/
structure Endpoint where
  host : Host
  port : UInt16
deriving DecidableEq

/-! ## Reading

A reader takes what it wants off the front and returns the rest; a refusal takes
nothing. -/

namespace Endpoint

/-- What reading an `α` from the front of some characters gives. -/
abbrev Reader (α : Type) := List Char → Option (α × List Char)

/-- Reads exactly one given character. -/
def mark (c : Char) : Reader Unit
  | [] => none
  | d :: rest => if d = c then some ((), rest) else none

/-- The value of a hexadecimal digit of either case, if it is below the radix. -/
def digit? (radix : Nat) (c : Char) : Option Nat :=
  let value :=
    if '0' ≤ c && c ≤ '9' then c.toNat - 48
    else if 'a' ≤ c && c ≤ 'f' then c.toNat - 87
    else if 'A' ≤ c && c ≤ 'F' then c.toNat - 55
    else radix
  if value < radix then some value else none

/-- Splits off the longest row of digits. -/
def digits (radix : Nat) : List Char → List Nat × List Char
  | [] => ([], [])
  | c :: rest =>
    match digit? radix c with
    | none => ([], c :: rest)
    | some d =>
      let (ds, rest) := digits radix rest
      (d :: ds, rest)

/-- How a number may be written. -/
structure NumberForm where
  radix : Nat
  /-- The most digits allowed, if there is a limit. -/
  mostDigits : Option Nat
  /-- Whether a zero may stand before other digits. -/
  leadingZeros : Bool
  /-- The greatest value allowed. -/
  bound : Nat

/-- Octets are decimal, at most 255, without leading zeros. -/
def octetForm : NumberForm := ⟨10, some 3, false, 255⟩

/-- Groups have one to four hexadecimal digits. -/
def groupForm : NumberForm := ⟨16, some 4, true, 0xffff⟩

/-- Ports are decimal and fit in sixteen bits. -/
def portForm : NumberForm := ⟨10, none, true, 0xffff⟩

/-- Scopes are decimal and fit in thirty-two bits. -/
def scopeForm : NumberForm := ⟨10, none, true, 0xffffffff⟩

/-- Reads the longest row of digits as a number of the given form. -/
def number (form : NumberForm) : Reader Nat := fun cs =>
  let (ds, rest) := digits form.radix cs
  let value := ds.foldl (fun acc d => acc * form.radix + d) 0
  let tooLong := match form.mostDigits with
    | some most => most < ds.length
    | none => false
  let padded := ds.length > 1 && ds.head? = some 0
  if ds.isEmpty || tooLong || (padded && !form.leadingZeros) || form.bound < value then
    none
  else
    some (value, rest)

/-- Reads four octets with dots between them. -/
def octets : Reader (UInt8 × UInt8 × UInt8 × UInt8) := fun cs => do
  let (a, cs) ← number octetForm cs
  let ((), cs) ← mark '.' cs
  let (b, cs) ← number octetForm cs
  let ((), cs) ← mark '.' cs
  let (c, cs) ← number octetForm cs
  let ((), cs) ← mark '.' cs
  let (d, cs) ← number octetForm cs
  return ((a.toUInt8, b.toUInt8, c.toUInt8, d.toUInt8), cs)

/-- Reads one thing, behind a colon unless it is the first of its row. -/
def inRow {α : Type} (first : Bool) (read : Reader α) : Reader α := fun cs =>
  if first then
    read cs
  else
    match mark ':' cs with
    | some ((), rest) => read rest
    | none => none

/-- The two groups that four octets fill. -/
def pairGroups : UInt8 × UInt8 × UInt8 × UInt8 → List UInt16
  | (a, b, c, d) => [a.toUInt16 * 256 + b.toUInt16, c.toUInt16 * 256 + d.toUInt16]

/-- Reads a row of groups, at most `room` of them, as many as there are. Four octets
may end the row where there is room for two groups; the flag says that they did. -/
def groupRow : (room : Nat) → (first : Bool) → List Char → List UInt16 × Bool × List Char
  | 0, _, cs => ([], false, cs)
  | room + 1, first, cs =>
    match (if room = 0 then none else inRow first octets cs) with
    | some (embedded, rest) => (pairGroups embedded, true, rest)
    | none =>
      match inRow first (number groupForm) cs with
      | some (g, rest) =>
        let (gs, embedded, rest) := groupRow room false rest
        (g.toUInt16 :: gs, embedded, rest)
      | none => ([], false, cs)

/-- Eight groups: those of `front`, zeros, and those of `back` at the end. -/
def fillGroups (front back : List UInt16) : Vector UInt16 8 :=
  Vector.ofFn fun i =>
    if i.val < front.length then front.getD i.val 0
    else if 8 ≤ i.val + back.length then back.getD (i.val + back.length - 8) 0
    else 0

/-- Reads eight groups, where `::` may stand once for at least one group of zeros.
Octets may end the whole, but nothing may follow them. -/
def eightGroups : Reader (Vector UInt16 8) := fun cs =>
  match groupRow 8 true cs with
  | (front, embedded, cs) =>
    if front.length = 8 then
      some (fillGroups front [], cs)
    else if embedded then
      none
    else do
      let ((), cs) ← mark ':' cs
      let ((), cs) ← mark ':' cs
      let (back, _, cs) := groupRow (7 - front.length) true cs
      return (fillGroups front back, cs)

/-- Reads a colon and a port. -/
def portPart : Reader UInt16 := fun cs => do
  let ((), cs) ← mark ':' cs
  let (p, cs) ← number portForm cs
  return (p.toUInt16, cs)

/-- Reads a percent sign and a scope, or nothing, which is the scope zero. -/
def scopePart (cs : List Char) : UInt32 × List Char :=
  match mark '%' cs with
  | some ((), rest) =>
    match number scopeForm rest with
    | some (s, rest) => (s.toUInt32, rest)
    | none => (0, cs)
  | none => (0, cs)

/-- Reads `a.b.c.d:port`. -/
def octetEndpoint : Reader Endpoint := fun cs => do
  let ((a, b, c, d), cs) ← octets cs
  let (port, cs) ← portPart cs
  return (⟨.octets a b c d, port⟩, cs)

/-- Reads `[groups]:port` or `[groups%scope]:port`. -/
def groupEndpoint : Reader Endpoint := fun cs => do
  let ((), cs) ← mark '[' cs
  let (parts, cs) ← eightGroups cs
  let (scope, cs) := scopePart cs
  let ((), cs) ← mark ']' cs
  let (port, cs) ← portPart cs
  return (⟨.groups parts scope, port⟩, cs)

/-- The endpoint that the whole of a text writes. -/
def read? (s : String) : Option Endpoint :=
  match (octetEndpoint s.toList).or (groupEndpoint s.toList) with
  | some (e, []) => some e
  | _ => none

end Endpoint

/-! ## Writing -/

namespace Host

/-- A group in hexadecimal, without leading zeros. -/
def groupText (g : UInt16) : String :=
  String.ofList (Nat.toDigits 16 g.toNat)

/-- Groups with colons between them. -/
def rowText (gs : List UInt16) : String :=
  ":".intercalate (gs.map groupText)

/-- Four octets with dots between them. -/
def octetText (a b c d : UInt8) : String :=
  ".".intercalate ([a, b, c, d].map fun x => toString x.toNat)

/-- The length of the run of zeros that a list begins with. -/
def zeroRun (gs : List UInt16) : Nat :=
  (gs.takeWhile (· == 0)).length

/-- Where the first of the longest runs of zeros starts, and its length. -/
def longestRun : (start : Nat) → List UInt16 → Nat × Nat
  | start, [] => (start, 0)
  | start, g :: rest =>
    let later := longestRun (start + 1) rest
    if later.2 ≤ zeroRun (g :: rest) then (start, zeroRun (g :: rest)) else later

/-- The text of eight groups. -/
def groupsText (parts : Vector UInt16 8) : String :=
  match parts.toList with
  | [0, 0, 0, 0, 0, 0xffff, x, y] =>
    "::ffff:" ++ octetText (x / 256).toUInt8 x.toUInt8 (y / 256).toUInt8 y.toUInt8
  | gs =>
    let (start, len) := longestRun 0 gs
    if len > 1 then
      rowText (gs.take start) ++ "::" ++ rowText (gs.drop (start + len))
    else
      rowText gs

/-- The text of a host, without its scope. -/
def text : Host → String
  | .octets a b c d => octetText a b c d
  | .groups parts _ => groupsText parts

end Host

/-- The text of an endpoint; a scope is written unless it is zero. -/
def Endpoint.text (e : Endpoint) : String :=
  match e.host with
  | .octets .. => s!"{e.host.text}:{e.port.toNat}"
  | .groups _ scope =>
    if scope = 0 then s!"[{e.host.text}]:{e.port.toNat}"
    else s!"[{e.host.text}%{scope.toNat}]:{e.port.toNat}"

end TwinTable.Service
