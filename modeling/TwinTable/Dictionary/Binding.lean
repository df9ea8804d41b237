/-
What a dictionary stores: a key bound to a value.

A value is either an object of the caller's type or one of three kinds of number kept
inline. Only objects belong to the dictionary in the sense that it copies them when
they come in and frees them when they go; see `Custody`.

Every binding carries a handle that no other binding of the same dictionary ever had
or will have. A walk that remembers a handle can therefore tell whether the binding
it meant to visit next is still there, whatever happened in between.
-/
import TwinTable.Number.Double

set_option autoImplicit false

namespace TwinTable

/-- The value of a binding. -/
inductive Value (ν : Type) where
  | object (v : ν)
  | signed (n : Int64)
  | unsigned (n : UInt64)
  | double (x : Double)
deriving DecidableEq

namespace Value

variable {ν : Type}

/-- What a binding holds before anything was stored in it. -/
def blank : Value ν := .unsigned 0

/-- The object, if it is one. -/
def object? : Value ν → Option ν
  | .object v => some v
  | _ => none

/-- The signed number, if it is one. -/
def signed? : Value ν → Option Int64
  | .signed n => some n
  | _ => none

/-- The unsigned number, if it is one. -/
def unsigned? : Value ν → Option UInt64
  | .unsigned n => some n
  | _ => none

/-- The double-precision number, if it is one. -/
def double? : Value ν → Option Double
  | .double x => some x
  | _ => none

/-- Changes the object in place; a number stays as it is. -/
def mapObject (f : ν → ν) : Value ν → Value ν
  | .object v => .object (f v)
  | other => other

end Value

/-- A key, the value bound to it, and the handle of the two. -/
structure Binding (κ ν : Type) where
  /-- The handle. -/
  id : Nat
  key : κ
  value : Value ν
deriving DecidableEq

/-- What happens to the caller's objects: a dictionary copies keys and object values
when it takes them in, and frees them when it lets them go. -/
inductive Custody (κ ν : Type) where
  | keyCopied (k : κ)
  | valueCopied (v : ν)
  | keyFreed (k : κ)
  | valueFreed (v : ν)
deriving DecidableEq

/-- The events of freeing a value: one for an object, none for a number. -/
def Value.freed {κ ν : Type} : Value ν → List (Custody κ ν)
  | .object v => [.valueFreed v]
  | _ => []

/-- The events of freeing a binding: its key, then its value. -/
def Binding.freed {κ ν : Type} (b : Binding κ ν) : List (Custody κ ν) :=
  .keyFreed b.key :: b.value.freed

end TwinTable
