/-
Why a dictionary refuses something.
-/
set_option autoImplicit false

namespace TwinTable

/-- The reasons for which a dictionary refuses an operation. -/
inductive Fault where
  /-- The key to be added is there already. -/
  | keyExists
  /-- The key to be deleted is not there. -/
  | keyNotFound
  /-- A table of this size could not hold the entries, or is there already. -/
  | invalidSize (size used : Nat)
  /-- Resizing is switched off. The same size may be accepted once it is on again, which
  is why this is not `invalidSize`. -/
  | resizeDisabled
  /-- Entries are still on their way to another table. -/
  | migrating
  /-- The dictionary changed under a walk that does not allow it. -/
  | changedUnderWalk (expected found : UInt64)
deriving DecidableEq, Repr

/-- A word in hexadecimal, without leading zeros, behind `0x`. -/
def hexWord (w : UInt64) : String :=
  "0x" ++ String.ofList (Nat.toDigits 16 w.toNat)

/-- The sentence that describes the reason. -/
def Fault.message : Fault → String
  | .keyExists => "key already exists"
  | .keyNotFound => "key not found"
  | .invalidSize size used => s!"invalid table size {size} for {used} entries"
  | .resizeDisabled => "resizing is disabled"
  | .migrating => "rehash already in progress"
  | .changedUnderWalk expected found =>
    s!"unsafe iterator fingerprint mismatch (expected {hexWord expected}, found {hexWord found})"
      ++ ": dict mutated during unsafe iteration"

end TwinTable
