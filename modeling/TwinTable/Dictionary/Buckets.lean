/-
One array of buckets, each a chain of bindings.

An array is either unallocated, with no bucket at all, or its size is a power of two,
so that the low bits of a hash are a bucket number: `mask` has exactly those bits. New
bindings go to the head of their chain. The number of bindings is counted along, since
it decides about growth at every insertion.

The identity of an array tells it from every other array of its dictionary, past or
present; the unallocated array has the identity zero.
-/
import TwinTable.Dictionary.Binding

set_option autoImplicit false

namespace TwinTable

/-- An array of chains. -/
structure Buckets (κ ν : Type) where
  /-- Which array this is. -/
  identity : Nat
  /-- The chains, each from its head. -/
  chains : Array (List (Binding κ ν))
  /-- The number of bindings in all chains. -/
  used : Nat

namespace Buckets

variable {κ ν : Type}

/-- The fewest buckets that an allocated array has. -/
def leastSize : Nat := 4

/-- No array. -/
def unallocated : Buckets κ ν := ⟨0, #[], 0⟩

/-- An array of empty chains. -/
def allocate (identity size : Nat) : Buckets κ ν := ⟨identity, Array.replicate size [], 0⟩

/-- The number of buckets. -/
def size (t : Buckets κ ν) : Nat := t.chains.size

/-- Whether there is an array. -/
def isAllocated (t : Buckets κ ν) : Bool := t.size ≠ 0

/-- The bits of a hash that choose a bucket. -/
def mask (t : Buckets κ ν) : UInt64 := (t.size - 1).toUInt64

/-- The bucket of a hash. -/
def index (t : Buckets κ ν) (hash : UInt64) : Nat := (hash &&& t.mask).toNat

/-- The chain of a bucket; empty where there is no such bucket. -/
def chain (t : Buckets κ ν) (i : Nat) : List (Binding κ ν) := t.chains.getD i []

/-- Puts a binding at the head of a chain. -/
def push (t : Buckets κ ν) (i : Nat) (b : Binding κ ν) : Buckets κ ν :=
  { t with chains := t.chains.modify i (b :: ·), used := t.used + 1 }

/-- The first binding of a chain whose key passes the test. -/
def find? (t : Buckets κ ν) (i : Nat) (test : κ → Bool) : Option (Binding κ ν) :=
  (t.chain i).find? fun b => test b.key

/-- Takes the binding with a given handle, which has to be there, out of its chain. -/
def erase (t : Buckets κ ν) (i id : Nat) : Buckets κ ν :=
  { t with chains := t.chains.modify i (·.eraseP fun b => b.id = id), used := t.used - 1 }

/-- Empties a bucket. -/
def clearBucket (t : Buckets κ ν) (i : Nat) : Buckets κ ν :=
  let leaving := (t.chain i).length
  { t with chains := t.chains.modify i (fun _ => []), used := t.used - leaving }

/-- Changes the value of the binding with a given handle in a chain. -/
def modifyValue (t : Buckets κ ν) (i id : Nat) (f : Value ν → Value ν) : Buckets κ ν :=
  { t with
    chains := t.chains.modify i
      (·.map fun b => if b.id = id then { b with value := f b.value } else b) }

/-- All bindings, by ascending bucket and each chain from its head. -/
def toList (t : Buckets κ ν) : List (Binding κ ν) := t.chains.toList.flatten

/-- The least power of two from `p` on that is at least `size`, looked for among `p`
and its next doublings. -/
def doubleUntil (size : Nat) : (doublings p : Nat) → Nat
  | 0, p => p
  | doublings + 1, p => if size ≤ p then p else doubleUntil size doublings (2 * p)

/-- The size of the array that is made for `size` entries: the least power of two that
is neither below `size` nor below `leastSize`, or 2^63 where that would need more
than sixty-four bits. -/
def sizeFor (size : Nat) : Nat :=
  doubleUntil size 61 leastSize

/-! ## What the operations do to the view

The view of an array is `chain`, a list for each bucket number. No operation on an
allocated array changes its size, and each changes the chain of one bucket. -/

@[simp] theorem size_unallocated : (unallocated : Buckets κ ν).size = 0 := rfl

@[simp] theorem chain_unallocated (i : Nat) : (unallocated : Buckets κ ν).chain i = [] := rfl

@[simp] theorem size_allocate (identity size : Nat) :
    (allocate identity size : Buckets κ ν).size = size := by
  simp [allocate, Buckets.size]

@[simp] theorem chain_allocate (identity size i : Nat) :
    (allocate identity size : Buckets κ ν).chain i = [] := by
  simp only [allocate, chain, Array.getD_eq_getD_getElem?, Array.getElem?_replicate]
  split <;> rfl

@[simp] theorem size_push (t : Buckets κ ν) (i : Nat) (b : Binding κ ν) :
    (t.push i b).size = t.size := by
  simp [push, size]

@[simp] theorem size_erase (t : Buckets κ ν) (i id : Nat) : (t.erase i id).size = t.size := by
  simp [erase, size]

@[simp] theorem size_clearBucket (t : Buckets κ ν) (i : Nat) :
    (t.clearBucket i).size = t.size := by
  simp [clearBucket, size]

@[simp] theorem size_modifyValue (t : Buckets κ ν) (i id : Nat) (f : Value ν → Value ν) :
    (t.modifyValue i id f).size = t.size := by
  simp [modifyValue, size]

/-- Changing one chain, as every operation does, leaves the others alone. There is
nothing to change past the end. -/
theorem getD_modify (chains : Array (List (Binding κ ν))) (i j : Nat)
    (f : List (Binding κ ν) → List (Binding κ ν)) :
    (chains.modify i f).getD j [] =
      if i = j ∧ i < chains.size then f (chains.getD i []) else chains.getD j [] := by
  simp only [Array.getD_eq_getD_getElem?, Array.getElem?_modify]
  by_cases h : i = j
  · subst h
    by_cases hi : i < chains.size <;> simp [hi]
  · simp [h]

theorem chain_push (t : Buckets κ ν) (i j : Nat) (b : Binding κ ν) :
    (t.push i b).chain j = if i = j ∧ i < t.size then b :: t.chain i else t.chain j :=
  getD_modify t.chains i j (b :: ·)

theorem chain_erase (t : Buckets κ ν) (i id j : Nat) :
    (t.erase i id).chain j =
      if i = j ∧ i < t.size then (t.chain i).eraseP (fun b => b.id = id) else t.chain j :=
  getD_modify t.chains i j _

theorem chain_clearBucket (t : Buckets κ ν) (i j : Nat) :
    (t.clearBucket i).chain j = if i = j ∧ i < t.size then [] else t.chain j :=
  getD_modify t.chains i j _

end Buckets

end TwinTable
