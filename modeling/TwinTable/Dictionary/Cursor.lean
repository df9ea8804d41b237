/-
Cursors: visiting every bucket over many calls, although the number of buckets may
change between them.

A cursor counts through the buckets with its bits reversed: the highest bit of the
mask is incremented first. A bucket of a small array and the buckets of a larger one
that share its low bits are then visited next to each other, so a cursor that was made
for one size still means something for another: what was covered, read with its bits
reversed, is everything below the cursor.

While entries move between two arrays, one call covers a bucket of the smaller array
and all those of the larger one that share its low bits.
-/
import TwinTable.Dictionary.Basic

set_option autoImplicit false

namespace TwinTable

namespace Cursor

/-- Moves the lowest `n` bits of `v`, lowest first, to the low end of `acc`. -/
def reverseInto : (n : Nat) → (v acc : UInt64) → UInt64
  | 0, _, acc => acc
  | n + 1, v, acc => reverseInto n (v >>> 1) (acc <<< 1 ||| (v &&& 1))

/-- The word with its sixty-four bits in the opposite order. -/
def reverse (v : UInt64) : UInt64 := reverseInto 64 v 0

/-- Adds one to the bits of `v` under the mask, in reversed order. From zero on this runs
through every bucket once and ends at zero. -/
def advance (v mask : UInt64) : UInt64 :=
  reverse (reverse (v ||| ~~~mask) + 1)

/-- A bucket of one of the arrays. -/
abbrev Bucket := Side × Nat

/-- What one call works against: one array, or two of which the first is not larger. -/
inductive Layout where
  | single (mask : UInt64)
  | double (small : Side) (smallMask : UInt64) (large : Side) (largeMask : UInt64)
deriving DecidableEq, Repr

/-- The buckets of the large array from a cursor on that share its bits under the small
mask, and the cursor behind them; at most `room` of them. Those in `before` come first,
the latest at the head. -/
def coverLarge (large : Side) (smallMask largeMask : UInt64) :
    (room : Nat) → (before : List Bucket) → UInt64 → List Bucket × UInt64
  | 0, before, v => (before.reverse, v)
  | room + 1, before, v =>
    let before := (large, (v &&& largeMask).toNat) :: before
    let v := advance v largeMask
    if v &&& (smallMask ^^^ largeMask) = 0 then (before.reverse, v)
    else coverLarge large smallMask largeMask room before v

/-- The buckets that a cursor covers, in order, and the next cursor. The large array has
`largeMask + 1` buckets, so there is room for all of them. -/
def Layout.cover (l : Layout) (v : UInt64) : List Bucket × UInt64 :=
  match l with
  | .single mask => ([(.main, (v &&& mask).toNat)], advance v mask)
  | .double small smallMask large largeMask =>
    coverLarge large smallMask largeMask (largeMask.toNat + 1)
      [(small, (v &&& smallMask).toNat)] v

end Cursor

namespace Dictionary

variable {κ ν : Type}

open Cursor

/-- What a call with a cursor works against; nothing if there are no entries. -/
def layout? (d : Dictionary κ ν) : Option Layout :=
  if d.isEmpty then none
  else if !d.migrating then some (.single d.main.mask)
  else if d.main.size ≤ d.target.size then some (.double .main d.main.mask .target d.target.mask)
  else some (.double .target d.target.mask .main d.main.mask)

/-- The chain of a bucket. -/
def chainAt (d : Dictionary κ ν) (b : Bucket) : List (Binding κ ν) := (d.side b.1).chain b.2

/-- The buckets under a cursor, and the next cursor. Zero begins a scan, and zero as the
next cursor ends it. -/
def cover (d : Dictionary κ ν) (cursor : UInt64) : List Bucket × UInt64 :=
  match d.layout? with
  | none => ([], 0)
  | some l => l.cover cursor

/-- The entries under a cursor, and the next cursor. -/
def scan (d : Dictionary κ ν) (cursor : UInt64) : List (Binding κ ν) × UInt64 :=
  let (buckets, next) := d.cover cursor
  (buckets.flatMap d.chainAt, next)

/-- Scans on from a cursor until the next cursor is zero, at most `most` times. Returned
are the entries of each call; those in `before` come first, the latest at the head. -/
def scanFrom (d : Dictionary κ ν) :
    (most : Nat) → (before : List (List (Binding κ ν))) → UInt64 → List (List (Binding κ ν))
  | 0, before, _ => before.reverse
  | most + 1, before, cursor =>
    match d.scan cursor with
    | (entries, 0) => (entries :: before).reverse
    | (entries, next) => scanFrom d most (entries :: before) next

/-- A whole scan: the entries of each call. No scan of an unchanged dictionary makes more
calls than there are buckets. -/
def scanAll (d : Dictionary κ ν) : List (List (Binding κ ν)) :=
  d.scanFrom (d.slots + 1) [] 0

/-! ## Revising values on the way -/

/-- Revises the values of a chain from its head, passing a state along. -/
def reviseChain {σ : Type} (f : σ → κ → Value ν → Value ν × σ) :
    σ → List (Binding κ ν) → List (Binding κ ν) × σ
  | s, [] => ([], s)
  | s, b :: rest =>
    let (value, s) := f s b.key b.value
    let (rest, s) := reviseChain f s rest
    ({ b with value := value } :: rest, s)

/-- Revises the values of the buckets given, in order. Returned are the chains as they
are then, the last state and the dictionary; the chains in `before` come first, the
latest at the head. -/
def reviseBuckets {σ : Type} (f : σ → κ → Value ν → Value ν × σ) :
    (before : List (List (Binding κ ν))) → List Bucket → σ → Dictionary κ ν →
      List (List (Binding κ ν)) × σ × Dictionary κ ν
  | before, [], s, d => (before.reverse, s, d)
  | before, b :: rest, s, d =>
    let (chain, s) := reviseChain f s (d.chainAt b)
    let d := d.modifySide b.1 fun t => { t with chains := t.chains.modify b.2 fun _ => chain }
    reviseBuckets f (chain :: before) rest s d

/-- What a revising scan saw. -/
structure Revision (κ ν σ : Type) where
  /-- The buckets in the order in which they were covered, each as it was left. -/
  chains : List (List (Binding κ ν))
  /-- The next cursor. -/
  next : UInt64
  /-- What the revising function passed along. -/
  state : σ

/-- Scans as `scan` does, but first revises the values of each bucket. -/
def scanRevising {σ : Type} (f : σ → κ → Value ν → Value ν × σ) (s : σ)
    (d : Dictionary κ ν) (cursor : UInt64) : Revision κ ν σ × Dictionary κ ν :=
  let (buckets, next) := d.cover cursor
  let (chains, s, d) := reviseBuckets f [] buckets s d
  (⟨chains, next, s⟩, d)

end Dictionary

end TwinTable
