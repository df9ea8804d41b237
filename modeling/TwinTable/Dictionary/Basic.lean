/-
The dictionary: two arrays of buckets, of which the second is in use only while entries
move over from the first.

Growing or shrinking a table of bindings all at once would make one unlucky insertion
pay for all of them. So a new size gets a second array, the *target*, and bindings
move from the *main* array to it bucket by bucket, in order. The *frontier* is the next
bucket to move: every bucket of the main array below it is empty. New bindings go to
the target while there is one. When the main array is empty the target takes its place.

A binding is therefore in one of at most two buckets, and its key is looked for in both.
A dictionary also counts the safe walks that are open on it; as long as there is one,
no binding changes its bucket.
-/
import TwinTable.Dictionary.Buckets
import TwinTable.Dictionary.Keying
import TwinTable.Notice

set_option autoImplicit false

namespace TwinTable

/-- The two arrays of a dictionary. -/
inductive Side where
  | main
  | target
deriving DecidableEq, Repr

/-- What a dictionary has to say to the outside, in order: what it did, and what became
of the caller's keys and objects. -/
structure Outbox (κ ν : Type) where
  notices : Array Notice
  custody : Array (Custody κ ν)

/-- Nothing to say. -/
def Outbox.empty {κ ν : Type} : Outbox κ ν := ⟨#[], #[]⟩

/-- A dictionary from keys in `κ` to objects in `ν` or numbers. -/
structure Dictionary (κ ν : Type) where
  /-- The array that holds everything while nothing moves. -/
  main : Buckets κ ν
  /-- The array that bindings move to; unallocated while nothing moves. -/
  target : Buckets κ ν
  /-- The next bucket of the main array to move. -/
  frontier : Option Nat
  /-- Safe walks that are open. -/
  walks : Nat
  /-- The handle of the next binding. -/
  nextId : Nat
  /-- The identity of the next array. -/
  nextArray : Nat
  /-- What was not yet collected from the outbox. -/
  outbox : Outbox κ ν

/-- Where a binding is. -/
structure Place where
  side : Side
  /-- The bucket. -/
  index : Nat
  /-- The handle of the binding. -/
  id : Nat
deriving DecidableEq, Repr

namespace Dictionary

variable {κ ν : Type}

/-- The dictionary without entries and without buckets. -/
def empty : Dictionary κ ν where
  main := .unallocated
  target := .unallocated
  frontier := none
  walks := 0
  nextId := 0
  nextArray := 1
  outbox := .empty

/-! ## What is in it -/

/-- One of the two arrays. -/
def side (d : Dictionary κ ν) : Side → Buckets κ ν
  | .main => d.main
  | .target => d.target

/-- The number of entries. -/
def size (d : Dictionary κ ν) : Nat := d.main.used + d.target.used

/-- Whether there is no entry. -/
def isEmpty (d : Dictionary κ ν) : Bool := d.size = 0

/-- The number of buckets. -/
def slots (d : Dictionary κ ν) : Nat := d.main.size + d.target.size

/-- Whether entries are on their way to the target. -/
def migrating (d : Dictionary κ ν) : Bool := d.frontier.isSome

/-- The array that new entries go to. -/
def receiving (d : Dictionary κ ν) : Side := if d.migrating then .target else .main

/-- Whether a bucket of the main array has moved already. -/
def hasMoved (d : Dictionary κ ν) (i : Nat) : Bool :=
  match d.frontier with
  | some next => i < next
  | none => false

/-- All entries, those of the main array first. -/
def toList (d : Dictionary κ ν) : List (Binding κ ν) := d.main.toList ++ d.target.toList

/-- The entry at a place. -/
def entry? (d : Dictionary κ ν) (p : Place) : Option (Binding κ ν) :=
  ((d.side p.side).chain p.index).find? (·.id = p.id)

/-! ## Looking a key up -/

/-- Looks for a key in the bucket of its hash in one of the arrays. -/
def lookupIn (r : Rules κ ν) (d : Dictionary κ ν) (s : Side) (k : κ) (hash : UInt64) :
    Option Place :=
  let i := (d.side s).index hash
  ((d.side s).find? i (r.keying.same k)).map fun b => ⟨s, i, b.id⟩

/-- Looks for a key in both arrays. A bucket that has moved is not looked into, nor is
the target while nothing moves. -/
def lookup (r : Rules κ ν) (d : Dictionary κ ν) (k : κ) (hash : UInt64) : Option Place :=
  let inMain := if d.hasMoved (d.main.index hash) then none else d.lookupIn r .main k hash
  match inMain with
  | some p => some p
  | none => if d.migrating then d.lookupIn r .target k hash else none

/-! ## The outbox -/

/-- Adds a notice. -/
def note (d : Dictionary κ ν) (n : Notice) : Dictionary κ ν :=
  { d with outbox := { d.outbox with notices := d.outbox.notices.push n } }

/-- Adds an event of custody. -/
def hand (d : Dictionary κ ν) (c : Custody κ ν) : Dictionary κ ν :=
  { d with outbox := { d.outbox with custody := d.outbox.custody.push c } }

/-- Adds events of custody. -/
def handAll (d : Dictionary κ ν) (cs : List (Custody κ ν)) : Dictionary κ ν :=
  cs.foldl hand d

/-- Collects what is in the outbox. -/
def collect (d : Dictionary κ ν) : Outbox κ ν × Dictionary κ ν :=
  (d.outbox, { d with outbox := .empty })

/-! What is put into the outbox changes nothing else. -/

@[simp] theorem side_note (d : Dictionary κ ν) (n : Notice) (s : Side) :
    (d.note n).side s = d.side s := by
  cases s <;> rfl

@[simp] theorem frontier_note (d : Dictionary κ ν) (n : Notice) :
    (d.note n).frontier = d.frontier := rfl

@[simp] theorem walks_note (d : Dictionary κ ν) (n : Notice) : (d.note n).walks = d.walks := rfl

@[simp] theorem side_hand (d : Dictionary κ ν) (c : Custody κ ν) (s : Side) :
    (d.hand c).side s = d.side s := by
  cases s <;> rfl

@[simp] theorem frontier_hand (d : Dictionary κ ν) (c : Custody κ ν) :
    (d.hand c).frontier = d.frontier := rfl

@[simp] theorem walks_hand (d : Dictionary κ ν) (c : Custody κ ν) :
    (d.hand c).walks = d.walks := rfl

@[simp] theorem handAll_nil (d : Dictionary κ ν) : d.handAll [] = d := rfl

@[simp] theorem handAll_cons (d : Dictionary κ ν) (c : Custody κ ν) (cs : List (Custody κ ν)) :
    d.handAll (c :: cs) = (d.hand c).handAll cs := rfl

/-! ## Changes at one place -/

/-- Changes one of the two arrays. -/
def modifySide (d : Dictionary κ ν) (s : Side) (f : Buckets κ ν → Buckets κ ν) :
    Dictionary κ ν :=
  match s with
  | .main => { d with main := f d.main }
  | .target => { d with target := f d.target }

/-- Stores a value in the entry at a place, as it is: nothing is copied and nothing is
freed. -/
def setAt (d : Dictionary κ ν) (p : Place) (f : Value ν → Value ν) : Dictionary κ ν :=
  d.modifySide p.side fun t => t.modifyValue p.index p.id f

end Dictionary

end TwinTable
