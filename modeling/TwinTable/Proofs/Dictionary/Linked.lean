/-
The dictionary with its links laid open.

A chain is a list everywhere else. Below that, the entries of both arrays lie in one
*slab*, each under its handle; a bucket holds the handle of the first entry of its chain,
and every entry the handle of the next. This file says the operations once more on that
level, link by link, with everything that can go wrong there: a bucket past the end of its
array, a handle that nothing lives under, a count that is taken down from zero, a chain
that leads back into itself. Each of them gives `none`.

`Represents` ties the two levels together. That the operations here never give `none`, and
do link by link what the operations on lists do at once, is shown in the files after this
one; what they establish about the links is `Linked.Invariant`.

Only what an operation does to the arrays and the entries is said here. What it answers is
read off the chains, and they are the same on both levels. What has the name of something on
lists is the same thing on links, and is not explained again.
-/
import TwinTable.Proofs.Dictionary.Filing

set_option autoImplicit false

namespace TwinTable

/-! ## The slab -/

/-- An entry in the slab. -/
structure Cell (κ ν : Type) where
  key : κ
  value : Value ν
  /-- The handle of the entry that follows in its chain. -/
  next : Option Nat

/-- The entries that are alive, by their handles. -/
abbrev Slab (κ ν : Type) := Nat → Option (Cell κ ν)

/-- Takes a count down by one, which must not be zero. -/
def countDown : Nat → Option Nat
  | 0 => none
  | n + 1 => some n

namespace Slab

variable {κ ν : Type}

/-- Makes an entry that has to be alive lead to another one. -/
def link (slab : Slab κ ν) (id : Nat) (next : Option Nat) : Option (Slab κ ν) :=
  (slab id).map fun cell => Function.update slab id (some { cell with next := next })

/-- Revises the value of an entry that has to be alive. -/
def write (slab : Slab κ ν) (id : Nat) (f : Value ν → Value ν) : Option (Slab κ ν) :=
  (slab id).map fun cell => Function.update slab id (some { cell with value := f cell.value })

/-- Follows the links to the first entry whose key passes the test. A link that leads to
nothing alive ends the search; one that takes more than `fuel` steps fails. -/
def search (slab : Slab κ ν) (test : κ → Bool) : (fuel : Nat) → Option Nat → Option (Option Nat)
  | _, none => some none
  | 0, some _ => none
  | fuel + 1, some id =>
    match slab id with
    | none => some none
    | some cell => if test cell.key then some (some id) else search slab test fuel cell.next

/-- Follows the links and collects the entries. A link that leads to nothing alive is the end
of them. -/
def gather (slab : Slab κ ν) : (fuel : Nat) → Option Nat → Option (List (Binding κ ν))
  | _, none => some []
  | 0, some _ => none
  | fuel + 1, some id =>
    match slab id with
    | none => some []
    | some cell => (gather slab fuel cell.next).map (⟨id, cell.key, cell.value⟩ :: ·)

/-- Follows the links and revises the value of every entry, passing a state along. -/
def reviseFrom {τ : Type} (f : τ → κ → Value ν → Value ν × τ) :
    (fuel : Nat) → Option Nat → τ → Slab κ ν → Option (τ × Slab κ ν)
  | _, none, s, slab => some (s, slab)
  | 0, some _, _, _ => none
  | fuel + 1, some id, s, slab =>
    match slab id with
    | none => some (s, slab)
    | some cell =>
      let (value, s) := f s cell.key cell.value
      reviseFrom f fuel cell.next s (Function.update slab id (some { cell with value := value }))

/-- Follows the links and removes every entry, counting down what remains in the array. -/
def removeFrom : (fuel : Nat) → Option Nat → (remaining : Nat) → Slab κ ν →
    Option (Nat × Slab κ ν)
  | _, none, remaining, slab => some (remaining, slab)
  | 0, some _, _, _ => none
  | fuel + 1, some id, remaining, slab =>
    match slab id with
    | none => some (remaining, slab)
    | some cell => do
      let remaining ← countDown remaining
      removeFrom fuel cell.next remaining (Function.update slab id none)

/-- Removes chain after chain until nothing remains in the array. -/
def removeAll (fuel : Nat) : (heads : List (Option Nat)) → (remaining : Nat) → Slab κ ν →
    Option (Slab κ ν)
  | [], _, slab => some slab
  | head :: heads, remaining, slab =>
    if remaining = 0 then
      some slab
    else do
      let (remaining, slab) ← removeFrom fuel head remaining slab
      removeAll fuel heads remaining slab

end Slab

/-! ## Arrays of heads -/

/-- One array of buckets: the handles at which the chains begin. -/
structure Heads where
  buckets : Array (Option Nat)
  /-- The number of entries in all chains. -/
  used : Nat
  /-- The bits of a hash that choose a bucket. -/
  mask : UInt64

namespace Heads

variable {κ ν : Type}

def unallocated : Heads := ⟨#[], 0, 0⟩

def allocate (size : Nat) : Heads := ⟨Array.replicate size none, 0, (size - 1).toUInt64⟩

def size (t : Heads) : Nat := t.buckets.size

def index (t : Heads) (hash : UInt64) : Nat := (hash &&& t.mask).toNat

/-- Where a chain begins; nowhere if there is no such bucket. -/
def head (t : Heads) (i : Nat) : Option Nat := t.buckets.getD i none

/-- Lets the chain of a bucket, which must exist, begin elsewhere. -/
def setHead (t : Heads) (i : Nat) (head : Option Nat) : Option Heads :=
  (t.buckets[i]?).map fun _ => { t with buckets := t.buckets.setIfInBounds i head }

/-- Links an entry in front of a chain. -/
def pushFront (t : Heads) (slab : Slab κ ν) (i id : Nat) : Option (Heads × Slab κ ν) := do
  let first ← t.buckets[i]?
  let slab ← Slab.link slab id first
  let t ← t.setHead i (some id)
  return ({ t with used := t.used + 1 }, slab)

/-- Makes what led to an entry lead past it: the entry before, or else the bucket. -/
def bridge (t : Heads) (slab : Slab κ ν) (i : Nat) (before next : Option Nat) :
    Option (Heads × Slab κ ν) :=
  match before with
  | none => (t.setHead i next).map fun t => (t, slab)
  | some id => (Slab.link slab id next).map fun slab => (t, slab)

/-- Follows the links of a chain and takes the first entry out whose key passes the test.
The entry stays alive. -/
def unlinkFrom (t : Heads) (slab : Slab κ ν) (i : Nat) (test : κ → Bool) :
    (fuel : Nat) → (before current : Option Nat) → Option (Option Nat × Heads × Slab κ ν)
  | _, _, none => some (none, t, slab)
  | 0, _, some _ => none
  | fuel + 1, before, some id => do
    let cell ← slab id
    if test cell.key then
      let (t, slab) ← t.bridge slab i before cell.next
      let used ← countDown t.used
      return (some id, { t with used := used }, slab)
    else
      unlinkFrom t slab i test fuel (some id) cell.next

/-- Passes empty buckets, as many as the allowance permits. Returned are the bucket that was
reached and what is left of the allowance, zero if it ran out. There has to be a bucket
wherever this looks, and an allowance to begin with. -/
def passEmpty (t : Heads) : (allowance next : Nat) → Option (Nat × Nat)
  | 0, _ => none
  | allowance + 1, next =>
    match t.buckets[next]? with
    | none => none
    | some (some _) => some (next, allowance + 1)
    | some none =>
      if allowance = 0 then some (next + 1, 0) else passEmpty t allowance (next + 1)

end Heads

/-! ## Moving -/

/-- Entries on their way from one array to the other. -/
structure Transit (κ ν : Type) where
  slab : Slab κ ν
  source : Heads
  target : Heads
  /-- The next bucket to move. -/
  next : Nat

namespace Transit

variable {κ ν : Type}

/-- Follows the links of a chain that no bucket holds any more, and links each entry in
front of its chain in the target. -/
def moveFrom (hash : κ → UInt64) : (fuel : Nat) → Option Nat → Transit κ ν → Option (Transit κ ν)
  | _, none, p => some p
  | 0, some _, _ => none
  | fuel + 1, some id, p => do
    let cell ← p.slab id
    let (target, slab) ← p.target.pushFront p.slab (p.target.index (hash cell.key)) id
    let used ← countDown p.source.used
    moveFrom hash fuel cell.next ⟨slab, { p.source with used := used }, target, p.next⟩

/-- Moves the next bucket, which must exist. -/
def moveBucket (hash : κ → UInt64) (fuel : Nat) (p : Transit κ ν) : Option (Transit κ ν) := do
  let first ← p.source.buckets[p.next]?
  let source ← p.source.setHead p.next none
  let p ← moveFrom hash fuel first { p with source := source }
  return { p with next := p.next + 1 }

/-- Moves up to `n` buckets, passing at most `allowance` empty ones. -/
def run (hash : κ → UInt64) (fuel : Nat) : (n allowance : Nat) → Transit κ ν → Option (Transit κ ν)
  | 0, _, p => some p
  | n + 1, allowance, p =>
    if p.source.used = 0 then
      some p
    else
      match p.source.passEmpty allowance p.next with
      | none => none
      | some (next, 0) => some { p with next := next }
      | some (next, left + 1) =>
        (moveBucket hash fuel { p with next := next }).bind (run hash fuel n (left + 1))

end Transit

/-! ## The dictionary -/

/-- A dictionary with its links. -/
structure Linked (κ ν : Type) where
  slab : Slab κ ν
  main : Heads
  target : Heads
  /-- The next bucket of the main array to move. -/
  frontier : Option Nat
  /-- Safe walks that are open. -/
  walks : Nat
  /-- How many handles were ever given away; the next one is this number. -/
  issued : Nat
  settings : Settings

namespace Linked

variable {κ ν : Type}

def start (settings : Settings) : Linked κ ν :=
  ⟨fun _ => none, .unallocated, .unallocated, none, 0, 0, settings⟩

def side (l : Linked κ ν) : Side → Heads
  | .main => l.main
  | .target => l.target

/-- Puts an array in the place of one of the two, together with a slab. -/
def withSide (l : Linked κ ν) (s : Side) (t : Heads) (slab : Slab κ ν) : Linked κ ν :=
  match s with
  | .main => { l with main := t, slab := slab }
  | .target => { l with target := t, slab := slab }

def isEmpty (l : Linked κ ν) : Bool := l.main.used + l.target.used = 0

def migrating (l : Linked κ ν) : Bool := l.frontier.isSome

def hasMoved (l : Linked κ ν) (i : Nat) : Bool :=
  match l.frontier with
  | some next => i < next
  | none => false

variable (K : Keying κ ν)

def hash (l : Linked κ ν) (k : κ) : UInt64 := K.hash l.settings.seed k

/-! ### Moving and new sizes -/

/-- Takes in how far the entries came. -/
def land (l : Linked κ ν) (p : Transit κ ν) : Linked κ ν :=
  if p.source.used = 0 then
    { l with slab := p.slab, main := p.target, target := .unallocated, frontier := none }
  else
    { l with slab := p.slab, main := p.source, target := p.target, frontier := some p.next }

def migrate (n : Nat) (l : Linked κ ν) : Option (Linked κ ν) :=
  match l.frontier with
  | none => some l
  | some next =>
    if l.walks > 0 then
      some l
    else
      (Transit.run (l.hash K) l.issued n (Dictionary.emptyPerBucket * n)
        ⟨l.slab, l.main, l.target, next⟩).map l.land

def migrateStep (l : Linked κ ν) : Option (Linked κ ν) :=
  if l.walks = 0 then l.migrate K 1 else some l

def migrateSteps : (n : Nat) → Linked κ ν → Option (Linked κ ν)
  | 0, l => some l
  | n + 1, l => if l.migrating then (l.migrateStep K).bind (migrateSteps n) else some l

def migrateRounds : (rounds : Nat) → Linked κ ν → Option (Linked κ ν)
  | 0, l => l.migrate K Dictionary.bucketsPerRound
  | rounds + 1, l =>
    (l.migrate K Dictionary.bucketsPerRound).bind fun l =>
      if l.migrating then migrateRounds rounds l else some l

def migrateFor (rounds : Nat) (l : Linked κ ν) : Option (Linked κ ν) :=
  if l.walks > 0 then some l else l.migrateRounds K rounds

/-- Makes room for `size` entries, or takes room away; nothing happens if it is refused. -/
def expand (size : Nat) (l : Linked κ ν) : Linked κ ν :=
  if l.migrating then
    l
  else if l.main.used > size || Buckets.sizeFor size = l.main.size then
    l
  else if l.main.size ≠ 0 then
    { l with target := .allocate (Buckets.sizeFor size), frontier := some 0 }
  else
    { l with main := .allocate (Buckets.sizeFor size) }

def resizeTo (size : Nat) (l : Linked κ ν) : Linked κ ν :=
  if l.settings.resizing then l.expand size else l

def growIfNeeded (l : Linked κ ν) : Linked κ ν :=
  if l.migrating then
    l
  else if l.main.size = 0 then
    l.expand Buckets.leastSize
  else if l.main.used < l.main.size then
    l
  else if l.walks > 0 then
    l
  else if l.settings.resizing || l.main.used / l.main.size > Dictionary.forcedRatio then
    l.expand (l.main.used * 2)
  else
    l

/-! ### Entries -/

/-- Looks for a key in the bucket of its hash in one of the arrays. -/
def lookupIn (l : Linked κ ν) (s : Side) (k : κ) (hash : UInt64) : Option (Option Nat) :=
  Slab.search l.slab (K.same k) l.issued ((l.side s).head ((l.side s).index hash))

/-- The handle of a key. A bucket that has moved is not looked into. -/
def lookup (l : Linked κ ν) (k : κ) (hash : UInt64) : Option (Option Nat) :=
  (if l.hasMoved (l.main.index hash) then some none else l.lookupIn K .main k hash).bind fun
    | some id => some (some id)
    | none => if l.migrating then l.lookupIn K .target k hash else some none

def receiving (l : Linked κ ν) : Side := if l.migrating then .target else .main

/-- Links a blank entry for a key, under a new handle. -/
def insert (l : Linked κ ν) (k : κ) (hash : UInt64) : Option (Linked κ ν) := do
  let (t, slab) ← (l.side l.receiving).pushFront
    (Function.update l.slab l.issued (some ⟨K.copyKey k, .blank, none⟩))
    ((l.side l.receiving).index hash) l.issued
  return { l.withSide l.receiving t slab with issued := l.issued + 1 }

def claim (k : κ) (l : Linked κ ν) : Option ((Bool × Nat) × Linked κ ν) := do
  let l ← l.migrateStep K
  let l := l.growIfNeeded
  match ← l.lookup K k (l.hash K k) with
  | some id => return ((false, id), l)
  | none =>
    let id := l.issued
    let l ← l.insert K k (l.hash K k)
    return ((true, id), l)

/-- Revises the value of an entry that has to be alive. -/
def write (id : Nat) (f : Value ν → Value ν) (l : Linked κ ν) : Option (Linked κ ν) :=
  (Slab.write l.slab id f).map fun slab => { l with slab := slab }

def add (k : κ) (v : ν) (l : Linked κ ν) : Option (Linked κ ν) := do
  let ((fresh, id), l) ← l.claim K k
  if fresh then l.write id fun _ => .object (K.copyValue v) else return l

/-- Finds or makes the entry of a key, and revises its value. -/
def claimAndWrite (k : κ) (set : Bool → Value ν → Value ν) (l : Linked κ ν) :
    Option (Linked κ ν) := do
  let ((fresh, id), l) ← l.claim K k
  l.write id (set fresh)

/-- Finds the entry of a key, and revises its value. -/
def findAndWrite (k : κ) (set : Value ν → Value ν) (l : Linked κ ν) : Option (Linked κ ν) :=
  if l.isEmpty then
    some l
  else do
    let l ← l.migrateStep K
    match ← l.lookup K k (l.hash K k) with
    | some id => l.write id set
    | none => return l

/-- Takes the entry of a key out of its chain in one of the arrays. -/
def unlinkIn (l : Linked κ ν) (s : Side) (k : κ) (hash : UInt64) :
    Option (Option Nat × Linked κ ν) := do
  let (found, t, slab) ← (l.side s).unlinkFrom l.slab ((l.side s).index hash) (K.same k) l.issued
    none ((l.side s).head ((l.side s).index hash))
  return (found, l.withSide s t slab)

/-- Takes the entry of a key out of its chain. -/
def unlinkKey (l : Linked κ ν) (k : κ) (hash : UInt64) : Option (Option Nat × Linked κ ν) :=
  (if l.hasMoved (l.main.index hash) then some (none, l) else l.unlinkIn K .main k hash).bind fun
    | (some id, l) => some (some id, l)
    | (none, l) => if l.migrating then l.unlinkIn K .target k hash else some (none, l)

/-- Takes the entry of a key out of its chain, and out of the slab. -/
def unlink (k : κ) (l : Linked κ ν) : Option (Linked κ ν) :=
  if l.isEmpty then
    some l
  else do
    let l ← l.migrateStep K
    let (found, l) ← l.unlinkKey K k (l.hash K k)
    match found with
    | some id => return { l with slab := Function.update l.slab id none }
    | none => return l

/-- Removes every entry of one array, and the array. -/
def clearSide (s : Side) (l : Linked κ ν) : Option (Linked κ ν) :=
  (Slab.removeAll l.issued (l.side s).buckets.toList (l.side s).used l.slab).map fun slab =>
    l.withSide s .unallocated slab

def clear (l : Linked κ ν) : Option (Linked κ ν) := do
  let l ← l.clearSide .main
  let l ← l.clearSide .target
  return { l with frontier := none }

/-! ### Scans -/

def covered (l : Linked κ ν) (cursor : UInt64) : List Cursor.Bucket :=
  if l.isEmpty then
    []
  else if !l.migrating then
    ((Cursor.Layout.single l.main.mask).cover cursor).1
  else if l.main.size ≤ l.target.size then
    ((Cursor.Layout.double .main l.main.mask .target l.target.mask).cover cursor).1
  else
    ((Cursor.Layout.double .target l.target.mask .main l.main.mask).cover cursor).1

def reviseBuckets {τ : Type} (f : τ → κ → Value ν → Value ν × τ) :
    List Cursor.Bucket → τ → Linked κ ν → Option (Linked κ ν)
  | [], _, l => some l
  | b :: rest, s, l => do
    let (s, slab) ← Slab.reviseFrom f l.issued ((l.side b.1).head b.2) s l.slab
    reviseBuckets f rest s { l with slab := slab }

/-! ### Operations -/

def perform (l : Linked κ ν) : Operation κ ν → Option (Linked κ ν)
  | .add k v => l.add K k v
  | .claim k set => l.claimAndWrite K k set
  | .replace k v => l.claimAndWrite K k fun _ _ => .object (K.copyValue v)
  | .find k set => l.findAndWrite K k set
  | .unlink k => l.unlink K k
  | .delete k => l.unlink K k
  | .clear => l.clear
  | .expand size => some (l.expand size)
  | .resizeTo size => some (l.resizeTo size)
  | .shrinkToFit => some (l.resizeTo (max l.main.used Buckets.leastSize))
  | .migrate n => l.migrate K n
  | .migrateFor rounds => l.migrateFor K rounds
  | .allowResizing allowed => some { l with settings := { l.settings with resizing := allowed } }
  | .pick | .pickFairly => if l.isEmpty then some l else l.migrateStep K
  | .sample count =>
    let count := min count (l.main.used + l.target.used)
    if count = 0 then some l else l.migrateSteps K count
  | .scanRevising f start cursor => l.reviseBuckets f (l.covered cursor) start
  | .safeWalk => some { l with walks := l.walks + 1 }
  | .endWalk w => some (if w.isSafe then { l with walks := l.walks - 1 } else l)
  -- these look into buckets and follow handles without asking that there is anything, or free
  -- what is in no chain any more
  | .discard _ | .scan _ | .walk | .advance _ => some l

def after (l : Linked κ ν) (ops : List (Operation κ ν)) : Option (Linked κ ν) :=
  ops.foldlM (fun l op => l.perform K op) l

end Linked

end TwinTable
