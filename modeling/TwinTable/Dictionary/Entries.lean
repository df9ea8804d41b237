/-
Adding, finding, replacing and removing entries.

Each of these first moves one bucket along, if entries are moving at all, and then deals
with its key. Keys and objects are copied when they come in, after it is clear that they
do come in, and freed when they go. `unlink` is the exception on the way out: it hands
the binding to the caller, who gives it to `discard` once done with it.
-/
import TwinTable.Dictionary.Migration

set_option autoImplicit false

namespace TwinTable

/-- Where a key has its place: in an entry made for it just now, or in the one that had
the key before. -/
inductive Claim where
  | fresh (p : Place)
  | taken (p : Place)
deriving DecidableEq, Repr

/-- The place, whichever way it came about. -/
def Claim.place : Claim → Place
  | .fresh p => p
  | .taken p => p

namespace Dictionary

variable {κ ν : Type}

/-! ## Adding -/

/-- Links a blank entry for a key that is not there. -/
def link (r : Rules κ ν) (d : Dictionary κ ν) (k : κ) (hash : UInt64) :
    Place × Dictionary κ ν :=
  let s := d.receiving
  let i := (d.side s).index hash
  let id := d.nextId
  let stored := r.keying.copyKey k
  let d := { d with nextId := id + 1 }.hand (.keyCopied stored)
  (⟨s, i, id⟩, d.modifySide s fun t => t.push i ⟨id, stored, .blank⟩)

/-- Finds the entry of a key, or makes a blank one. -/
def claim (r : Rules κ ν) (d : Dictionary κ ν) (k : κ) : Claim × Dictionary κ ν :=
  let hash := r.hash k
  let d := (d.migrateStep r).growIfNeeded r
  match d.lookup r k hash with
  | some p => (.taken p, d)
  | none =>
    let (p, d) := d.link r k hash
    (.fresh p, d)

/-- Stores a copy of an object in the entry at a place. What was there is not freed. -/
def store (r : Rules κ ν) (d : Dictionary κ ν) (p : Place) (v : ν) : Dictionary κ ν :=
  let stored := r.keying.copyValue v
  (d.hand (.valueCopied stored)).setAt p fun _ => .object stored

/-- Adds a key with an object. If the key is there already, nothing is copied or stored. -/
def add (r : Rules κ ν) (d : Dictionary κ ν) (k : κ) (v : ν) : Except Fault Unit × Dictionary κ ν :=
  match d.claim r k with
  | (.fresh p, d) => (.ok (), d.store r p v)
  | (.taken _, d) => (.error .keyExists, d)

/-- Binds a key to an object, whether it is there or not. An object that was bound to it
before is freed, after the new one is in place. Was the key new? -/
def replace (r : Rules κ ν) (d : Dictionary κ ν) (k : κ) (v : ν) : Bool × Dictionary κ ν :=
  match d.claim r k with
  | (.fresh p, d) => (true, d.store r p v)
  | (.taken p, d) =>
    match d.entry? p with
    | some old => (false, (d.store r p v).handAll old.value.freed)
    | none => (false, d.store r p v)

/-! ## Finding -/

/-- The place of a key. A dictionary without entries is not touched. -/
def find (r : Rules κ ν) (d : Dictionary κ ν) (k : κ) : Option Place × Dictionary κ ν :=
  if d.isEmpty then
    (none, d)
  else
    let d := d.migrateStep r
    (d.lookup r k (r.hash k), d)

/-- The entry of a key. -/
def fetch (r : Rules κ ν) (d : Dictionary κ ν) (k : κ) : Option (Binding κ ν) × Dictionary κ ν :=
  let (p, d) := d.find r k
  (p.bind d.entry?, d)

/-! ## Removing -/

/-- Takes the entry of a key out without freeing anything. -/
def unlink (r : Rules κ ν) (d : Dictionary κ ν) (k : κ) : Option (Binding κ ν) × Dictionary κ ν :=
  match d.find r k with
  | (none, d) => (none, d)
  | (some p, d) =>
    let b := d.entry? p
    (b, d.modifySide p.side fun t => t.erase p.index p.id)

/-- Frees a binding that is in no bucket any more. -/
def discard (d : Dictionary κ ν) (b : Binding κ ν) : Dictionary κ ν :=
  d.handAll b.freed

/-- Takes an entry out and frees it. -/
def delete (r : Rules κ ν) (d : Dictionary κ ν) (k : κ) : Except Fault Unit × Dictionary κ ν :=
  match d.unlink r k with
  | (some b, d) => (.ok (), d.discard b)
  | (none, d) => (.error .keyNotFound, d)

/-! ## Removing everything -/

/-- Buckets after which a long clearing lets others have their turn. -/
def bucketsPerTurn : Nat := 65536

/-- Frees the bindings in the chains of an array, from bucket `i` on, as long as entries
remain by the count of the array. Others have their turn before bucket 0, and before each
later bucket whose number is a multiple of `bucketsPerTurn`; how often is returned. -/
def freeChains : List (List (Binding κ ν)) → (i remaining turns : Nat) → Dictionary κ ν →
    Nat × Dictionary κ ν
  | [], _, _, turns, d => (turns, d)
  | chain :: chains, i, remaining, turns, d =>
    if remaining = 0 then
      (turns, d)
    else
      let turns := if i % bucketsPerTurn = 0 then turns + 1 else turns
      freeChains chains (i + 1) (remaining - chain.length) turns
        (d.handAll (chain.flatMap Binding.freed))

/-- Frees every binding of one array, and the array. -/
def clearSide (d : Dictionary κ ν) (s : Side) : Nat × Dictionary κ ν :=
  let t := d.side s
  let number := match s with
    | .main => 0
    | .target => 1
  let d := (d.modifySide s fun _ => .unallocated).note (.clearing number t.size t.used)
  d.freeChains t.chains.toList 0 t.used 0

/-- Frees everything, and counts how often others had their turn meanwhile. Walks stay
open. -/
def clear (d : Dictionary κ ν) : Nat × Dictionary κ ν :=
  let (a, d) := d.clearSide .main
  let (b, d) := d.clearSide .target
  (a + b, { d with frontier := none })

/-- Whether the dictionary may be given up on purpose: not while a safe walk is open. -/
def isReleasable (d : Dictionary κ ν) : Bool := d.walks = 0

/-- What the dictionary does when it goes away, on purpose or not: it frees everything. -/
def drop (d : Dictionary κ ν) : Dictionary κ ν :=
  let d := if d.walks > 0 then d.note (.droppedUnderWalks d.walks) else d
  d.clear.2

end Dictionary

end TwinTable
