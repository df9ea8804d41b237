/-
Moving entries between the two arrays, and when to.

`migrate n` moves up to `n` buckets that hold something. Empty buckets on the way are
passed without being counted, but at most ten for each bucket asked for, so that a
sparse array cannot make one call expensive. Every operation that looks for a key moves
one bucket on the side, which is enough: a target is at least as large as the number of
entries it was made for, and it is reached before it fills.

Nothing moves while a safe walk is open.
-/
import TwinTable.Dictionary.Basic

set_option autoImplicit false

namespace TwinTable

/-! ## One run of moves -/

/-- Entries on their way: where from, where to, and the next bucket to move. -/
structure Passage (κ ν : Type) where
  source : Buckets κ ν
  target : Buckets κ ν
  next : Nat

namespace Passage

variable {κ ν : Type}

/-- Puts the bindings of a chain into the target one by one, from the head. -/
def moveChain (hash : κ → UInt64) (chain : List (Binding κ ν)) (target : Buckets κ ν) :
    Buckets κ ν :=
  chain.foldl (fun t b => t.push (t.index (hash b.key)) b) target

/-- Moves the next bucket. -/
def moveBucket (hash : κ → UInt64) (p : Passage κ ν) : Passage κ ν :=
  let chain := p.source.chain p.next
  ⟨p.source.clearBucket p.next, moveChain hash chain p.target, p.next + 1⟩

/-- Passes empty buckets from `next` on, as many as the allowance permits. Returned are
the bucket that was reached and what is left of the allowance, zero if it ran out. -/
def passEmpty (t : Buckets κ ν) : (allowance next : Nat) → Nat × Nat
  | 0, next => (next, 0)
  | allowance + 1, next =>
    if (t.chain next).isEmpty then passEmpty t allowance (next + 1) else (next, allowance + 1)

/-- Moves up to `n` buckets, passing at most `allowance` empty ones. -/
def run (hash : κ → UInt64) : (n allowance : Nat) → Passage κ ν → Passage κ ν
  | 0, _, p => p
  | n + 1, allowance, p =>
    if p.source.used = 0 then
      p
    else
      match passEmpty p.source allowance p.next with
      | (next, 0) => { p with next := next }
      | (next, left + 1) => run hash n (left + 1) (moveBucket hash { p with next := next })

end Passage

namespace Dictionary

variable {κ ν : Type}

/-- Empty buckets that may be passed for each bucket asked for. -/
def emptyPerBucket : Nat := 10

/-- Takes in how far a passage came. Once the main array is empty, the target takes its
place. -/
def land (d : Dictionary κ ν) (p : Passage κ ν) : Bool × Dictionary κ ν :=
  if p.source.used = 0 then
    (false, { d with main := p.target, target := .unallocated, frontier := none }.note
      (.migrationFinished p.target.size p.target.used))
  else
    (true, { d with main := p.source, target := p.target, frontier := some p.next })

/-- Moves up to `n` buckets; is there more to move? -/
def migrate (r : Rules κ ν) (n : Nat) (d : Dictionary κ ν) : Bool × Dictionary κ ν :=
  match d.frontier with
  | none => (false, d)
  | some next =>
    if d.walks > 0 then
      (true, d)
    else
      let start : Passage κ ν := ⟨d.main, d.target, next⟩
      -- the arrays have one owner during the run, so that it works in place
      let d := { d with main := .unallocated, target := .unallocated }
      d.land (start.run r.hash n (emptyPerBucket * n))

/-- The one bucket that an ordinary operation moves on the side. -/
def migrateStep (r : Rules κ ν) (d : Dictionary κ ν) : Dictionary κ ν :=
  if d.walks = 0 then (d.migrate r 1).2 else d

/-- Buckets moved between two looks at the clock. -/
def bucketsPerRound : Nat := 100

/-- Moves entries round by round until there are no more, or until the time is up
after `rounds` further rounds; `moved` buckets were asked for before. -/
def migrateRounds (r : Rules κ ν) : (rounds moved : Nat) → Dictionary κ ν → Bool × Dictionary κ ν
  | 0, moved, d =>
    match d.migrate r bucketsPerRound with
    | (false, d) => (false, d)
    | (true, d) => (true, d.note (.migrationSuspended (moved + bucketsPerRound)))
  | rounds + 1, moved, d =>
    match d.migrate r bucketsPerRound with
    | (false, d) => (false, d)
    | (true, d) => migrateRounds r rounds (moved + bucketsPerRound) d

/-- So many rounds that any migration ends within them: each round passes at least one
bucket, and no array has more buckets. -/
def ampleRounds : Nat := UInt64.size

/-- Moves entries for some time, in which `rounds` rounds and the one begun when the time
is up are made; is there more to move? -/
def migrateFor (r : Rules κ ν) (rounds : Nat) (d : Dictionary κ ν) : Bool × Dictionary κ ν :=
  if d.walks > 0 then (d.migrating, d) else d.migrateRounds r rounds 0

/-! ## New sizes -/

/-- Allows or forbids resizing. -/
def allowResizing (settings : Settings) (allowed : Bool) (d : Dictionary κ ν) :
    Settings × Dictionary κ ν :=
  ({ settings with resizing := allowed },
    d.note (if allowed then .resizingEnabled else .resizingDisabled))

/-- Makes room for `size` entries, or takes room away. The first array is in use at once;
any other is moved to bit by bit. -/
def expand (d : Dictionary κ ν) (size : Nat) : Except Fault Unit × Dictionary κ ν :=
  let newSize := Buckets.sizeFor size
  if d.migrating then
    (.error .migrating, d)
  else if d.main.used > size || newSize = d.main.size then
    (.error (.invalidSize size d.main.used), d)
  else
    let fresh := .allocate d.nextArray newSize
    let counted := { d with nextArray := d.nextArray + 1 }
    if d.main.isAllocated then
      (.ok (), { counted with target := fresh, frontier := some 0 }.note
        (.migrationStarted d.main.size newSize d.main.used))
    else
      (.ok (), { counted with main := fresh }.note (.firstTable newSize))

/-- Makes room for `size` entries on request, which is refused while resizing is off. -/
def resizeTo (r : Rules κ ν) (d : Dictionary κ ν) (size : Nat) :
    Except Fault Unit × Dictionary κ ν :=
  if r.settings.resizing then d.expand size else (.error .resizeDisabled, d)

/-- Shrinks to the least size that holds every entry. -/
def shrinkToFit (r : Rules κ ν) (d : Dictionary κ ν) : Except Fault Unit × Dictionary κ ν :=
  d.resizeTo r (max d.main.used Buckets.leastSize)

/-- More entries to a bucket than this make a table grow even if resizing is off. -/
def forcedRatio : Nat := 5

/-- Sees to it, before an insertion, that there are buckets, and starts to grow once
there are as many entries as buckets. -/
def growIfNeeded (r : Rules κ ν) (d : Dictionary κ ν) : Dictionary κ ν :=
  let used := d.main.used
  let size := d.main.size
  if d.migrating then
    d
  else if !d.main.isAllocated then
    match d.expand Buckets.leastSize with
    | (.ok (), d) => d
    | (.error e, d) => d.note (.firstTableRefused e)
  else if used < size then
    d
  else if d.walks > 0 then
    d.note (.growthPaused d.walks)
  else if r.settings.resizing || used / size > forcedRatio then
    match d.expand (used * 2) with
    | (.ok (), d) => d
    | (.error e, d) => d.note (.growthRefused (used * 2) e)
  else
    d.note (.growthForbidden used size)

end Dictionary

end TwinTable
