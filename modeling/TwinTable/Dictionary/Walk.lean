/-
Walks: going through the entries one by one while the dictionary may change in between.

A walk keeps its position and nothing of the dictionary: the array it is in, the next
bucket to enter, and the handle of the entry to return next, which is the one that
followed the entry returned last. Main array first, bucket by bucket, each chain from
its head; then the target, if entries are moving when the main array ends.

If the entry to return next is gone, the walk enters the bucket it came from once more.
It may then return an entry twice, but it leaves none out.

A *safe* walk lets entries come and go. It is counted by the dictionary, which meanwhile
moves no entry to another bucket. An *unsafe* walk is not counted and allows no change;
when it is handed back, a fingerprint of the two arrays shows whether there was one.
-/
import TwinTable.Dictionary.Basic

set_option autoImplicit false

namespace TwinTable

/-! ## Fingerprints -/

namespace Fingerprint

/-- Mixes one word into a running hash. Each of the seven steps can be undone, so that
a difference in one word is never lost. -/
def mix (hash part : UInt64) : UInt64 :=
  let h := hash + part
  let h := ~~~h + h <<< 21
  let h := h ^^^ h >>> 24
  let h := h + h <<< 3 + h <<< 8
  let h := h ^^^ h >>> 14
  let h := h + h <<< 2 + h <<< 4
  let h := h ^^^ h >>> 28
  h + h <<< 31

/-- The mix of several words. -/
def ofWords (parts : List UInt64) : UInt64 :=
  parts.foldl mix 0

end Fingerprint

/-- The words that tell an array and how full it is. -/
def Buckets.fingerprintWords {κ ν : Type} (t : Buckets κ ν) : List UInt64 :=
  [t.identity.toUInt64, t.size.toUInt64, t.used.toUInt64]

namespace Dictionary

variable {κ ν : Type}

/-- One word for the identity, size and fill of both arrays. -/
def fingerprint (d : Dictionary κ ν) : UInt64 :=
  Fingerprint.ofWords (d.main.fingerprintWords ++ d.target.fingerprintWords)

/-- The entry with a given handle in a chain, and what follows it. -/
def suffix? (id : Nat) : List (Binding κ ν) → Option (Binding κ ν × List (Binding κ ν))
  | [] => none
  | b :: rest => if b.id = id then some (b, rest) else suffix? id rest

/-- The entry with a given handle, and what follows it in its chain. It is looked for in
one bucket first, and found wherever it is. -/
def resume? (d : Dictionary κ ν) (s : Side) (i id : Nat) :
    Option (Binding κ ν × List (Binding κ ν)) :=
  match suffix? id ((d.side s).chain i) with
  | some found => some found
  | none =>
    match d.main.chains.findSome? (suffix? id) with
    | some found => some found
    | none => d.target.chains.findSome? (suffix? id)

end Dictionary

/-! ## Walks -/

/-- The position of a walk. -/
structure Walk where
  /-- The array it is in. -/
  side : Side
  /-- The next bucket to enter. -/
  index : Nat
  /-- The handle of the entry to return next, if the chain went on. -/
  upcoming : Option Nat
  /-- Whether the dictionary may change meanwhile. -/
  isSafe : Bool
  /-- The fingerprint of the dictionary at the start of an unsafe walk. -/
  fingerprint : UInt64
deriving DecidableEq, Repr

/-- Begins a walk during which the dictionary is only read, so that there is nothing to compare
when it is over. -/
def Walk.browse : Walk := ⟨.main, 0, none, false, 0⟩

namespace Dictionary

variable {κ ν : Type}

/-- Begins an unsafe walk. -/
def walk (d : Dictionary κ ν) : Walk := ⟨.main, 0, none, false, d.fingerprint⟩

/-- Begins a safe walk. -/
def safeWalk (d : Dictionary κ ν) : Walk × Dictionary κ ν :=
  (⟨.main, 0, none, true, 0⟩, { d with walks := d.walks + 1 })

/-- Takes a walk back. For an unsafe one this fails if the dictionary changed. -/
def endWalk (d : Dictionary κ ν) (w : Walk) : Except Fault Unit × Dictionary κ ν :=
  if w.isSafe then
    let d := { d with walks := d.walks - 1 }
    (.ok (), d.note (.walkReleased d.walks))
  else if d.fingerprint = w.fingerprint then
    (.ok (), d)
  else
    (.error (.changedUnderWalk w.fingerprint d.fingerprint), d)

end Dictionary

/-- The first bucket from `start` on that is not empty, with its chain, among the next
`count` buckets. -/
def Buckets.nextChain? {κ ν : Type} (t : Buckets κ ν) :
    (count start : Nat) → Option (Nat × Binding κ ν × List (Binding κ ν))
  | 0, _ => none
  | count + 1, start =>
    match t.chain start with
    | b :: rest => some (start, b, rest)
    | [] => nextChain? t count (start + 1)

namespace Walk

variable {κ ν : Type}

/-- The position after returning the first entry of a chain. -/
def after (w : Walk) (s : Side) (index : Nat) (rest : List (Binding κ ν)) : Walk :=
  { w with side := s, index := index, upcoming := rest.head?.map (·.id) }

/-- Enters the next bucket that is not empty in one array. The walk stands at the end of
the array if there is none. -/
def enterIn (w : Walk) (d : Dictionary κ ν) (s : Side) (index : Nat) :
    Option (Binding κ ν) × Walk :=
  match (d.side s).nextChain? ((d.side s).size - index) index with
  | some (i, b, rest) => (some b, w.after s (i + 1) rest)
  | none => (none, { w with side := s, index := max index (d.side s).size, upcoming := none })

/-- Enters the next bucket that is not empty, in the array the walk is in or, if that is
the main array and entries are moving, in the target. -/
def enter (w : Walk) (d : Dictionary κ ν) : Option (Binding κ ν) × Walk :=
  match w.enterIn d w.side w.index with
  | (some b, w) => (some b, w)
  | (none, w) =>
    if w.side = .main && d.migrating then w.enterIn d .target 0 else (none, w)

/-- The next entry, or `none` at the end. -/
def next (w : Walk) (d : Dictionary κ ν) : Option (Binding κ ν) × Walk :=
  match w.upcoming with
  | none => w.enter d
  | some id =>
    match d.resume? w.side (w.index - 1) id with
    | some (b, rest) => (some b, w.after w.side w.index rest)
    | none => { w with upcoming := none, index := w.index - 1 }.enter d

/-- Up to `n` entries, and whether the walk ended before that. -/
def take (d : Dictionary κ ν) : (n : Nat) → Walk → List (Binding κ ν) × Bool × Walk
  | 0, w => ([], false, w)
  | n + 1, w =>
    match w.next d with
    | (none, w) => ([], true, w)
    | (some b, w) =>
      let (bs, ended, w) := take d n w
      (b :: bs, ended, w)

end Walk

end TwinTable
