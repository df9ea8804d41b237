/-
Picking entries at random.

Randomness comes as words, one after another, from a source that the caller chooses. A
number below `n` is one word modulo `n`, and every number asked for costs one word,
also where only one answer is possible. So which words go where is fixed by the
functions below: with the same words they pick the same entries.

`pick` is quick but not fair, as keys in short chains come up more often. `pickFairly`
draws a bucket and a position below the length of the longest chain, and tries again
where there is no such position. `sample` walks on from a random bucket.
-/
import TwinTable.Dictionary.Migration

set_option autoImplicit false

namespace TwinTable

/-! ## Sources of words -/

/-- A source of words with state `σ`. -/
structure WordSource (σ : Type) where
  draw : σ → UInt64 × σ

namespace WordSource

variable {σ : Type}

/-- A number below `n`, which must not be zero. -/
def below (g : WordSource σ) (n : Nat) (s : σ) : Nat × σ :=
  let (w, s) := g.draw s
  (w.toNat % n, s)

/-- SplitMix: a counter with an odd step, each of whose values is scrambled by a
bijection. All words come up once in 2^64 draws. -/
def splitMix : WordSource UInt64 where
  draw s :=
    let s := s + 0x9e3779b97f4a7c15
    let z := (s ^^^ s >>> 30) * 0xbf58476d1ce4e5b9
    let z := (z ^^^ z >>> 27) * 0x94d049bb133111eb
    (z ^^^ z >>> 31, s)

end WordSource

namespace Dictionary

variable {κ ν σ : Type}

/-! ## Buckets by number -/

/-- The first number of a bucket that may hold entries. Buckets are numbered through
both arrays, those of the main array first. -/
def firstLive (d : Dictionary κ ν) : Nat := d.frontier.getD 0

/-- The number behind the last bucket that may hold entries. -/
def endLive (d : Dictionary κ ν) : Nat :=
  match d.frontier with
  | some _ => d.main.size + d.target.size
  | none => d.main.size

/-- The chain of a numbered bucket. -/
def numbered (d : Dictionary κ ν) (h : Nat) : List (Binding κ ν) :=
  if d.main.size ≤ h then d.target.chain (h - d.main.size) else d.main.chain h

/-- A number of a bucket that may hold entries. -/
def drawBucket (g : WordSource σ) (d : Dictionary κ ν) (s : σ) : Nat × σ :=
  let (x, s) := g.below (d.endLive - d.firstLive) s
  (d.firstLive + x, s)

/-! ## One entry -/

/-- How often a draw that may miss is tried. Within so many words SplitMix has produced
every word. -/
def patience : Nat := UInt64.size

/-- Draws buckets until one is not empty, at most `tries` times. -/
def drawChain (g : WordSource σ) (d : Dictionary κ ν) :
    (tries : Nat) → σ → Option (List (Binding κ ν)) × σ
  | 0, s => (none, s)
  | tries + 1, s =>
    let (h, s) := d.drawBucket g s
    match d.numbered h with
    | [] => drawChain g d tries s
    | chain => (some chain, s)

/-- Some entry: draws a bucket that is not empty, then a position in its chain. -/
def pick (g : WordSource σ) (r : Rules κ ν) (d : Dictionary κ ν) (s : σ) :
    Option (Binding κ ν) × σ × Dictionary κ ν :=
  if d.isEmpty then
    (none, s, d)
  else
    let d := d.migrateStep r
    match d.drawChain g patience s with
    | (none, s) => (none, s, d)
    | (some chain, s) =>
      let (position, s) := g.below chain.length s
      (chain[position]?, s, d)

/-- The length of the longest chain among the buckets that may hold entries. -/
def longestChain (d : Dictionary κ ν) : Nat :=
  (List.range' d.firstLive (d.endLive - d.firstLive)).foldl
    (fun longest h => max longest (d.numbered h).length) 0

/-- Draws a bucket and a position below `longest` until there is an entry, at most
`tries` times. -/
def drawEntry (g : WordSource σ) (d : Dictionary κ ν) (longest : Nat) :
    (tries : Nat) → σ → Option (Binding κ ν) × σ
  | 0, s => (none, s)
  | tries + 1, s =>
    let (h, s) := d.drawBucket g s
    let (position, s) := g.below longest s
    match (d.numbered h)[position]? with
    | some b => (some b, s)
    | none => drawEntry g d longest tries s

/-- An entry such that every entry is equally likely. -/
def pickFairly (g : WordSource σ) (r : Rules κ ν) (d : Dictionary κ ν) (s : σ) :
    Option (Binding κ ν) × σ × Dictionary κ ν :=
  if d.isEmpty then
    (none, s, d)
  else
    let d := d.migrateStep r
    let longest := d.longestChain
    if longest = 0 then
      (none, s, d)
    else
      let (b, s) := d.drawEntry g longest patience s
      (b, s, d)

/-! ## Several entries -/

/-- Moves one bucket along, up to `n` times, as long as entries are moving. -/
def migrateSteps (r : Rules κ ν) : (n : Nat) → Dictionary κ ν → Dictionary κ ν
  | 0, d => d
  | n + 1, d => if d.migrating then migrateSteps r n (d.migrateStep r) else d

/-- A sample in the making. -/
structure Sampling (κ ν σ : Type) where
  /-- The bucket number at which both arrays are looked into. -/
  position : Nat
  /-- Empty buckets met since the last one that was not. -/
  emptyRun : Nat
  /-- The buckets whose entries were taken. -/
  visited : List (Side × Nat)
  /-- The entries taken, the latest first. -/
  taken : List (Binding κ ν)
  /-- How many more are wanted. -/
  wanted : Nat
  /-- The source of words. -/
  words : σ

/-- Takes entries from the head of a chain, as many as are wanted. -/
def Sampling.takeFrom (p : Sampling κ ν σ) (chain : List (Binding κ ν)) : Sampling κ ν σ :=
  let got := chain.take p.wanted
  { p with taken := got.reverse ++ p.taken, wanted := p.wanted - got.length }

/-- Empty buckets that are always put up with before a jump. -/
def shortRun : Nat := 5

/-- Looks into the bucket at the position in one array. A long run of empty buckets ends
in a jump to a random position. -/
def sampleIn (g : WordSource σ) (d : Dictionary κ ν) (count span : Nat) (side : Side)
    (p : Sampling κ ν σ) : Sampling κ ν σ :=
  let t := d.side side
  -- below the frontier the main array is empty; where the target has no bucket at this
  -- position either, the frontier is the next bucket worth a look
  let moved := side = .main && d.hasMoved p.position
  if moved && p.position < d.target.size then
    p
  else
    let p := if moved then { p with position := d.firstLive } else p
    if t.size ≤ p.position then
      p
    else if (t.chain p.position).isEmpty then
      let run := p.emptyRun + 1
      if shortRun ≤ run && count < run then
        let (position, words) := g.below span p.words
        { p with position := position, emptyRun := 0, words := words }
      else
        { p with emptyRun := run }
    else
      let p := { p with emptyRun := 0 }
      if p.visited.contains (side, p.position) then
        p
      else
        { p with visited := (side, p.position) :: p.visited }.takeFrom (t.chain p.position)

/-- Looks into both arrays, position after position, at most `steps` times. The walk ends
as soon as no more entries are wanted, also between the two arrays. -/
def sampleFrom (g : WordSource σ) (d : Dictionary κ ν) (count span : Nat) :
    (steps : Nat) → Sampling κ ν σ → Sampling κ ν σ
  | 0, p => p
  | steps + 1, p =>
    let p := d.sampleIn g count span .main p
    if p.wanted = 0 then
      p
    else
      let p := if d.migrating then d.sampleIn g count span .target p else p
      if p.wanted = 0 then
        p
      else
        sampleFrom g d count span steps { p with position := (p.position + 1) % span }

/-- Positions looked into for each entry asked for. -/
def stepsPerEntry : Nat := 10

/-- Up to `count` different entries. There may be fewer than that, although there are
enough, if they lie too far apart. -/
def sample (g : WordSource σ) (r : Rules κ ν) (count : Nat) (d : Dictionary κ ν) (s : σ) :
    List (Binding κ ν) × σ × Dictionary κ ν :=
  let count := min count d.size
  if count = 0 then
    ([], s, d)
  else
    let d := d.migrateSteps r count
    let span := if d.migrating then max d.main.size d.target.size else d.main.size
    let (position, s) := g.below span s
    let p := d.sampleFrom g count span (stepsPerEntry * count) ⟨position, 0, [], [], count, s⟩
    (p.taken.reverse, p.words, d)

end Dictionary

end TwinTable
