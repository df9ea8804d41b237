/-
The store: a dictionary from strings to strings that is kept in good shape.

Beside the dictionary a store holds what the dictionary is used with: the settings, the
source of random words with its state, and how much time one run of the upkeep has. Each
operation on keys is the dictionary's own. New here are `page`, which collects about as
many keys as were asked for, and `upkeep`, which is to be run now and then: it moves
entries along, and makes the table smaller once it is nearly empty.
-/
import TwinTable.Dictionary.Cursor
import TwinTable.Dictionary.Entries
import TwinTable.Dictionary.Pick
import TwinTable.Dictionary.Report

set_option autoImplicit false

namespace TwinTable.Service

/-- A store that draws its random words from a source with state `σ`. -/
structure Store (σ : Type) where
  dictionary : Dictionary String String
  settings : Settings
  /-- Rounds of moves for which one run of the upkeep has time. -/
  rounds : Nat
  source : WordSource σ
  /-- The state of the source. -/
  words : σ

namespace Store

variable {σ α : Type}

/-- A store without keys. -/
def empty (settings : Settings) (rounds : Nat) (source : WordSource σ) (words : σ) : Store σ :=
  ⟨.empty, settings, rounds, source, words⟩

/-- The rules that the dictionary goes by. -/
def rules (s : Store σ) : Rules String String := ⟨.strings String, s.settings⟩

/-- Runs an operation of the dictionary. -/
def withDictionary (s : Store σ)
    (f : Rules String String → Dictionary String String → α × Dictionary String String) :
    α × Store σ :=
  let r := s.rules
  let d := s.dictionary
  -- the dictionary has one owner during the operation, so that it works in place
  let s := { s with dictionary := .empty }
  let (a, d) := f r d
  (a, { s with dictionary := d })

/-! ## Keys and values -/

/-- The value of a key. -/
def get (s : Store σ) (key : String) : Option String × Store σ :=
  let (b, s) := s.withDictionary fun r d => d.fetch r key
  (b.bind fun b => b.value.object?, s)

/-- Binds a key to a value. Is the key new? -/
def set (s : Store σ) (key value : String) : Bool × Store σ :=
  s.withDictionary fun r d => d.replace r key value

/-- Removes a key, and returns the value that it had. -/
def delete (s : Store σ) (key : String) : Option String × Store σ :=
  s.withDictionary fun r d =>
    match d.unlink r key with
    | (some b, d) => (b.value.object?, d.discard b)
    | (none, d) => (none, d)

/-- The number of keys. -/
def size (s : Store σ) : Nat := s.dictionary.size

/-- Whether there are no keys. -/
def isEmpty (s : Store σ) : Bool := s.dictionary.isEmpty

/-- The report on the chains of the dictionary. -/
def report (s : Store σ) : String := s.dictionary.report

/-- Some key, if there is one. -/
def randomKey (s : Store σ) : Option String × Store σ :=
  let ((b, words), s) := s.withDictionary fun r d =>
    let (b, words, d) := d.pick s.source r s.words
    ((b, words), d)
  (b.map fun b => b.key, { s with words := words })

/-! ## Pages of keys -/

/-- Some keys, and where to go on from. -/
structure Page where
  /-- The next cursor; zero ends the scan. -/
  next : UInt64
  keys : List String
deriving DecidableEq, Repr

/-- Scans on until no more keys are wanted, the scan is over, or `calls` calls were made.
The keys in `before` come first, the latest at the head. -/
def collectKeys (d : Dictionary String String) :
    (calls wanted : Nat) → (before : List String) → UInt64 → Page
  | 0, _, before, cursor => ⟨cursor, before.reverse⟩
  | calls + 1, wanted, before, cursor =>
    let (entries, next) := d.scan cursor
    let before := (entries.map fun b => b.key).reverse ++ before
    let wanted := wanted - entries.length
    if next = 0 || wanted = 0 then ⟨next, before.reverse⟩
    else collectKeys d calls wanted before next

/-- Calls that a page may take for each key that is wanted. -/
def callsPerKey : Nat := 10

/-- Calls that a page may take at all. -/
def mostCalls : Nat := UInt64.size - 1

/-- A page of about `count` keys, at least one. It has fewer if the scan ends with it or if
the keys lie too far apart, and more if there are several in the last bucket. -/
def page (s : Store σ) (cursor : UInt64) (count : Nat) : Page :=
  let wanted := max count 1
  collectKeys s.dictionary (min (callsPerKey * wanted) mostCalls) wanted [] cursor

/-- The pages from a cursor on, at most `most` of them. -/
def pagesFrom (s : Store σ) (count : Nat) : (most : Nat) → UInt64 → List Page
  | 0, _ => []
  | most + 1, cursor =>
    let p := s.page cursor count
    p :: if p.next = 0 then [] else pagesFrom s count most p.next

/-- All pages of a whole scan. Each takes at least one call, and no scan of an unchanged
dictionary makes more calls than there are buckets. -/
def pages (s : Store σ) (count : Nat) : List Page :=
  s.pagesFrom count (s.dictionary.slots + 1) 0

/-! ## Upkeep -/

/-- A table that is filled to less than this many percent is made smaller. -/
def leastFill : Nat := 10

/-- Whether a table larger than the least is nearly empty. -/
def isSparse (d : Dictionary String String) : Bool :=
  Buckets.leastSize < d.slots && d.size * 100 / d.slots < leastFill

/-- Begins to shrink the table. -/
def shrink (r : Rules String String) (d : Dictionary String String) : Dictionary String String :=
  match (d.note (.shrinking d.size d.slots)).shrinkToFit r with
  | (.ok (), d) => d
  | (.error e, d) => d.note (.shrinkRefused e)

/-- One run of the upkeep: moves entries if any are on their way, or else looks after the
size of the table. Is there more to move? -/
def upkeep (s : Store σ) : Bool × Store σ :=
  s.withDictionary fun r d =>
    if d.migrating then
      let (more, d) := d.migrateFor r s.rounds
      (more, d.note (.upkeepMoved more))
    else
      let d := if isSparse d then shrink r d else d
      (d.migrating, d)

/-- Allows or forbids resizing. -/
def allowResizing (s : Store σ) (allowed : Bool) : Store σ :=
  let (settings, s) := s.withDictionary fun r d => d.allowResizing r.settings allowed
  { s with settings := settings }

/-! ## Notices -/

/-- Collects the notices. What became of keys and values is nobody's concern here: strings
need no freeing. -/
def collect (s : Store σ) : Array Notice × Store σ :=
  s.withDictionary fun _ d =>
    let (outbox, d) := d.collect
    (outbox.notices, d)

end Store

end TwinTable.Service
