/-
Reports on a dictionary: its sizes in one line, an entry as text, and how long the chains
are.

The chain report has a section for each array in use. Chains of a length below
`Chains.lastLength` are counted length by length, and all longer ones together. An
array without entries has no chains worth a report.
-/
import TwinTable.Dictionary.Basic
import TwinTable.Number.Rounding
import TwinTable.Number.Shortest

set_option autoImplicit false

namespace TwinTable

/-! ## Chain lengths -/

/-- What there is to say about the chains of an array. -/
structure Chains where
  /-- The number of buckets. -/
  size : Nat
  /-- The number of entries. -/
  used : Nat
  /-- The number of buckets that are not empty. -/
  slots : Nat
  /-- The length of the longest chain. -/
  longest : Nat
  /-- The lengths of all chains together. -/
  total : Nat
  /-- How many chains have the length zero, one and so on; the last count is of all that
  are at least that long. -/
  histogram : Vector Nat 50

namespace Chains

/-- The last length that is counted, together with all greater ones. -/
def lastLength : Nat := 49

/-- Nothing seen yet of an array. -/
def start (size used : Nat) : Chains := ⟨size, used, 0, 0, 0, Vector.replicate 50 0⟩

/-- Takes one more chain into account. -/
def add (c : Chains) (length : Nat) : Chains :=
  let slot := min length lastLength
  have inside : slot < 50 := Nat.lt_of_le_of_lt (Nat.min_le_right ..) (by decide)
  let histogram := c.histogram.set slot (c.histogram[slot] + 1)
  if length = 0 then
    { c with histogram := histogram }
  else
    { c with
      histogram := histogram
      slots := c.slots + 1
      total := c.total + length
      longest := max c.longest length }

/-- The chains of an array. If it has no entries they are not looked at. -/
def ofBuckets {κ ν : Type} (t : Buckets κ ν) : Chains :=
  if t.used = 0 then start t.size t.used
  else t.chains.foldl (fun c chain => c.add chain.length) (start t.size t.used)

/-- The line for chains of one length, if there are any. The size is a power of two, so
the share in percent is exact until it is rounded to two places. -/
def histogramLine (size length count : Nat) : String :=
  if count = 0 then
    ""
  else
    let least := if length = lastLength then ">= " else ""
    s!"   {least}{length}: {count} ({(Double.ofRatio (100 * count) size).toFixed 2}%)\n"

/-- The section of the report on the array of one side. -/
def text (c : Chains) (s : Side) : String :=
  if c.used = 0 then
    "No stats available for empty dictionaries\n"
  else
    let title := match s with
      | .main => "Hash table 0 stats (main hash table):\n"
      | .target => "Hash table 1 stats (rehashing target):\n"
    title
      ++ s!" table size: {c.size}\n"
      ++ s!" number of elements: {c.used}\n"
      ++ s!" different slots: {c.slots}\n"
      ++ s!" max chain length: {c.longest}\n"
      ++ s!" avg chain length (counted): {(Double.ofRatio c.total c.slots).toFixed 2}\n"
      ++ s!" avg chain length (computed): {(Double.ofRatio c.used c.slots).toFixed 2}\n"
      ++ " Chain length distribution:\n"
      ++ String.join (c.histogram.toList.mapIdx fun length count =>
          histogramLine c.size length count)

end Chains

namespace Dictionary

variable {κ ν : Type}

/-- The arrays in use, with what there is to say about their chains. -/
def chains (d : Dictionary κ ν) : List (Side × Chains) :=
  if d.migrating then
    [(.main, .ofBuckets d.main), (.target, .ofBuckets d.target)]
  else
    [(.main, .ofBuckets d.main)]

/-- The report on the chains. -/
def report (d : Dictionary κ ν) : String :=
  String.join (d.chains.map fun (s, c) => c.text s)

/-! ## One line -/

/-- The sizes of a dictionary, in one line. -/
def summary (d : Dictionary κ ν) : String :=
  let frontier := match d.frontier with
    | some next => s!"Some({next})"
    | none => "None"
  "Dict \x7b len: " ++ toString d.size
    ++ s!", sizes: [{d.main.size}, {d.target.size}], rehash_idx: " ++ frontier
    ++ ", iterators: " ++ toString d.walks ++ " \x7d"

end Dictionary

/-- A value as text, where `object` writes objects. -/
def Value.text {ν : Type} (object : ν → String) : Value ν → String
  | .object v => s!"Obj({object v})"
  | .signed n => s!"Signed({n.toInt})"
  | .unsigned n => s!"Unsigned({n.toNat})"
  | .double x => s!"Double({x.text})"

/-- An entry as text. -/
def Binding.text {κ ν : Type} (key : κ → String) (object : ν → String) (b : Binding κ ν) :
    String :=
  s!"<{key b.key}, {b.value.text object}>"

end TwinTable
