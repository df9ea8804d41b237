/-
How keys behave: where they are filed, when two of them are the same, and how keys
and values are copied on their way in.

A dictionary relies on two things that a `Keying` has to provide: `same` is an
equivalence, and keys that are the same have the same hash under every seed. Three
keyings are given here: strings, strings whose ASCII letters may be in either case,
and numbers filed under themselves.
-/
import TwinTable.Hash.Sip

set_option autoImplicit false

namespace TwinTable

/-- The behaviour of keys of type `κ` and objects of type `ν`. -/
structure Keying (κ ν : Type) where
  /-- The hash of a key under a seed. -/
  hash : Seed → κ → UInt64
  /-- Whether a key that is looked for is one that is stored. -/
  same : (sought stored : κ) → Bool
  /-- The key to store for one that was handed in. -/
  copyKey : κ → κ := id
  /-- The object to store for one that was handed in. -/
  copyValue : ν → ν := id

/-- What dictionaries that share settings have in common. -/
structure Settings where
  /-- The seed of every hash. A change of seed misplaces all keys stored before. -/
  seed : Seed
  /-- Whether tables may be resized. Growth is forced all the same once a table has
  more than five entries to a bucket. -/
  resizing : Bool
deriving DecidableEq

/-- Resizing allowed, no seed set. -/
def Settings.standard : Settings := ⟨Seed.zero, true⟩

/-- A keying together with the settings it works under. -/
structure Rules (κ ν : Type) where
  keying : Keying κ ν
  settings : Settings

/-- The hash of a key under the seed in force. -/
def Rules.hash {κ ν : Type} (r : Rules κ ν) (k : κ) : UInt64 :=
  r.keying.hash r.settings.seed k

namespace Keying

/-- The bytes of a string. -/
def bytesOf (s : String) : List UInt8 :=
  s.toUTF8.toList

/-- Whether two rows of bytes differ in the case of ASCII letters at most. -/
def sameFolded : List UInt8 → List UInt8 → Bool
  | [], [] => true
  | a :: as, b :: bs => SipHash.lowerByte a == SipHash.lowerByte b && sameFolded as bs
  | _, _ => false

/-- String keys, filed by the hash of their bytes. -/
def strings (ν : Type) : Keying String ν where
  hash s k := SipHash.hash s (bytesOf k)
  same a b := a == b

/-- String keys, where the case of an ASCII letter does not matter. -/
def foldedStrings (ν : Type) : Keying String ν where
  hash s k := SipHash.hashFolded s (bytesOf k)
  same a b := sameFolded (bytesOf a) (bytesOf b)

/-- Numbers filed under themselves, so that the low bits of a key are its bucket. -/
def numbers (ν : Type) : Keying UInt64 ν where
  hash _ k := k
  same a b := a == b

end Keying

end TwinTable
