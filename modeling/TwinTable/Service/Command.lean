/-
What a request may ask of a store, and the answer to it.

A command is recognised by its first argument and by how many there are. Whatever is no
command is refused with a sentence that says why, and does not touch the store.
-/
import TwinTable.Service.Store
import TwinTable.Text.Numeral
import TwinTable.Wire.Response

set_option autoImplicit false

namespace TwinTable.Service

open Wire

/-- A request that was understood. -/
inductive Command where
  /-- What is the value of this key? -/
  | get (key : String)
  /-- Remove this key, and tell its value. -/
  | delete (key : String)
  /-- Bind this key to this value. -/
  | set (key value : String)
  /-- How many keys are there? -/
  | size
  /-- How long are the chains? -/
  | report
  /-- Name some key. -/
  | randomKey
  /-- Name about so many keys, from this cursor on. -/
  | scan (cursor : UInt64) (count : Nat)
deriving DecidableEq, Repr

/-- Why a request is refused. -/
inductive Refusal where
  /-- There is no command of this name with this number of arguments. -/
  | unknownCommand
  /-- One of the numbers of a scan cannot be read. -/
  | badScanNumber
deriving DecidableEq, Repr

/-- The sentence that goes to the client. -/
def Refusal.message : Refusal → String
  | .unknownCommand => "unknown command"
  | .badScanNumber => "invalid cursor or count"

namespace Command

/-! ## Reading -/

/-- The number of keys that a scan asks for if it does not say. -/
def defaultCount : Nat := 10

/-- A scan from a cursor, with as many keys as `count` says; both are at most
sixty-four bits wide. -/
def scanOf (cursor : String) (count : Option String) : Except Refusal Command :=
  let count? := match count with
    | some text => Text.Numeral.read? Text.Numeral.max64 text
    | none => some defaultCount
  match Text.Numeral.read? Text.Numeral.max64 cursor, count? with
  | some cursor, some count => .ok (.scan cursor.toUInt64 count)
  | _, _ => .error .badScanNumber

/-- The command that a list of arguments gives. -/
def ofArguments : List String → Except Refusal Command
  | ["get", key] => .ok (.get key)
  | ["del", key] => .ok (.delete key)
  | ["set", key, value] => .ok (.set key value)
  | ["dbsize"] => .ok .size
  | ["stats"] => .ok .report
  | ["randomkey"] => .ok .randomKey
  | ["scan", cursor] => scanOf cursor none
  | ["scan", cursor, count] => scanOf cursor (some count)
  | _ => .error .unknownCommand

/-! ## Answering -/

variable {σ : Type}

/-- The response that hands out a text if there is one. -/
def found : Option String → Response
  | some text => .ofText Response.okay text
  | none => ⟨Response.absent, .empty⟩

/-- The response to a scan: the next cursor in decimal, then the keys. -/
def ofPage (p : Store.Page) : Response :=
  .ofTexts Response.okay (toString p.next.toNat :: p.keys)

/-- Carries a command out. A value that was set is echoed. -/
def run (c : Command) (s : Store σ) : Response × Store σ :=
  match c with
  | .get key =>
    let (value, s) := s.get key
    (found value, s)
  | .delete key =>
    let (value, s) := s.delete key
    (found value, s)
  | .set key value => (.ofText Response.okay value, (s.set key value).2)
  | .size => (.ofText Response.okay (toString s.size), s)
  | .report => (.ofText Response.okay s.report, s)
  | .randomKey =>
    let (key, s) := s.randomKey
    (found key, s)
  | .scan cursor count => (ofPage (s.page cursor count), s)

end Command

/-- The answer to a request, and the store after it. -/
def Store.answer {σ : Type} (s : Store σ) (arguments : List String) : Response × Store σ :=
  match Command.ofArguments arguments with
  | .ok c => c.run s
  | .error e => (.ofText Response.refused e.message, s)

end TwinTable.Service
