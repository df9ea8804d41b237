/-
The settings of a service, read from named variables.

Variables whose names begin with `KEYSPACE_` are settings; every other variable is
none of our business. A setting's value is trimmed before it is read. Settings are
taken in the order they come, and the first that is unknown or cannot be read stops
the reading: what came before it stays in force.
-/
import TwinTable.Service.Endpoint
import TwinTable.Text.Blank
import TwinTable.Text.Numeral

set_option autoImplicit false

namespace TwinTable.Service

/-- What a service can be told. -/
structure Options where
  /-- Where it listens. -/
  endpoint : Endpoint
  /-- How many times a second the background upkeep runs. -/
  frequency : Nat
  /-- For how many milliseconds one run of the upkeep may move entries. -/
  patience : Nat
deriving DecidableEq

/-- Why a variable could not be taken as a setting. -/
inductive OptionFault where
  /-- The setting exists, but its trimmed value is not one of its values. -/
  | invalidValue (name value : String)
  /-- There is no such setting. -/
  | unknownKey (name : String)
deriving DecidableEq, Repr

/-- What is wrong, in words. -/
def OptionFault.cause : OptionFault → String
  | .invalidValue name value => s!"invalid value for {name}: {value}"
  | .unknownKey name => s!"unknown config key: {name}"

/-- What the service says when it cannot start for this reason. -/
def OptionFault.message (e : OptionFault) : String :=
  s!"Bad configuration: {e.cause}"

namespace Options

/-- Port 8080 of this machine, ten runs a second, one millisecond each. -/
def standard : Options where
  endpoint := ⟨.octets 127 0 0 1, 8080⟩
  frequency := 10
  patience := 1

/-- What the names of settings begin with. -/
def marker : List Char := "KEYSPACE_".toList

/-- The name of the setting that a variable gives, if it gives one. -/
def settingName? (name : String) : Option String :=
  if marker.isPrefixOf name.toList then
    some (String.ofList (name.toList.drop marker.length))
  else
    none

/-- Takes a value that was read, or reports the one that could not be. -/
def orInvalid {α : Type} (name value : String) : Option α → Except OptionFault α
  | some a => .ok a
  | none => .error (.invalidValue name value)

/-- The settings after one variable. -/
def take (o : Options) (name value : String) : Except OptionFault Options :=
  match settingName? name with
  | none => .ok o
  | some setting =>
    let value := Text.trim value
    if setting = "ADDR" then
      (orInvalid name value (Endpoint.read? value)).map fun e => { o with endpoint := e }
    else if setting = "HZ" then
      let frequency? := (Text.Numeral.read? Text.Numeral.max32 value).filter (· ≠ 0)
      (orInvalid name value frequency?).map fun n => { o with frequency := n }
    else if setting = "REHASH_MS" then
      (orInvalid name value (Text.Numeral.read? Text.Numeral.max64 value)).map fun n =>
        { o with patience := n }
    else
      .error (.unknownKey name)

/-- The settings after a list of variables, or after those before the first that
cannot be taken, with the reason. -/
def takeAll (o : Options) : List (String × String) → Options × Option OptionFault
  | [] => (o, none)
  | (name, value) :: rest =>
    match o.take name value with
    | .ok o => o.takeAll rest
    | .error e => (o, some e)

/-- The nanoseconds in a second. -/
def second : Nat := 1000000000

/-- Nanoseconds between two runs of the upkeep. -/
def period (o : Options) : Nat := second / max o.frequency 1

/-- The standard settings, changed by the variables of an environment. -/
def ofEnvironment (environment : List (String × String)) : Except OptionFault Options :=
  match standard.takeAll environment with
  | (o, none) => .ok o
  | (_, some e) => .error e

end Options

/-! ## Environments -/

/-- An environment in which a variable was set: its value is replaced where it
stands, or the variable is added at the end. -/
def setVariable (name value : String) : List (String × String) → List (String × String)
  | [] => [(name, value)]
  | (n, v) :: rest =>
    if n = name then (name, value) :: rest else (n, v) :: setVariable name value rest

/-- The environment in which variables were set one after another. -/
def environmentOf (assignments : List (String × String)) : List (String × String) :=
  assignments.foldl (fun env (name, value) => setVariable name value env) []

end TwinTable.Service
