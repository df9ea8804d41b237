/-
What the library reports while it works.

A notice is data: what happened, with the numbers that matter. Its level, the part of
the library that it belongs to and its sentence are functions of it, so that the
wording stands in one place and can be left out of any argument about behaviour.
Notices are collected in the order in which things happened.
-/
import TwinTable.Dictionary.Fault
import TwinTable.Text.Quoted
import TwinTable.Wire.Frame

set_option autoImplicit false

namespace TwinTable

/-- One thing that happened. -/
inductive Notice where
  /-- Resizing was switched on. -/
  | resizingEnabled
  /-- Resizing was switched off. -/
  | resizingDisabled
  /-- A dictionary got its first buckets. -/
  | firstTable (size : Nat)
  /-- It could not get its first buckets. -/
  | firstTableRefused (reason : Fault)
  /-- Entries begin to move from one table to another. -/
  | migrationStarted (oldSize newSize used : Nat)
  /-- The last entry has moved. -/
  | migrationFinished (size used : Nat)
  /-- The time allowed for moving entries ran out after so many buckets. -/
  | migrationSuspended (buckets : Nat)
  /-- A full table does not grow because so many safe walks are open. -/
  | growthPaused (walks : Nat)
  /-- A full table does not grow because resizing is off. -/
  | growthForbidden (used size : Nat)
  /-- A full table could not grow. -/
  | growthRefused (size : Nat) (reason : Fault)
  /-- All entries of a table are about to be freed. -/
  | clearing (table size used : Nat)
  /-- A dictionary goes away while so many safe walks are open. -/
  | droppedUnderWalks (walks : Nat)
  /-- A safe walk was handed back, and so many are left. -/
  | walkReleased (left : Nat)
  /-- The background upkeep moved entries; are there more? -/
  | upkeepMoved (more : Bool)
  /-- The background upkeep shrinks a table. -/
  | shrinking (keys slots : Nat)
  /-- The background upkeep could not shrink a table. -/
  | shrinkRefused (reason : Fault)
  /-- A client will send no more; did it leave an unfinished request behind? -/
  | clientLeft (unfinished : Bool)
  /-- All that a client sent was read, and so many bytes are waiting. -/
  | buffered (bytes : Nat)
  /-- The bytes at hand are no request. -/
  | requestUnread (reason : Wire.FrameError)
  /-- A request with this first argument is about to be run. -/
  | requestTaken (command : Option String)
  /-- The socket took nothing. -/
  | wroteNothing
  /-- The socket took some of the bytes offered. -/
  | wrote (taken offered : Nat)
  /-- A connection is forgotten. -/
  | closing (token : Nat)
deriving DecidableEq, Repr

namespace Notice

/-- How much a notice matters. -/
inductive Level where
  | trace
  | debug
  | info
  | warn
deriving DecidableEq, Repr

/-- The name of a level. -/
def Level.name : Level → String
  | .trace => "TRACE"
  | .debug => "DEBUG"
  | .info => "INFO"
  | .warn => "WARN"

/-- How much a notice matters. -/
def level : Notice → Level
  | .resizingEnabled | .resizingDisabled | .firstTableRefused .. | .migrationStarted ..
  | .migrationFinished .. | .growthRefused .. | .shrinking .. | .shrinkRefused ..
  | .requestTaken .. => .debug
  | .wroteNothing => .info
  | .droppedUnderWalks .. => .warn
  | _ => .trace

/-- The part of the library that a notice belongs to. -/
def topic : Notice → String
  | .resizingEnabled | .resizingDisabled | .firstTable .. | .firstTableRefused ..
  | .growthPaused .. | .growthForbidden .. | .growthRefused .. => "resize"
  | .migrationStarted .. | .migrationFinished .. | .migrationSuspended .. => "rehash"
  | .clearing .. | .droppedUnderWalks .. => "dict"
  | .walkReleased .. => "iter"
  | .upkeepMoved .. | .shrinking .. | .shrinkRefused .. => "cron"
  | .clientLeft .. | .buffered .. => "on_read"
  | .requestUnread .. => "parse_request"
  | .requestTaken .. => "on_request"
  | .wroteNothing | .wrote .. => "on_write"
  | .closing .. => "keyspace::connection"

/-- The command of a request as it stands in a sentence. -/
def commandText : Option String → String
  | some command => s!"Some({Text.Quoted.encode command})"
  | none => "None"

/-- The sentence of a notice. -/
def sentence : Notice → String
  | .resizingEnabled => "resize enabled"
  | .resizingDisabled => "resize disabled"
  | .firstTable size => s!"allocated first table: {size} buckets"
  | .firstTableRefused reason => s!"initial allocation failed: {reason.message}"
  | .migrationStarted oldSize newSize used =>
    s!"rehash started: {oldSize} -> {newSize} buckets, {used} entries"
  | .migrationFinished size used => s!"rehash finished: {size} buckets, {used} entries"
  | .migrationSuspended buckets => s!"rehash_for: budget spent after {buckets} buckets"
  | .growthPaused walks => s!"growth deferred: {walks} safe iterators open"
  | .growthForbidden used size => s!"growth deferred: resizing disabled ({used}/{size})"
  | .growthRefused size reason => s!"growth to {size} failed: {reason.message}"
  | .clearing table size used => s!"clearing table {table}: {size} buckets, {used} entries"
  | .droppedUnderWalks walks =>
    s!"dropping dict with {walks} safe iterators never released, rehashing was paused"
  | .walkReleased left => s!"safe iterator released, {left} still open"
  | .upkeepMoved more => s!"rehash step done, more: {more}"
  | .shrinking keys slots => s!"shrinking: {keys} keys in {slots} slots"
  | .shrinkRefused reason => s!"shrink refused: {reason.message}"
  | .clientLeft true => "unexpected eof"
  | .clientLeft false => "client dropped connection"
  | .buffered bytes => s!"buffered {bytes} bytes"
  | .requestUnread reason => reason.message
  | .requestTaken command => commandText command
  | .wroteNothing => "wrote 0 bytes to buffer"
  | .wrote taken offered => s!"wrote {taken} bytes, out of {offered}"
  | .closing token => s!"closing connection {token}"

/-- The line of a notice in a log. -/
def line (n : Notice) : String :=
  s!"{n.level.name} {n.topic}: {n.sentence}"

end Notice

end TwinTable
