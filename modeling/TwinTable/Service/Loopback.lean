/-
A client and a session joined in memory, with a stream of bytes in each direction.

This is a service without a network: what the client does and what the session does are
calls, and the streams answer the session as sockets would. Bytes stay in a stream until
the other end reads them. The client's end can be shut in either direction, and the client
can leave altogether; the session can be forgotten, which shuts its end.
-/
import TwinTable.Service.Session

set_option autoImplicit false

namespace TwinTable.Service

/-- A client, a session and the streams between them. -/
structure Loopback (σ : Type) where
  /-- The session, until it is forgotten. -/
  session : Option Session
  /-- The number that the session goes by. -/
  token : Nat
  store : Store σ
  /-- Bytes that the client sent and the session has not read. -/
  toSession : ByteArray
  /-- Bytes that the session wrote and the client has not read. -/
  toClient : ByteArray
  /-- Whether the client may still send. -/
  sending : Bool
  /-- Whether the client still takes bytes. -/
  receiving : Bool
  /-- Whether the client left bytes unread when it went away, which the session has not
  been told. -/
  lost : Bool
  /-- What happened and was not collected yet. -/
  notices : Array Notice

namespace Loopback

variable {σ : Type}

/-- A new session on a store. -/
def start (token : Nat) (s : Store σ) : Loopback σ where
  session := some .start
  token := token
  store := s
  toSession := .empty
  toClient := .empty
  sending := true
  receiving := true
  lost := false
  notices := #[]

/-! ## The client's end -/

/-- The client sends bytes. -/
def send (b : Loopback σ) (bytes : ByteArray) : Except SocketFault Unit × Loopback σ :=
  if bytes.isEmpty then
    (.ok (), b)
  else if b.session.isSome && b.sending then
    (.ok (), { b with toSession := b.toSession ++ bytes })
  else
    (.error .brokenPipe, b)

/-- The client sends no more. -/
def shutSending (b : Loopback σ) : Loopback σ := { b with sending := false }

/-- The client takes no more. What is on its way it can still read. -/
def shutReceiving (b : Loopback σ) : Loopback σ := { b with receiving := false }

/-- The client reads all there is. -/
def receive (b : Loopback σ) : ByteArray × Loopback σ :=
  (b.toClient, { b with toClient := .empty })

/-- The client goes away. What it sent stays to be read. -/
def leave (b : Loopback σ) : Loopback σ :=
  { b with
    sending := false
    receiving := false
    lost := b.lost || !b.toClient.isEmpty
    toClient := .empty }

/-! ## The session's end -/

/-- Bytes that a stream holds. -/
def capacity : Nat := 256 * 1024

/-- What the session's attempts to read come to. -/
def reads (b : Loopback σ) : List ReadOutcome :=
  let last :=
    if b.lost then .failed .connectionReset
    else if b.sending then .wouldBlock
    else .endOfStream
  if b.toSession.isEmpty then [last] else [.bytes b.toSession, last]

/-- What an attempt of the session to write comes to. -/
def room (b : Loopback σ) : WriteOutcome :=
  if !b.receiving then .failed .brokenPipe
  else if capacity ≤ b.toClient.size then .wouldBlock
  else .upTo (capacity - b.toClient.size)

/-- Takes in what the session did. -/
def settle (b : Loopback σ) (t : Turn) : Except SessionFault Unit × Loopback σ :=
  (t.result, { b with
    session := some t.session
    toClient := b.toClient ++ t.written
    notices := b.notices ++ t.notices })

/-- The session reads and serves. There is no result if there is no session. -/
def onRead (b : Loopback σ) : Option (Except SessionFault Unit) × Loopback σ :=
  match b.session with
  | none => (none, b)
  | some c =>
    let (t, s) := c.onRead b.reads b.room b.store
    let b := { b with store := s }
    let b := if c.phase = .reading then { b with toSession := .empty, lost := false } else b
    let (r, b) := b.settle t
    (some r, b)

/-- The session writes. -/
def onWrite (b : Loopback σ) : Option (Except SessionFault Unit) × Loopback σ :=
  match b.session with
  | none => (none, b)
  | some c =>
    let (r, b) := b.settle (c.onWrite b.room)
    (some r, b)

/-- The session is given up. Was there one? -/
def close (b : Loopback σ) : Bool × Loopback σ :=
  (b.session.isSome, { b with session := b.session.map Session.close })

/-- The session is forgotten, if it goes by this number. -/
def forget (b : Loopback σ) (token : Nat) : Loopback σ :=
  if b.session.isSome && token = b.token then
    { b with session := none, toSession := .empty, notices := b.notices.push (.closing token) }
  else
    b

/-- Lets the session write and the client read in turn, as long as the session has
something to write, at most `most` times. The bytes in `before` come first. -/
def exchange : (most : Nat) → (before : ByteArray) → Loopback σ → ByteArray × Loopback σ
  | 0, before, b => (before, b)
  | most + 1, before, b =>
    if b.session.any (·.phase = .writing) then
      let (got, b) := b.onWrite.2.receive
      exchange most (before ++ got) b
    else
      (before, b)

/-- The client reads, and goes on until the session has nothing left to write. Each time
it takes at least a byte or is given up. -/
def flush (b : Loopback σ) : ByteArray × Loopback σ :=
  let (got, b) := b.receive
  let left := match b.session with
    | some c => c.outgoing.size
    | none => 0
  exchange (left + 1) got b

/-- Collects the notices. -/
def collect (b : Loopback σ) : Array Notice × Loopback σ :=
  (b.notices, { b with notices := #[] })

end Loopback

end TwinTable.Service
