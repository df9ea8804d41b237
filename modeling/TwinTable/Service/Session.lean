/-
A session: the requests of one client, served in the order in which they came.

A session has a buffer for bytes that have come in and one for bytes that are to go out,
and is in one of three phases. While it is `reading` nothing is left to go out. Once it
has answered requests it is `writing` until all answers are gone, and does not read
meanwhile, so a client that takes no answers cannot make it hoard them. When it is
`closing`, it waits to be forgotten, and no call leads out of that.

How requests are cut into pieces on their way does not matter: a request is run when its
last byte is there. A session never blocks. What a socket did when it was asked for bytes,
or for room, is handed in as data, and what the session did comes back as a `Turn`.
-/
import TwinTable.Service.Command

set_option autoImplicit false

namespace TwinTable.Service

open Wire

/-! ## Sockets -/

/-- Why a socket failed. -/
inductive SocketFault where
  /-- The other side went away and left bytes unread. -/
  | connectionReset
  /-- The other side takes no more bytes. -/
  | brokenPipe
  | other (description : String)
deriving DecidableEq, Repr

/-- What came of one attempt to read from a socket. -/
inductive ReadOutcome where
  /-- Some bytes. -/
  | bytes (piece : ByteArray)
  /-- Nothing, for no fault of the socket. -/
  | interrupted
  /-- Nothing, as no more has come yet. -/
  | wouldBlock
  /-- Nothing, as no more will come. -/
  | endOfStream
  | failed (reason : SocketFault)

/-- What comes of an attempt to write to a socket. -/
inductive WriteOutcome where
  /-- It takes the bytes offered, up to a number of them. -/
  | upTo (most : Nat)
  /-- It has no room yet. -/
  | wouldBlock
  | failed (reason : SocketFault)
deriving DecidableEq, Repr

/-- Why reading from a socket came to an end. -/
inductive Ending where
  /-- No more has come yet. -/
  | nothingYet
  /-- No more will come. -/
  | endOfStream
  | failed (reason : SocketFault)
deriving DecidableEq, Repr

/-- Reads until there is nothing to be had. The bytes in `before` come first. -/
def drain : (before : ByteArray) → List ReadOutcome → ByteArray × Ending
  | before, [] => (before, .nothingYet)
  | before, .bytes piece :: rest => drain (before ++ piece) rest
  | before, .interrupted :: rest => drain before rest
  | before, .wouldBlock :: _ => (before, .nothingYet)
  | before, .endOfStream :: _ => (before, .endOfStream)
  | before, .failed reason :: _ => (before, .failed reason)

/-! ## Sessions -/

/-- What a session waits for. -/
inductive Phase where
  | reading
  | writing
  | closing
deriving DecidableEq, Repr

/-- The serving of one client. -/
structure Session where
  phase : Phase
  /-- Bytes read that were not run as a request. -/
  incoming : ByteArray
  /-- Bytes of answers that were not written. -/
  outgoing : ByteArray

/-- Why a call to a session gives an error. -/
inductive SessionFault where
  /-- The session is not in the phase for this call. -/
  | misuse
  /-- The socket failed. -/
  | socket (reason : SocketFault)
deriving DecidableEq, Repr

/-- What a session did in one call. -/
structure Turn where
  result : Except SessionFault Unit
  /-- The bytes that the socket took. -/
  written : ByteArray
  /-- What happened, in order. -/
  notices : Array Notice
  /-- The session after the call. -/
  session : Session

namespace Session

variable {σ : Type}

/-- A session that has read nothing yet. -/
def start : Session := ⟨.reading, .empty, .empty⟩

/-- Gives the session up. -/
def close (c : Session) : Session := { c with phase := .closing }

/-! ## Running requests -/

/-- Answers to requests, and the store after them. -/
structure Answers (σ : Type) where
  bytes : ByteArray
  notices : Array Notice
  store : Store σ

/-- Runs one more request. -/
def Answers.add (a : Answers σ) (arguments : List String) : Answers σ :=
  let (response, s) := a.store.answer arguments
  let (notices, s) := s.collect
  ⟨a.bytes ++ response.encode, a.notices.push (.requestTaken arguments.head?) ++ notices, s⟩

/-- What was made of the bytes that have come in. -/
structure Served (σ : Type) where
  answers : Answers σ
  /-- The bytes behind the last request that was run. -/
  rest : ByteArray
  /-- Why these are no request. -/
  stop : FrameError

/-- Runs every request that is there as a whole. -/
def serve (incoming : ByteArray) (s : Store σ) : Served σ :=
  let (requests, stop, rest) := Request.decodeAll incoming
  ⟨requests.foldl (fun a request => a.add request.1) ⟨.empty, #[], s⟩, rest, stop⟩

/-- The notices of what was served. Bytes that are no request are reported; that there are
no bytes left is not. -/
def Served.notices (v : Served σ) : Array Notice :=
  if v.rest.isEmpty then v.answers.notices
  else v.answers.notices.push (.requestUnread v.stop)

/-! ## The two calls -/

/-- Offers the socket what is to go out. -/
def onWrite (c : Session) (socket : WriteOutcome) : Turn :=
  if c.phase ≠ .writing || c.outgoing.isEmpty then
    ⟨.error .misuse, .empty, #[], c⟩
  else
    match socket with
    | .wouldBlock => ⟨.ok (), .empty, #[], c⟩
    | .failed reason => ⟨.error (.socket reason), .empty, #[], c.close⟩
    | .upTo most =>
      let offered := c.outgoing.size
      let taken := min most offered
      if taken = 0 then
        ⟨.ok (), .empty, #[.wroteNothing], c.close⟩
      else
        let left := c.outgoing.extract taken offered
        let phase := if left.isEmpty then .reading else .writing
        ⟨.ok (), c.outgoing.extract 0 taken, #[.wrote taken offered],
          { c with phase := phase, outgoing := left }⟩

/-- Reads what the socket has, runs the requests in it, and offers their answers at once.
A client that will send no more is not answered any more, and neither is one that sent
something that cannot become a request. -/
def onRead (c : Session) (reads : List ReadOutcome) (socket : WriteOutcome) (s : Store σ) :
    Turn × Store σ :=
  if c.phase ≠ .reading then
    (⟨.error .misuse, .empty, #[], c⟩, s)
  else
    let (incoming, ending) := drain c.incoming reads
    let c := { c with incoming := incoming }
    match ending with
    | .endOfStream =>
      (⟨.ok (), .empty, #[.clientLeft (!incoming.isEmpty)], c.close⟩, s)
    | .failed reason => (⟨.error (.socket reason), .empty, #[], c.close⟩, s)
    | .nothingYet =>
      let v := serve incoming s
      let c := { c with incoming := v.rest, outgoing := c.outgoing ++ v.answers.bytes }
      let notices := #[.buffered incoming.size] ++ v.notices
      if v.stop = .malformed then
        (⟨.ok (), .empty, notices, c.close⟩, v.answers.store)
      else if c.outgoing.isEmpty then
        (⟨.ok (), .empty, notices, c⟩, v.answers.store)
      else
        let t := { c with phase := .writing }.onWrite socket
        ({ t with notices := notices ++ t.notices }, v.answers.store)

end Session

end TwinTable.Service
