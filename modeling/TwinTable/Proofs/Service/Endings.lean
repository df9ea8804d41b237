/-
How a session ends, and who is left without an answer.

A call that reads runs what it has read only if it ends because nothing more is there yet. If
the stream ends in the same call, the requests that the call brought are dropped with it
(`Served.read_to_end`). And a call that comes upon bytes that cannot become a request has
run the requests in front of them, but does not write their answers (`Served.read_malformed`).

So at its end, and only there, what a session does to a stream depends on the pieces in which
the stream comes. Nobody is left out if the last call brought no request of its own.
-/
import TwinTable.Proofs.Service.Stream
import TwinTable.Proofs.Wire.RoundTrip

set_option autoImplicit false

namespace TwinTable.Service

open Wire

variable {σ : Type}

/-! ## Answers that are missing -/

theorem Store.answerBytes_eq_empty_iff (s : Store σ) {requests : List (List String)} :
    s.answerBytes requests = .empty ↔ requests = [] := by
  constructor
  · intro h
    cases requests with
    | nil => rfl
    | cons request requests =>
      -- an answer has a header at least
      have hsize := congrArg ByteArray.size h
      have hheader : Response.headerSize = 8 := rfl
      rw [answerBytes, answerAll_cons, List.map_cons, joined_cons, ByteArray.size_append,
        Response.size_encode, ByteArray.size_empty] at hsize
      omega
  · rintro rfl
    rfl

/-- An answer that is left out is missed. -/
theorem Store.answerBytes_append_eq_iff (s : Store σ) (front back : List (List String)) :
    s.answerBytes front = s.answerBytes (front ++ back) ↔ back = [] := by
  rw [answerBytes_append, ← (s.answerAll front).2.answerBytes_eq_empty_iff]
  constructor
  · intro h
    have hsize := congrArg ByteArray.size h
    rw [ByteArray.size_append] at hsize
    exact ByteArray.size_eq_zero_iff.mp (by omega)
  · intro h
    rw [h, ByteArray.append_empty]

theorem Session.requestsIn_joined {rest : ByteArray} {e : FrameError}
    (hrest : Request.decode rest = .error e) {requests : List (List String)}
    (hlimited : ∀ request ∈ requests, Request.Limited request) :
    requestsIn (joined (requests.map Request.encode) ++ rest) = requests := by
  rw [requestsIn, Request.decodeAll_joined hrest requests hlimited, List.map_map]
  exact List.map_id _

/-! ## Reading to the end -/

/-- An attempt to read after which there is another. -/
def ReadOutcome.GoesOn : ReadOutcome → Prop
  | .bytes _ | .interrupted => True
  | _ => False

namespace Session

theorem drain_of_goesOn {front : List ReadOutcome} (back : List ReadOutcome)
    (h : ∀ outcome ∈ front, outcome.GoesOn) : ∀ before : ByteArray,
    drain before (front ++ back) = drain (drain before front).1 back := by
  induction front with
  | nil => intro before; rfl
  | cons outcome front ih =>
    intro before
    have hrest := ih fun x hx => h x (List.mem_cons_of_mem _ hx)
    cases outcome with
    | bytes piece => exact hrest (before ++ piece)
    | interrupted => exact hrest before
    | wouldBlock | endOfStream | failed => exact absurd (h _ List.mem_cons_self) id

theorem drain_piece (piece : ByteArray) :
    drain .empty [.bytes piece] = (piece, .nothingYet) :=
  Prod.ext ByteArray.empty_append rfl

theorem ending_of_goesOn {reads : List ReadOutcome} (h : ∀ outcome ∈ reads, outcome.GoesOn) :
    (drain .empty reads).2 = .nothingYet := by
  have hall := drain_of_goesOn [] h .empty
  rw [List.append_nil] at hall
  rw [hall]
  rfl

variable {c : Session} {reads : List ReadOutcome}

/-- **A call that meets the end of the stream** runs nothing and writes nothing. -/
theorem onRead_of_endOfStream (socket : WriteOutcome) (s : Store σ) (hr : c.phase = .reading)
    (hend : (drain .empty reads).2 = .endOfStream) :
    (c.onRead reads socket s).1.session.phase = .closing ∧
      (c.onRead reads socket s).1.written = .empty ∧ (c.onRead reads socket s).2 = s := by
  rw [onRead, if_neg (by simp [hr]), drain_append, hend]
  exact ⟨rfl, rfl, rfl⟩

/-- **A call that meets bytes that cannot become a request** runs what is in front of them, and
writes nothing. -/
theorem onRead_of_malformed (socket : WriteOutcome) (s : Store σ) (hr : c.phase = .reading)
    (hend : (drain .empty reads).2 = .nothingYet)
    (hstop : (serve (c.incoming ++ (drain .empty reads).1) s).stop = .malformed) :
    (c.onRead reads socket s).1.session.phase = .closing ∧
      (c.onRead reads socket s).1.written = .empty ∧
      (c.onRead reads socket s).2 =
        (serve (c.incoming ++ (drain .empty reads).1) s).answers.store := by
  rw [onRead, if_neg (by simp [hr]), drain_append, hend]
  dsimp only
  rw [if_pos hstop]
  exact ⟨rfl, rfl, rfl⟩

/-- A socket that takes everything leaves the session reading. -/
theorem phase_onWrite_of_room {room : Nat} (hw : c.phase = .writing) (hne : c.outgoing ≠ .empty)
    (hroom : c.outgoing.size ≤ room) : (c.onWrite (.upTo room)).session.phase = .reading := by
  have hsome : ¬ c.outgoing.isEmpty = true := fun h => hne (isEmpty_iff.mp h)
  have hsize : ¬ c.outgoing.size = 0 := fun h => hne (ByteArray.size_eq_zero_iff.mp h)
  rw [onWrite.eq_def, if_neg (by simp [hw, hsome])]
  dsimp only
  rw [Nat.min_eq_right hroom, if_neg hsize, ByteArray.extract_same]
  rfl

/-- A call that has nothing to complain about ends as it began, if the socket has room. -/
theorem phase_onRead_of_room {s : Store σ} {room : Nat} (hc : c.Balanced) (hr : c.phase = .reading)
    (hend : (drain .empty reads).2 = .nothingYet)
    (hstop : (serve (c.incoming ++ (drain .empty reads).1) s).stop ≠ .malformed)
    (hroom : (serve (c.incoming ++ (drain .empty reads).1) s).answers.bytes.size ≤ room) :
    (c.onRead reads (.upTo room) s).1.session.phase = .reading := by
  rw [onRead, if_neg (by simp [hr]), drain_append, hend]
  dsimp only
  rw [hc.idle hr, ByteArray.empty_append, if_neg hstop]
  split
  · exact hr
  · rename_i hsome
    exact phase_onWrite_of_room rfl (fun h => hsome (isEmpty_iff.mpr h)) hroom

end Session

namespace Exchange

variable {s : Store σ} {x : Exchange σ}

theorem served_of_reading (run : Steps (start s) x) (hr : x.session.phase = .reading) :
    Served s x :=
  served_of_steps run (by rw [hr]; exact Phase.noConfusion)

/-- Of a call that meets the end of the stream there is nothing to be seen, even if it brought
requests. -/
theorem Served.read_to_end (hx : Served s x) (hr : x.session.phase = .reading)
    {reads : List ReadOutcome} (hend : (drain .empty reads).2 = .endOfStream)
    (socket : WriteOutcome) :
    (x.read reads socket).session.phase = .closing ∧
      (x.read reads socket).store = (s.answerAll (Session.requestsIn x.received)).2 ∧
      (x.read reads socket).sent = s.answerBytes (Session.requestsIn x.received) := by
  obtain ⟨hphase, hwritten, hstore⟩ :=
    Session.onRead_of_endOfStream socket x.store hr hend
  refine ⟨hphase, hstore.trans hx.store, ?_⟩
  change x.sent ++ (x.session.onRead reads socket x.store).1.written = _
  rw [hwritten, ByteArray.append_empty, hx.sent_eq hr]

/-- A call that meets bytes that cannot become a request leaves the requests that it brought
without an answer, although it runs them. -/
theorem Served.read_malformed (hx : Served s x) (hr : x.session.phase = .reading)
    (reads : List ReadOutcome) (hend : (drain .empty reads).2 = .nothingYet)
    (hstop : (Request.decodeAll (x.received ++ (drain .empty reads).1)).2.1 = .malformed)
    (socket : WriteOutcome) :
    (x.read reads socket).session.phase = .closing ∧
      (x.read reads socket).store =
        (s.answerAll (Session.requestsIn (x.received ++ (drain .empty reads).1))).2 ∧
      (x.read reads socket).sent = s.answerBytes (Session.requestsIn x.received) := by
  obtain ⟨hreason, -, hafter, -⟩ := hx.serve_eq (drain .empty reads).1
  obtain ⟨hphase, hwritten, hstore⟩ :=
    Session.onRead_of_malformed socket x.store hr hend (hreason.trans hstop)
  refine ⟨hphase, hstore.trans hafter, ?_⟩
  change x.sent ++ (x.session.onRead reads socket x.store).1.written = _
  rw [hwritten, ByteArray.append_empty, hx.sent_eq hr]

/-- Any other call leaves the session reading, if the socket has room for all answers. -/
theorem Served.read_with_room (hx : Served s x) (hr : x.session.phase = .reading)
    (reads : List ReadOutcome) (hend : (drain .empty reads).2 = .nothingYet)
    (hstop : (Request.decodeAll (x.received ++ (drain .empty reads).1)).2.1 ≠ .malformed)
    {room : Nat}
    (hroom : (s.answerBytes (Session.requestsIn
      (x.received ++ (drain .empty reads).1))).size ≤ room) :
    (x.read reads (.upTo room)).session.phase = .reading := by
  obtain ⟨hreason, -, -, hbytes⟩ := hx.serve_eq (drain .empty reads).1
  rw [hbytes, ByteArray.size_append] at hroom
  exact Session.phase_onRead_of_room hx.balanced hr hend (hreason ▸ hstop) (by omega)

/-! ## The end of the stream -/

/-- **Requests that come together with the end of the stream are lost.** Let a session that is
reading be sent the last of a stream of requests. If the end of the stream is met in a later
call, whatever the socket did and however often it had to be called in between, all requests
were run and answered. That happens: a socket with room for the answers leaves the session
reading again. But if the end is met in the same call, only the requests of earlier calls were.
So the two agree exactly if the last call brought none of its own. -/
theorem answered_at_end_of_stream (run : Steps (start s) x)
    (isReading : x.session.phase = .reading) {reads : List ReadOutcome}
    (goOn : ∀ outcome ∈ reads, outcome.GoesOn)
    {requests : List (List String)} (limited : ∀ request ∈ requests, Request.Limited request)
    (isStream : x.received ++ (drain .empty reads).1 = joined (requests.map Request.encode))
    (socket socket' : WriteOutcome) :
    let earlier := Session.requestsIn x.received
    let together := x.read (reads ++ [.endOfStream]) socket
    (∀ y, Steps (x.read reads socket) y → y.session.phase = .reading →
      y.received = (x.read reads socket).received →
        (y.read [.endOfStream] socket').store = (s.answerAll requests).2 ∧
          (y.read [.endOfStream] socket').sent = s.answerBytes requests) ∧
      (∀ room, (s.answerBytes requests).size ≤ room →
        (x.read reads (.upTo room)).session.phase = .reading) ∧
      (∃ last, requests = earlier ++ last ∧ together.session.phase = .closing ∧
        together.store = (s.answerAll earlier).2 ∧ together.sent = s.answerBytes earlier ∧
        (together.sent = s.answerBytes requests ↔ last = [])) := by
  intro earlier together
  have hx := served_of_reading run isReading
  have hstream : Session.requestsIn (x.received ++ (drain .empty reads).1) = requests := by
    rw [isStream, ← ByteArray.append_empty (b := joined _)]
    exact Session.requestsIn_joined Request.decode_empty limited
  refine ⟨fun y hafter hy hsame => ?_, fun room hroom => ?_, ?_⟩
  · have hrun : Steps (start s) y := (run.tail (.read isReading reads socket)).trans hafter
    have hserved := served_of_reading hrun hy
    have hend : (drain .empty [.endOfStream]).2 = .endOfStream := rfl
    obtain ⟨-, hstore, hsent⟩ := hserved.read_to_end hy hend socket'
    have hall : Session.requestsIn y.received = requests := by
      rw [hsame]
      exact hstream
    rw [hall] at hstore hsent
    exact ⟨hstore, hsent⟩
  · refine hx.read_with_room isReading reads (Session.ending_of_goesOn goOn) ?_ (hstream ▸ hroom)
    have hstop := Request.decodeAll_joined Request.decode_empty requests limited
    rw [ByteArray.append_empty] at hstop
    rw [isStream, hstop]
    exact FrameError.noConfusion
  · have hend : (drain .empty (reads ++ [.endOfStream])).2 = .endOfStream := by
      rw [Session.drain_of_goesOn _ goOn]
      rfl
    obtain ⟨hphase, hstore, hsent⟩ := hx.read_to_end isReading hend socket
    refine ⟨_, hstream.symm.trans (hx.requestsIn_append _), hphase, hstore, hsent, ?_⟩
    rw [hsent, ← hstream, hx.requestsIn_append]
    exact s.answerBytes_append_eq_iff _ _

/-- The look-up comes together with the end of the stream, but for its first two bytes: the
request before it is answered, the look-up is not. -/
theorem answered_at_end_of_stream_of_set_and_get :
    let s := Store.empty .standard 1 WordSource.splitMix 0
    let requests := [["set", "a", "1"], ["get", "a"]]
    let x := (start s).read [.bytes (Request.encode ["set", "a", "1"] ++ ⟨#[0, 0]⟩)] (.upTo 100)
    let reads : List ReadOutcome := [.bytes ((Request.encode ["get", "a"]).extract 2 16)]
    Steps (start s) x ∧ x.session.phase = .reading ∧ (∀ outcome ∈ reads, outcome.GoesOn) ∧
      (∀ request ∈ requests, Request.Limited request) ∧
      x.received ++ (drain .empty reads).1 = joined (requests.map Request.encode) ∧
      (x.read (reads ++ [.endOfStream]) (.upTo 100)).sent =
        s.answerBytes (Session.requestsIn x.received) := by
  intro s requests x reads
  have run : Steps (start s) x := Relation.ReflTransGen.refl.tail (.read rfl _ _)
  have isReading : x.session.phase = .reading := by decide +kernel
  have goOn : ∀ outcome ∈ reads, outcome.GoesOn := by
    intro outcome houtcome
    rw [List.mem_singleton.mp houtcome]
    exact trivial
  have limited : ∀ request ∈ requests, Request.Limited request := by
    simp only [requests, List.mem_cons, List.not_mem_nil, or_false, forall_eq_or_imp, forall_eq]
    exact ⟨⟨by decide, by decide⟩, ⟨by decide, by decide⟩⟩
  have isStream : x.received ++ (drain .empty reads).1 = joined (requests.map Request.encode) := by
    decide +kernel
  obtain ⟨-, -, -, -, -, -, hsent, -⟩ :=
    answered_at_end_of_stream run isReading goOn limited isStream (.upTo 100) (.upTo 100)
  exact ⟨run, isReading, goOn, limited, isStream, hsent⟩

/-- A value is set and looked up, and nothing follows. If the session learns of the end only
later, both requests are answered, otherwise none is run. -/
theorem lost_at_end_of_stream :
    let s := Store.empty .standard 1 WordSource.splitMix 0
    let stream := joined ([["set", "a", "1"], ["get", "a"]].map Request.encode)
    let apart := ((start s).read [.bytes stream] (.upTo 100)).read [.endOfStream] (.upTo 100)
    let together := (start s).read [.bytes stream, .endOfStream] (.upTo 100)
    apart.sent = ⟨#[0, 0, 0, 9, 0, 0, 0, 0, 0x31, 0, 0, 0, 9, 0, 0, 0, 0, 0x31]⟩ ∧
      apart.store.size = 1 ∧ together.sent = .empty ∧ together.store.size = 0 := by
  decide +kernel

/-! ## Bytes that cannot become a request -/

/-- Reads pieces of a stream, in a call for each, on a socket that has room. -/
def readPieces (room : Nat) (x : Exchange σ) (pieces : List ByteArray) : Exchange σ :=
  pieces.foldl (fun x piece => x.read [.bytes piece] (.upTo room)) x

theorem readPieces_append (room : Nat) (x : Exchange σ) (front back : List ByteArray) :
    x.readPieces room (front ++ back) = (x.readPieces room front).readPieces room back :=
  List.foldl_append

theorem readPieces_cons (room : Nat) (x : Exchange σ) (piece : ByteArray)
    (pieces : List ByteArray) :
    x.readPieces room (piece :: pieces) =
      (x.read [.bytes piece] (.upTo room)).readPieces room pieces := rfl

/-- A session that was given up does nothing. -/
theorem readPieces_of_closing (room : Nat) (pieces : List ByteArray) : ∀ x : Exchange σ,
    x.session.phase = .closing →
      (x.readPieces room pieces).session = x.session ∧
        (x.readPieces room pieces).store = x.store ∧
        (x.readPieces room pieces).sent = x.sent := by
  induction pieces with
  | nil => intro x _; exact ⟨rfl, rfl, rfl⟩
  | cons piece pieces ih =>
    intro x hx
    have hcall : x.read [.bytes piece] (.upTo room) =
        { x with received := x.received ++ piece } := by
      rw [read, Session.onRead, if_pos (by simp [hx]), Session.drain_piece]
      exact congrArg (Exchange.mk x.session x.store _) ByteArray.append_empty
    rw [readPieces_cons, hcall]
    exact ih _ hx

/-- While its bytes can all become requests, a stream of pieces keeps the session reading. -/
theorem readPieces_of_waiting (s : Store σ) {room : Nat} (pieces : List ByteArray) :
    (Request.decodeAll (joined pieces)).2.1 ≠ .malformed →
      (s.answerBytes (Session.requestsIn (joined pieces))).size ≤ room →
      Steps (start s) ((start s).readPieces room pieces) ∧
        ((start s).readPieces room pieces).session.phase = .reading ∧
        ((start s).readPieces room pieces).received = joined pieces := by
  -- induction on the pieces, from the last; what the others hold is in front of it
  induction pieces using List.reverseRecOn with
  | nil => exact fun _ _ => ⟨.refl, rfl, rfl⟩
  | append_singleton pieces piece ih =>
    intro hwaiting hroom
    rw [joined_append, joined_cons, joined_nil, ByteArray.append_empty] at hwaiting hroom ⊢
    have hearlier : (Request.decodeAll (joined pieces)).2.1 ≠ .malformed := by
      intro hmalformed
      rw [Request.decodeAll_append_of_malformed piece hmalformed] at hwaiting
      exact hwaiting rfl
    have hless : (s.answerBytes (Session.requestsIn (joined pieces))).size ≤ room := by
      refine Nat.le_trans ?_ hroom
      rw [Session.requestsIn, Session.requestsIn, Request.decodeAll_append, List.map_append,
        Store.answerBytes_append, ByteArray.size_append]
      exact Nat.le_add_right _ _
    obtain ⟨hrun, hr, hreceived⟩ := ih hearlier hless
    have hx := served_of_reading hrun hr
    have hcall := hx.read_with_room hr [.bytes piece] rfl
    rw [Session.drain_piece, hreceived] at hcall
    have hlast : (start s).readPieces room (pieces ++ [piece]) =
        ((start s).readPieces room pieces).read [.bytes piece] (.upTo room) :=
      readPieces_append room _ pieces [piece]
    rw [hlast]
    refine ⟨hrun.tail (.read hr _ _), hcall hwaiting hroom, ?_⟩
    change ((start s).readPieces room pieces).received ++ (drain .empty [.bytes piece]).1 = _
    rw [Session.drain_piece, hreceived]

/-- Of the pieces of a stream that is malformed, one makes it so. -/
theorem exists_malformed_piece (pieces : List ByteArray) :
    (Request.decodeAll (joined pieces)).2.1 = .malformed →
      ∃ before piece after, pieces = before ++ piece :: after ∧
        (Request.decodeAll (joined before)).2.1 ≠ .malformed ∧
        (Request.decodeAll (joined before ++ piece)).2.1 = .malformed := by
  induction pieces using List.reverseRecOn with
  | nil => exact fun h => FrameError.noConfusion h
  | append_singleton pieces last ih =>
    intro hmalformed
    rw [joined_append, joined_cons, joined_nil, ByteArray.append_empty] at hmalformed
    by_cases hearlier : (Request.decodeAll (joined pieces)).2.1 = .malformed
    · obtain ⟨before, piece, after, rfl, hwaiting, hpiece⟩ := ih hearlier
      exact ⟨before, piece, after ++ [last], by simp, hwaiting, hpiece⟩
    · exact ⟨pieces, last, [], rfl, hearlier, hmalformed⟩

/-- **Requests that come together with bytes that cannot become one are not answered.** Let a
stream be requests and then bytes that cannot become one, and let it come in any pieces, a
piece in each call, on a socket with room for all answers. The session runs all the requests
and is given up. But it has written only the answers to those that were there before the call
that comes upon the other bytes. So the answers are all there exactly if that call brought no
request of its own. -/
theorem answered_before_malformed (s : Store σ) {requests : List (List String)}
    (limited : ∀ request ∈ requests, Request.Limited request) {bad : ByteArray}
    (isMalformed : Request.decode bad = .error .malformed) {pieces : List ByteArray}
    (isStream : joined pieces = joined (requests.map Request.encode) ++ bad) {room : Nat}
    (hasRoom : (s.answerBytes requests).size ≤ room) :
    let x := (start s).readPieces room pieces
    x.session.phase = .closing ∧ x.store = (s.answerAll requests).2 ∧
      ∃ before piece after last, pieces = before ++ piece :: after ∧
        (Request.decodeAll (joined before)).2.1 ≠ .malformed ∧
        (Request.decodeAll (joined before ++ piece)).2.1 = .malformed ∧
        requests = Session.requestsIn (joined before) ++ last ∧
        x.sent = s.answerBytes (Session.requestsIn (joined before)) ∧
        (x.sent = s.answerBytes requests ↔ last = []) := by
  intro x
  have hall := Request.decodeAll_joined isMalformed requests limited
  obtain ⟨before, piece, after, rfl, hwaiting, hmalformed⟩ :=
    exists_malformed_piece pieces (by rw [isStream, hall])
  -- what comes behind the piece adds no request, so all requests are in front of its end
  have hrequests : Session.requestsIn (joined before ++ piece) = requests := by
    have hstream : joined before ++ piece ++ joined after =
        joined (requests.map Request.encode) ++ bad := by
      rw [← isStream, joined_append, joined_cons, ByteArray.append_assoc]
    rw [← Session.requestsIn_joined isMalformed limited, ← hstream, Session.requestsIn,
      Session.requestsIn, Request.decodeAll_append_of_malformed _ hmalformed]
  have hsplit : requests = Session.requestsIn (joined before) ++
      Session.requestsIn ((Request.decodeAll (joined before)).2.2 ++ piece) := by
    rw [← hrequests, Session.requestsIn, Request.decodeAll_append, List.map_append]
    rfl
  have hroom : (s.answerBytes (Session.requestsIn (joined before))).size ≤ room := by
    rw [hsplit, Store.answerBytes_append, ByteArray.size_append] at hasRoom
    omega
  obtain ⟨hrun, hr, hreceived⟩ := readPieces_of_waiting s before hwaiting hroom
  have hserved := served_of_reading hrun hr
  have hcall := hserved.read_malformed hr [.bytes piece] rfl
  rw [Session.drain_piece, hreceived, hrequests] at hcall
  obtain ⟨hphase, hstore, hsent⟩ := hcall hmalformed (.upTo room)
  -- after that the session does nothing
  have hx : x = (((start s).readPieces room before).read [.bytes piece] (.upTo room)).readPieces
      room after := readPieces_append room _ before (piece :: after)
  obtain ⟨hsession, hkept, hwritten⟩ := readPieces_of_closing room after _ hphase
  rw [← hx] at hsession hkept hwritten
  rw [hsent] at hwritten
  refine ⟨hsession ▸ hphase, hkept.trans hstore, before, piece, after, _, rfl, hwaiting,
    hmalformed, hsplit, hwritten, ?_⟩
  rw [hwritten]
  nth_rewrite 1 [hsplit]
  exact s.answerBytes_append_eq_iff _ _

/-- The bytes that are no request come in a second piece, but for the first of them. -/
theorem answered_before_malformed_of_set :
    let s := Store.empty .standard 1 WordSource.splitMix 0
    let requests := [["set", "a", "1"]]
    let pieces := [Request.encode ["set", "a", "1"] ++ ⟨#[255]⟩, ⟨#[255, 255, 255]⟩]
    (∀ request ∈ requests, Request.Limited request) ∧
      Request.decode ⟨#[255, 255, 255, 255]⟩ = .error .malformed ∧
      joined pieces = joined (requests.map Request.encode) ++ ⟨#[255, 255, 255, 255]⟩ ∧
      (s.answerBytes requests).size ≤ 100 ∧
      ((start s).readPieces 100 pieces).store = (s.answerAll requests).2 := by
  intro s requests pieces
  have limited : ∀ request ∈ requests, Request.Limited request := by
    intro request hrequest
    rw [List.mem_singleton.mp hrequest]
    exact ⟨by decide, by decide⟩
  have isMalformed : Request.decode ⟨#[255, 255, 255, 255]⟩ = .error .malformed := by
    decide +kernel
  have isStream : joined pieces =
      joined (requests.map Request.encode) ++ ⟨#[255, 255, 255, 255]⟩ := by
    decide +kernel
  have hasRoom : (s.answerBytes requests).size ≤ 100 := by decide +kernel
  exact ⟨limited, isMalformed, isStream, hasRoom,
    (answered_before_malformed s limited isMalformed isStream hasRoom).2.1⟩

/-- A value is set, and bytes that announce too many arguments follow. If they come in a call
of their own, the request is answered; if not, it is only run. -/
theorem unanswered_before_malformed :
    let s := Store.empty .standard 1 WordSource.splitMix 0
    let request := Request.encode ["set", "a", "1"]
    let bad : ByteArray := ⟨#[255, 255, 255, 255]⟩
    let apart := (start s).readPieces 100 [request, bad]
    let together := (start s).readPieces 100 [request ++ bad]
    apart.sent = ⟨#[0, 0, 0, 9, 0, 0, 0, 0, 0x31]⟩ ∧ apart.store.size = 1 ∧
      together.sent = .empty ∧ together.store.size = 1 := by
  decide +kernel

end Exchange

end TwinTable.Service
