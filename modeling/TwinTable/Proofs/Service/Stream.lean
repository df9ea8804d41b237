/-
What a session does to a stream.

`Exchange` is a session with its store and with all bytes that it ever read and wrote. Its
steps are the calls that a session allows: reading while it is reading, writing while it is
writing, giving up at any time. What the socket does in each call is open, so the client's
bytes may come cut into any pieces and its answers may leave in any.

`Exchange.Served` is what all of them keep as long as the session is open. The requests in
the bytes that were read were all run, and nothing else was; their answers are what was
written and what still has to be; and what is buffered is not yet a request. None of it
mentions a piece, so the pieces make no difference.
-/
import TwinTable.Proofs.Wire.Frames
import TwinTable.Service.Session

set_option autoImplicit false

namespace TwinTable.Service

open Wire

variable {σ : Type}

/-! ## Requests one after another -/

/-- Answers requests one after another. The notices are collected after each. -/
def Store.answerAll : Store σ → List (List String) → List Response × Store σ
  | s, [] => ([], s)
  | s, request :: requests =>
    let (response, s) := s.answer request
    let (responses, s) := answerAll s.collect.2 requests
    (response :: responses, s)

theorem Store.answerAll_cons (s : Store σ) (request : List String)
    (requests : List (List String)) :
    s.answerAll (request :: requests) =
      ((s.answer request).1 :: ((s.answer request).2.collect.2.answerAll requests).1,
        ((s.answer request).2.collect.2.answerAll requests).2) := rfl

theorem Store.answerAll_append (front back : List (List String)) : ∀ s : Store σ,
    s.answerAll (front ++ back) =
      ((s.answerAll front).1 ++ ((s.answerAll front).2.answerAll back).1,
        ((s.answerAll front).2.answerAll back).2) := by
  induction front with
  | nil => intro s; rfl
  | cons request front ih =>
    intro s
    rw [List.cons_append, answerAll_cons, answerAll_cons, ih]
    rfl

/-- The bytes of the answers to requests, run one after another. -/
def Store.answerBytes (s : Store σ) (requests : List (List String)) : ByteArray :=
  joined ((s.answerAll requests).1.map Response.encode)

theorem Store.answerBytes_append (s : Store σ) (front back : List (List String)) :
    s.answerBytes (front ++ back) =
      s.answerBytes front ++ (s.answerAll front).2.answerBytes back := by
  rw [answerBytes, answerAll_append, List.map_append, joined_append]
  rfl

namespace Session

/-- The requests at the front of a buffer. -/
def requestsIn (bytes : ByteArray) : List (List String) :=
  (Request.decodeAll bytes).1.map Prod.fst

theorem foldl_add (requests : List (List String × Nat)) : ∀ a : Answers σ,
    (requests.foldl (fun a request => a.add request.1) a).bytes =
        a.bytes ++ a.store.answerBytes (requests.map Prod.fst) ∧
      (requests.foldl (fun a request => a.add request.1) a).store =
        (a.store.answerAll (requests.map Prod.fst)).2 := by
  -- induction on the requests; bytes and store so far are general
  induction requests with
  | nil => intro a; exact ⟨ByteArray.append_empty.symm, rfl⟩
  | cons request requests ih =>
    intro a
    obtain ⟨hbytes, hstore⟩ := ih (a.add request.1)
    rw [List.foldl_cons, hbytes, hstore]
    refine ⟨?_, rfl⟩
    change a.bytes ++ (a.store.answer request.1).1.encode ++ _ = _
    rw [ByteArray.append_assoc, List.map_cons, Store.answerBytes, Store.answerBytes,
      Store.answerAll_cons, List.map_cons, joined_cons]
    rfl

/-- **Serving a buffer** runs the requests in it, and nothing else. -/
theorem serve_eq (incoming : ByteArray) (s : Store σ) :
    (serve incoming s).answers.bytes = s.answerBytes (requestsIn incoming) ∧
      (serve incoming s).answers.store = (s.answerAll (requestsIn incoming)).2 ∧
      (serve incoming s).rest = (Request.decodeAll incoming).2.2 ∧
      (serve incoming s).stop = (Request.decodeAll incoming).2.1 := by
  obtain ⟨hbytes, hstore⟩ := foldl_add (Request.decodeAll incoming).1
    (⟨.empty, #[], s⟩ : Answers σ)
  exact ⟨hbytes.trans ByteArray.empty_append, hstore, rfl, rfl⟩

/-- Draining puts what is read behind what was there. -/
theorem drain_append (reads : List ReadOutcome) : ∀ before : ByteArray,
    drain before reads = (before ++ (drain .empty reads).1, (drain .empty reads).2) := by
  induction reads with
  | nil => intro before; exact Prod.ext ByteArray.append_empty.symm rfl
  | cons outcome reads ih =>
    intro before
    cases outcome with
    | bytes piece =>
      rw [drain, drain, ih, ih (.empty ++ piece), ByteArray.empty_append, ByteArray.append_assoc]
    | interrupted => exact ih before
    | wouldBlock => exact Prod.ext ByteArray.append_empty.symm rfl
    | endOfStream => exact Prod.ext ByteArray.append_empty.symm rfl
    | failed reason => exact Prod.ext ByteArray.append_empty.symm rfl

/-! ## The two calls -/

theorem isEmpty_iff {bytes : ByteArray} : bytes.isEmpty = true ↔ bytes = .empty := by
  rw [ByteArray.isEmpty, beq_iff_eq, ByteArray.size_eq_zero_iff]

/-- There is something to be written exactly while the session is writing. -/
structure Balanced (c : Session) : Prop where
  idle : c.phase = .reading → c.outgoing = .empty
  busy : c.phase = .writing → c.outgoing ≠ .empty

/-- **Writing** takes bytes off the front of what is to be written. -/
theorem onWrite_of_open {c : Session} {socket : WriteOutcome} (hc : c.Balanced)
    (hw : c.phase = .writing) (hopen : (c.onWrite socket).session.phase ≠ .closing) :
    (c.onWrite socket).session.Balanced ∧
      (c.onWrite socket).session.incoming = c.incoming ∧
      (c.onWrite socket).written ++ (c.onWrite socket).session.outgoing = c.outgoing := by
  have hne : ¬ c.outgoing.isEmpty = true := fun h => hc.busy hw (isEmpty_iff.mp h)
  rw [onWrite.eq_def, if_neg (by simp [hw, hne])] at hopen ⊢
  cases socket with
  | wouldBlock => exact ⟨hc, rfl, ByteArray.empty_append⟩
  | failed reason => exact absurd rfl hopen
  | upTo most =>
    dsimp only at hopen ⊢
    split at hopen
    · exact absurd rfl hopen
    · rename_i htaken
      rw [if_neg htaken]
      refine ⟨⟨?_, ?_⟩, rfl, extract_append_rest (Nat.min_le_right _ _)⟩
      · intro hreading
        dsimp only at hreading ⊢
        split at hreading
        · rename_i hnone
          exact isEmpty_iff.mp hnone
        · exact absurd hreading (by simp)
      · intro hwriting hnone
        dsimp only at hwriting hnone
        rw [if_pos (isEmpty_iff.mpr hnone)] at hwriting
        exact absurd hwriting (by simp)

/-- **Reading** puts what came behind what was buffered, and serves that. -/
theorem onRead_of_open {c : Session} {reads : List ReadOutcome} {socket : WriteOutcome}
    {s : Store σ} (hc : c.Balanced) (hr : c.phase = .reading)
    (hopen : (c.onRead reads socket s).1.session.phase ≠ .closing) :
    (c.onRead reads socket s).1.session.Balanced ∧
      (serve (c.incoming ++ (drain .empty reads).1) s).stop ≠ .malformed ∧
      (c.onRead reads socket s).1.session.incoming =
        (serve (c.incoming ++ (drain .empty reads).1) s).rest ∧
      (c.onRead reads socket s).1.written ++ (c.onRead reads socket s).1.session.outgoing =
        (serve (c.incoming ++ (drain .empty reads).1) s).answers.bytes ∧
      (c.onRead reads socket s).2 =
        (serve (c.incoming ++ (drain .empty reads).1) s).answers.store := by
  rw [onRead, if_neg (by simp [hr]), drain_append] at hopen ⊢
  generalize c.incoming ++ (drain .empty reads).1 = incoming at hopen ⊢
  generalize (drain .empty reads).2 = ending at hopen ⊢
  cases ending with
  | endOfStream => exact absurd rfl hopen
  | failed reason => exact absurd rfl hopen
  | nothingYet =>
    dsimp only at hopen ⊢
    -- while reading there is nothing to be written, so the answers are all of it
    rw [hc.idle hr, ByteArray.empty_append] at hopen ⊢
    by_cases hstop : (serve incoming s).stop = .malformed
    · rw [if_pos hstop] at hopen
      exact absurd rfl hopen
    · rw [if_neg hstop] at hopen ⊢
      by_cases hnone : (serve incoming s).answers.bytes.isEmpty = true
      · rw [if_pos hnone]
        have hempty := isEmpty_iff.mp hnone
        refine ⟨⟨fun _ => hempty, fun hw => ?_⟩, hstop, rfl, ByteArray.empty_append, rfl⟩
        dsimp only at hw
        rw [hr] at hw
        exact absurd hw (by simp)
      · rw [if_neg hnone] at hopen ⊢
        -- there are answers, and the call goes on to write them
        have hbalanced : (⟨.writing, (serve incoming s).rest, (serve incoming s).answers.bytes⟩ :
            Session).Balanced :=
          ⟨fun h => absurd h (by simp), fun _ h => hnone (isEmpty_iff.mpr h)⟩
        obtain ⟨hafter, hincoming, hbytes⟩ := onWrite_of_open hbalanced rfl hopen
        exact ⟨hafter, hstop, hincoming, hbytes, rfl⟩

end Session

/-! ## Exchanges -/

/-- A session, its store, and the bytes that it read and wrote. -/
structure Exchange (σ : Type) where
  session : Session
  store : Store σ
  received : ByteArray
  sent : ByteArray

namespace Exchange

/-- A new session on a store. -/
def start (s : Store σ) : Exchange σ := ⟨.start, s, .empty, .empty⟩

/-- The session is called to read. -/
def read (x : Exchange σ) (reads : List ReadOutcome) (socket : WriteOutcome) : Exchange σ :=
  let (t, s) := x.session.onRead reads socket x.store
  ⟨t.session, s, x.received ++ (drain .empty reads).1, x.sent ++ t.written⟩

/-- The session is called to write. -/
def write (x : Exchange σ) (socket : WriteOutcome) : Exchange σ :=
  let t := x.session.onWrite socket
  { x with session := t.session, sent := x.sent ++ t.written }

/-- A call that the session allows, whatever its socket does. -/
inductive Step : Exchange σ → Exchange σ → Prop
  | read {x : Exchange σ} (h : x.session.phase = .reading) (reads : List ReadOutcome)
      (socket : WriteOutcome) : Step x (x.read reads socket)
  | write {x : Exchange σ} (h : x.session.phase = .writing) (socket : WriteOutcome) :
      Step x (x.write socket)
  | close {x : Exchange σ} : Step x { x with session := x.session.close }

/-- Any number of calls. -/
abbrev Steps : Exchange σ → Exchange σ → Prop := Relation.ReflTransGen Step

/-- What an exchange that began with the store `s` keeps to while it is open. -/
structure Served (s : Store σ) (x : Exchange σ) : Prop where
  balanced : x.session.Balanced
  /-- What was read and not run is behind all requests, and may become one. -/
  incoming : x.session.incoming = (Request.decodeAll x.received).2.2
  waiting : (Request.decodeAll x.received).2.1 ≠ .malformed
  /-- The answers were written or still have to be. -/
  outgoing : x.sent ++ x.session.outgoing = s.answerBytes (Session.requestsIn x.received)
  store : x.store = (s.answerAll (Session.requestsIn x.received)).2

theorem served_start (s : Store σ) : Served s (start s) where
  balanced := ⟨fun _ => rfl, fun h => Phase.noConfusion h⟩
  incoming := rfl
  waiting := fun h => FrameError.noConfusion h
  outgoing := rfl
  store := rfl

/-- The requests that come to light with more bytes are those behind the ones that were run. -/
theorem Served.requestsIn_append {s : Store σ} {x : Exchange σ} (hx : Served s x)
    (more : ByteArray) :
    Session.requestsIn (x.received ++ more) =
      Session.requestsIn x.received ++ Session.requestsIn (x.session.incoming ++ more) := by
  rw [Session.requestsIn, Request.decodeAll_append, List.map_append, hx.incoming]
  rfl

/-- While the session is reading, all answers were written. -/
theorem Served.sent_eq {s : Store σ} {x : Exchange σ} (hx : Served s x)
    (hr : x.session.phase = .reading) :
    x.sent = s.answerBytes (Session.requestsIn x.received) := by
  rw [← hx.outgoing, hx.balanced.idle hr, ByteArray.append_empty]

/-- What a call finds in the bytes that it has, in terms of all bytes that ever came. -/
theorem Served.serve_eq {s : Store σ} {x : Exchange σ} (hx : Served s x) (more : ByteArray) :
    (Session.serve (x.session.incoming ++ more) x.store).stop =
        (Request.decodeAll (x.received ++ more)).2.1 ∧
      (Session.serve (x.session.incoming ++ more) x.store).rest =
        (Request.decodeAll (x.received ++ more)).2.2 ∧
      (Session.serve (x.session.incoming ++ more) x.store).answers.store =
        (s.answerAll (Session.requestsIn (x.received ++ more))).2 ∧
      s.answerBytes (Session.requestsIn (x.received ++ more)) =
        s.answerBytes (Session.requestsIn x.received) ++
          (Session.serve (x.session.incoming ++ more) x.store).answers.bytes := by
  obtain ⟨hbytes, hstore, hrest, hstop⟩ :=
    Session.serve_eq (x.session.incoming ++ more) x.store
  refine ⟨?_, ?_, ?_, ?_⟩
  · rw [hstop, Request.decodeAll_append x.received, ← hx.incoming]
  · rw [hrest, Request.decodeAll_append x.received, ← hx.incoming]
  · rw [hstore, hx.requestsIn_append, Store.answerAll_append, ← hx.store]
  · rw [hbytes, hx.requestsIn_append, Store.answerBytes_append, ← hx.store]

/-- **A call keeps to it.** The bytes that a call reads are read off behind those that were
buffered, which is the same as reading all bytes that ever came at once. -/
theorem Served.step {s : Store σ} {x y : Exchange σ} (hx : Served s x) (h : Step x y)
    (hopen : y.session.phase ≠ .closing) : Served s y := by
  cases h with
  | read hr reads socket =>
    obtain ⟨hbalanced, hstop, hincoming, hbytes, hstore⟩ :=
      Session.onRead_of_open (s := x.store) hx.balanced hr hopen
    obtain ⟨hreason, hrest, hafter, hanswers⟩ := hx.serve_eq (drain .empty reads).1
    refine ⟨hbalanced, hincoming.trans hrest, fun h => hstop (hreason.trans h), ?_,
      hstore.trans hafter⟩
    change x.sent ++ (x.session.onRead reads socket x.store).1.written ++
      (x.session.onRead reads socket x.store).1.session.outgoing =
        s.answerBytes (Session.requestsIn (x.received ++ (drain .empty reads).1))
    rw [hanswers, ← hx.sent_eq hr, ByteArray.append_assoc, hbytes]
  | write hw socket =>
    obtain ⟨hbalanced, hincoming, hbytes⟩ := Session.onWrite_of_open hx.balanced hw hopen
    refine ⟨hbalanced, hincoming.trans hx.incoming, hx.waiting, ?_, hx.store⟩
    change x.sent ++ (x.session.onWrite socket).written ++
      (x.session.onWrite socket).session.outgoing = _
    rw [ByteArray.append_assoc, hbytes]
    exact hx.outgoing
  | close => exact absurd rfl hopen

/-- A session that was given up stays given up. -/
theorem Step.open_of_open {x y : Exchange σ} (h : Step x y)
    (hopen : y.session.phase ≠ .closing) : x.session.phase ≠ .closing := by
  cases h with
  | read hr _ _ => rw [hr]; exact fun h => Phase.noConfusion h
  | write hw _ => rw [hw]; exact fun h => Phase.noConfusion h
  | close => exact absurd rfl hopen

theorem served_of_steps {s : Store σ} {x : Exchange σ} (h : Steps (start s) x) :
    x.session.phase ≠ .closing → Served s x := by
  -- induction on the calls, from the last; it was open before each, as it is open now
  induction h with
  | refl => exact fun _ => served_start s
  | tail _ hstep ih => exact fun hopen => (ih (hstep.open_of_open hopen)).step hstep hopen

/-- **A session serves a stream.** While it is open, the bytes that it read are the requests
that it ran, one behind the other, and bytes that are not a request yet. Those that it wrote
and those that it has still to write are the answers that the requests get when they are run
one after another, and the store is the store after that. -/
theorem stream_of_open (s : Store σ) {x : Exchange σ} (run : Steps (start s) x)
    (isOpen : x.session.phase ≠ .closing) :
    ∃ requests, requests = Session.requestsIn x.received ∧
      x.received = joined (requests.map Request.encode) ++ x.session.incoming ∧
      (∃ want got, Request.decode x.session.incoming = .error (.incomplete want got)) ∧
      x.sent ++ x.session.outgoing = joined ((s.answerAll requests).1.map Response.encode) ∧
      x.store = (s.answerAll requests).2 := by
  have hx := served_of_steps run isOpen
  refine ⟨_, rfl, ?_, ?_, hx.outgoing, hx.store⟩
  · rw [hx.incoming, Session.requestsIn, List.map_map]
    exact Request.joined_decodeAll x.received
  · have hrest := Request.decode_rest x.received
    rw [← hx.incoming] at hrest
    rcases hstop : (Request.decodeAll x.received).2.1 with ⟨want, got⟩ | _
    · exact ⟨want, got, hstop ▸ hrest⟩
    · exact absurd hstop hx.waiting

/-- A request without arguments comes in two pieces, with a byte too many, and its answer
leaves in two. -/
theorem stream_of_pieces :
    let s := Store.empty .standard 1 WordSource.splitMix 0
    let x := (((start s).read [.bytes ⟨#[0, 0]⟩] .wouldBlock).read
      [.bytes ⟨#[0]⟩, .interrupted, .bytes ⟨#[0, 7]⟩] (.upTo 3)).write (.upTo 100)
    Steps (start s) x ∧ x.session.phase ≠ .closing ∧
      ∃ requests, requests = Session.requestsIn x.received ∧
        x.received = joined (requests.map Request.encode) ++ x.session.incoming ∧
        (∃ want got, Request.decode x.session.incoming = .error (.incomplete want got)) ∧
        x.sent ++ x.session.outgoing = joined ((s.answerAll requests).1.map Response.encode) ∧
        x.store = (s.answerAll requests).2 := by
  intro s x
  have run : Steps (start s) x :=
    ((Relation.ReflTransGen.refl.tail (.read rfl _ _)).tail (.read (by decide +kernel) _ _)).tail
      (.write (by decide +kernel) _)
  have isOpen : x.session.phase ≠ .closing := by decide +kernel
  exact ⟨run, isOpen, stream_of_open s run isOpen⟩

end Exchange

end TwinTable.Service
