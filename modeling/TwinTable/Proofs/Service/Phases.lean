/-
Calls that a session allows never go wrong by themselves.

A session may be called to read while it is reading and to write while it is writing. A call at
any other time is a misuse, and so is a call to write with nothing to write. The second cannot
be told from the phase alone; that it does not happen is the balance between phase and buffer
(`Session.Balanced`), which every call keeps, whatever its socket does. There is one place
where a session calls itself, the writing at the end of a read, and it has just seen then that
there is something to write.

The other way to an error is the socket, and that gives the session up. Nothing brings it back.
-/
import TwinTable.Proofs.Service.Stream

set_option autoImplicit false

namespace TwinTable.Service

variable {σ : Type}

/-- A turn in good order was no misuse, and if it ended in an error the session is given up. -/
structure Turn.Orderly (t : Turn) : Prop where
  allowed : t.result ≠ .error .misuse
  closed : ∀ fault, t.result = .error fault → t.session.phase = .closing

theorem Turn.Orderly.of_ok {t : Turn} (h : t.result = .ok ()) : t.Orderly := by
  constructor
  · simp [h]
  · intro fault hfault
    rw [h] at hfault
    exact absurd hfault (by simp)

/-- A socket that fails is no misuse. -/
theorem Turn.Orderly.of_socket {t : Turn} {reason : SocketFault}
    (h : t.result = .error (.socket reason)) (hclosed : t.session.phase = .closing) :
    t.Orderly := by
  refine ⟨?_, fun _ _ => hclosed⟩
  rw [h]
  intro hmisuse
  exact SessionFault.noConfusion (Except.error.inj hmisuse)

namespace Session

variable {c : Session}

/-! ## Single calls -/

theorem balanced_of_closing (h : c.phase = .closing) : c.Balanced :=
  ⟨fun hr => Phase.noConfusion (h.symm.trans hr), fun hw => Phase.noConfusion (h.symm.trans hw)⟩

/-- **A call to write** is in good order exactly if the session is writing and has something
to write. -/
theorem orderly_onWrite_iff {socket : WriteOutcome} :
    (c.onWrite socket).Orderly ↔ c.phase = .writing ∧ c.outgoing ≠ .empty := by
  constructor
  · intro h
    by_contra hnot
    refine h.allowed ?_
    rw [onWrite.eq_def, if_pos]
    rw [not_and_or, not_not] at hnot
    rw [Bool.or_eq_true, decide_eq_true_eq, isEmpty_iff]
    exact hnot
  · rintro ⟨hw, hne⟩
    have hsome : ¬ c.outgoing.isEmpty = true := fun h => hne (isEmpty_iff.mp h)
    rw [onWrite.eq_def, if_neg (by simp [hw, hsome])]
    cases socket with
    | wouldBlock => exact .of_ok rfl
    | failed reason => exact .of_socket rfl rfl
    | upTo most =>
      dsimp only
      split
      · exact .of_ok rfl
      · exact .of_ok rfl

/-- **A call to read** is in good order exactly if the session is reading. If it goes on to
write, the session has answers by then and has taken up writing. -/
theorem orderly_onRead_iff {reads : List ReadOutcome} {socket : WriteOutcome} {s : Store σ} :
    (c.onRead reads socket s).1.Orderly ↔ c.phase = .reading := by
  constructor
  · intro h
    by_contra hnot
    refine h.allowed ?_
    rw [onRead, if_pos hnot]
  · intro hr
    rw [onRead, if_neg (by simp [hr])]
    rcases drain c.incoming reads with ⟨incoming, ending⟩
    cases ending with
    | endOfStream => exact .of_ok rfl
    | failed reason => exact .of_socket rfl rfl
    | nothingYet =>
      dsimp only
      split_ifs with hstop hnone
      · exact .of_ok rfl
      · exact .of_ok rfl
      · have hinner : (Session.onWrite ⟨.writing, (serve incoming s).rest,
            c.outgoing ++ (serve incoming s).answers.bytes⟩ socket).Orderly :=
          orderly_onWrite_iff.mpr ⟨rfl, fun h => hnone (isEmpty_iff.mpr h)⟩
        exact ⟨hinner.allowed, hinner.closed⟩

theorem Balanced.onWrite (hc : c.Balanced) (hw : c.phase = .writing) (socket : WriteOutcome) :
    (c.onWrite socket).session.Balanced := by
  by_cases hclosing : (c.onWrite socket).session.phase = .closing
  · exact balanced_of_closing hclosing
  · exact (onWrite_of_open hc hw hclosing).1

theorem Balanced.onRead (hc : c.Balanced) (hr : c.phase = .reading) (reads : List ReadOutcome)
    (socket : WriteOutcome) (s : Store σ) : (c.onRead reads socket s).1.session.Balanced := by
  by_cases hclosing : (c.onRead reads socket s).1.session.phase = .closing
  · exact balanced_of_closing hclosing
  · exact (onRead_of_open hc hr hclosing).1

end Session

namespace Exchange

/-! ## Runs -/

theorem balanced_step {x y : Exchange σ} (hx : x.session.Balanced) (h : Step x y) :
    y.session.Balanced := by
  cases h with
  | read hr reads socket => exact hx.onRead hr reads socket x.store
  | write hw socket => exact hx.onWrite hw socket
  | close => exact Session.balanced_of_closing rfl

theorem balanced_of_steps {x y : Exchange σ} (hx : x.session.Balanced) (h : Steps x y) :
    y.session.Balanced := by
  -- induction on the calls, from the last
  induction h with
  | refl => exact hx
  | tail _ hstep ih => exact balanced_step ih hstep

/-- Giving a session up is all that can be done to one that was given up. -/
theorem closing_of_steps {x y : Exchange σ} (hx : x.session.phase = .closing) (h : Steps x y) :
    y.session.phase = .closing := by
  induction h with
  | refl => exact hx
  | tail _ hstep ih =>
    by_contra hopen
    exact hstep.open_of_open hopen ih

/-- **Phases keep their promises.** However a session was called, as its phase allowed, and
whatever its socket did: while it is reading nothing is left to be written, and while it is
writing there is something. So the next call that its phase allows is no misuse either, nor is
the writing that a call to read ends with; and if it gives an error the session is given up. A
session that was given up stays so. -/
theorem phases_keep_promises (s : Store σ) {x : Exchange σ} (run : Steps (start s) x) :
    (x.session.phase = .reading → x.session.outgoing = .empty ∧
        ∀ reads socket, (x.session.onRead reads socket x.store).1.Orderly) ∧
      (x.session.phase = .writing → x.session.outgoing ≠ .empty ∧
        ∀ socket, (x.session.onWrite socket).Orderly) ∧
      (x.session.phase = .closing → ∀ y, Steps x y → y.session.phase = .closing) := by
  have hbalanced := balanced_of_steps (served_start s).balanced run
  refine ⟨fun hr => ⟨hbalanced.idle hr, fun _ _ => Session.orderly_onRead_iff.mpr hr⟩,
    fun hw => ⟨hbalanced.busy hw, fun _ => ?_⟩, fun hclosing _ => closing_of_steps hclosing⟩
  exact Session.orderly_onWrite_iff.mpr ⟨hw, hbalanced.busy hw⟩

/-- The answer to a request without arguments leaves in part, then the socket has no room, then
it fails: the session has still something to write before that call, and is given up after it. -/
theorem phases_keep_promises_of_broken_pipe :
    let s := Store.empty .standard 1 WordSource.splitMix 0
    let x := ((start s).read [.bytes ⟨#[0, 0, 0, 0]⟩] (.upTo 3)).write .wouldBlock
    Steps (start s) x ∧ x.session.phase = .writing ∧ x.session.outgoing ≠ .empty ∧
      (x.session.onWrite (.failed .brokenPipe)).Orderly ∧
      (x.session.onWrite (.failed .brokenPipe)).session.phase = .closing := by
  intro s x
  have run : Steps (start s) x :=
    (Relation.ReflTransGen.refl.tail (.read rfl _ _)).tail (.write (by decide +kernel) _)
  have hw : x.session.phase = .writing := by decide +kernel
  obtain ⟨-, hwriting, -⟩ := phases_keep_promises s run
  obtain ⟨hsome, horderly⟩ := hwriting hw
  exact ⟨run, hw, hsome, horderly _, by decide +kernel⟩

end Exchange

end TwinTable.Service
