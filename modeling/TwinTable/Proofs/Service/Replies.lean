/-
What a client makes of the answers.

A client reads a response with the limit that the service has for one argument of a request,
but it holds the whole frame to it, and a frame is longer than its payload. So whether an
answer is read is a question of its length alone (`Response.decode_encode_iff`): a value that
was taken in a request may be too long to be given back.

How long can an answer be? A value, a key or a sentence, for all but the two commands that
collect something over the whole table. Keys and values come from earlier requests
(`Contents.Within`), so if these stay the length of a header below the limit, each such answer
is read.
-/
import TwinTable.Proofs.Service.Contents
import TwinTable.Proofs.Wire.RoundTrip

set_option autoImplicit false

namespace TwinTable.Service

open Wire

variable {σ : Type} {n : Nat}

/-- The requests of a history have no argument longer than so many bytes. -/
def Event.Within (n : Nat) : Event → Prop
  | .request arguments => ∀ text ∈ arguments, text.utf8ByteSize ≤ n
  | _ => True

namespace Contents

variable {m : Contents}

/-- No key of the map is longer than so many bytes, nor the text of one. -/
def Within (n : Nat) (m : Contents) : Prop :=
  ∀ key text, m.lookup key = some text → key.utf8ByteSize ≤ n ∧ text.utf8ByteSize ≤ n

theorem within_empty : Within n ∅ := fun key text h => by
  rw [Finmap.lookup_empty] at h
  exact absurd h (by simp)

/-- What a map has comes from the requests that were sent. -/
theorem Within.meet (h : m.Within n) {e : Event} (he : e.Within n) : (m.meet e).Within n := by
  unfold Contents.meet
  split
  · rename_i key value
    intro key' text hlookup
    by_cases hk : key' = key
    · subst hk
      rw [Finmap.lookup_insert] at hlookup
      obtain rfl := Option.some.inj hlookup
      exact ⟨he key' (by simp), he value (by simp)⟩
    · rw [Finmap.lookup_insert_of_ne _ hk] at hlookup
      exact h key' text hlookup
  · rename_i key
    intro key' text hlookup
    by_cases hk : key' = key
    · subst hk
      rw [Finmap.lookup_erase] at hlookup
      exact absurd hlookup (by simp)
    · rw [Finmap.lookup_erase_ne hk] at hlookup
      exact h key' text hlookup
  · exact h

theorem Within.after {events : List Event} (h : m.Within n) (he : ∀ e ∈ events, e.Within n) :
    (m.after events).Within n := by
  induction events generalizing m with
  | nil => exact h
  | cons e events ih =>
    exact ih (h.meet (he e List.mem_cons_self)) fun x hx => he x (List.mem_cons_of_mem _ hx)

/-- An event brings at most one key. -/
theorem card_keys_meet (m : Contents) (e : Event) : (m.meet e).keys.card ≤ m.keys.card + 1 := by
  unfold Contents.meet
  split
  · rename_i key value
    have hkeys : (m.insert key value).keys ⊆ insert key m.keys := by
      intro key'
      rw [Finmap.mem_keys, Finmap.mem_insert, Finset.mem_insert, Finmap.mem_keys]
      exact id
    exact (Finset.card_le_card hkeys).trans (Finset.card_insert_le _ _)
  · rename_i key
    rw [Finmap.keys_erase]
    exact (Finset.card_erase_le).trans (Nat.le_succ _)
  · exact Nat.le_succ _

theorem card_keys_after (events : List Event) : ∀ m : Contents,
    (m.after events).keys.card ≤ m.keys.card + events.length := by
  induction events with
  | nil => intro m; exact le_rfl
  | cons e events ih =>
    intro m
    have hstep := m.card_keys_meet e
    have hrest := ih (m.meet e)
    rw [List.length_cons]
    exact hrest.trans (by omega)

end Contents

/-! ## How long an answer is -/

theorem size_ofText (status : Int32) (text : String) :
    (Response.ofText status text).payload.size = text.utf8ByteSize := size_toUTF8 text

theorem Command.size_found_le {text : Option String}
    (h : ∀ x, text = some x → x.utf8ByteSize ≤ n) : (found text).payload.size ≤ n := by
  cases text with
  | none => exact Nat.zero_le _
  | some x =>
    rw [found, size_ofText]
    exact h x rfl

/-- Characters of seven bits take a byte each. -/
theorem utf8Len_of_sevenBits {text : List Char} (h : ∀ c ∈ text, c.val ≤ 127) :
    String.utf8Len text = text.length := by
  induction text with
  | nil => rfl
  | cons c text ih =>
    rw [String.utf8Len_cons, ih fun x hx => h x (List.mem_cons_of_mem _ hx),
      Char.utf8Size_eq_one_iff.mpr (h c List.mem_cons_self), List.length_cons]

/-- A number of sixty-four bits has at most twenty digits. -/
theorem utf8ByteSize_toString {count : Nat} (h : count < 2 ^ 64) :
    (toString count).utf8ByteSize ≤ 20 := by
  change (String.ofList (Nat.toDigits 10 count)).utf8ByteSize ≤ 20
  have hdigits : ∀ c ∈ Nat.toDigits 10 count, c.val ≤ 127 := by
    intro c hc
    have hdigit := Nat.isDigit_of_mem_toDigits (by omega) (by omega) hc
    rw [Char.isDigit, Bool.and_eq_true, decide_eq_true_eq, decide_eq_true_eq] at hdigit
    exact UInt32.le_trans hdigit.2 (by decide)
  rw [String.utf8ByteSize_ofList, utf8Len_of_sevenBits hdigits]
  exact (Nat.length_toDigits_le_iff (by omega) (by omega)).mpr (h.trans (by norm_num))

/-- The longest sentence of a refusal has this many bytes. -/
def longestSentence : Nat := 23

theorem Refusal.utf8ByteSize_message (e : Refusal) :
    e.message.utf8ByteSize ≤ longestSentence := by
  cases e <;> decide

namespace Store

variable {s : Store σ} {m : Contents}

/-- **An answer is no longer than a text that was sent**, a number or a sentence, unless it is
a report or a page of keys. -/
theorem Holds.size_payload_le (h : s.Holds m) (hm : m.Within n)
    (hcount : m.keys.card < 2 ^ 64) (hn : longestSentence ≤ n) {arguments : List String}
    (hwithin : Event.Within n (.request arguments))
    (hname : arguments.head? ∉ [some "scan", some "stats"]) :
    (s.answer arguments).1.payload.size ≤ n := by
  rw [Store.answer]
  rcases hc : Command.ofArguments arguments with e | c
  · change (Response.ofText Response.refused e.message).payload.size ≤ n
    rw [size_ofText]
    exact e.utf8ByteSize_message.trans hn
  · rw [Command.head?_of_ofArguments hc] at hname
    cases c with
    | get key =>
      refine Command.size_found_le fun text htext => (hm key text ?_).2
      exact (h.get key).1.symm.trans htext
    | delete key =>
      refine Command.size_found_le fun text htext => (hm key text ?_).2
      exact (h.delete key).1.symm.trans htext
    | set key value =>
      change (Response.ofText Response.okay value).payload.size ≤ n
      rw [size_ofText]
      rw [Command.eq_of_set hc] at hwithin
      exact hwithin value (by simp)
    | size =>
      change (Response.ofText Response.okay (toString s.size)).payload.size ≤ n
      rw [size_ofText, h.size_eq]
      exact (utf8ByteSize_toString hcount).trans (Nat.le_trans (by decide) hn)
    | randomKey =>
      refine Command.size_found_le fun key hkey => ?_
      obtain ⟨-, hmem, -⟩ := h.randomKey
      obtain ⟨text, htext⟩ := Finmap.mem_iff.mp (hmem key hkey)
      exact (hm key text htext).1
    | report | scan => exact absurd (by simp [Command.name]) hname

/-- **Which answers a client reads.** Whatever a new store was sent, with the upkeep run at
any points in between, and whatever its source of words, the next request appends one frame to
what a buffer holds. A client reads the response back from it, with its length, if and only if
the frame keeps to the limit, and refuses it for good above that. The frame does keep to it if
no argument of any request came closer to the limit than the length of a header, unless the
request asks for a report or for a page of keys. -/
theorem answers_read_back (settings : Settings) (rounds : Nat) (g : WordSource σ) (words : σ)
    (events : List Event) (arguments : List String) (buffer : ByteArray)
    (notices : Array Notice) (rest : ByteArray) :
    let s := (empty settings rounds g words).after events
    let answer := (s.answer arguments).1
    (Session.Answers.add ⟨buffer, notices, s⟩ arguments).bytes = buffer ++ answer.encode ∧
      (Response.decode (answer.encode ++ rest) = .ok (answer, answer.encode.size) ↔
        answer.encode.size ≤ lengthLimit) ∧
      (lengthLimit < answer.encode.size → answer.encode.size < 2 ^ 32 →
        Response.decode (answer.encode ++ rest) = .error .malformed) ∧
      ((∀ e ∈ Event.request arguments :: events, e.Within (lengthLimit - Response.headerSize)) →
        events.length < 2 ^ 64 → arguments.head? ∉ [some "scan", some "stats"] →
        answer.encode.size ≤ lengthLimit) := by
  intro s answer
  refine ⟨rfl, Response.decode_encode_iff rest,
    fun h hword => Response.decode_encode_of_lt h hword rest, fun hwithin hlength hname => ?_⟩
  obtain ⟨hholds, -⟩ :=
    Holds.after (s := empty settings rounds g words) (holds_empty settings rounds g words) events
  have hm : (Contents.after ∅ events).Within (lengthLimit - Response.headerSize) :=
    Contents.within_empty.after fun e he => hwithin e (List.mem_cons_of_mem _ he)
  have hcount : (Contents.after ∅ events).keys.card < 2 ^ 64 := by
    refine Nat.lt_of_le_of_lt (Contents.card_keys_after events ∅) ?_
    rwa [Finmap.keys_empty, Finset.card_empty, Nat.zero_add]
  have hpayload := hholds.size_payload_le hm hcount (by decide)
    (hwithin _ List.mem_cons_self) hname
  rw [Response.size_encode, Nat.add_comm]
  exact Nat.add_le_of_le_sub (by decide) hpayload

/-- A value that was set is handed out in a frame that the client reads. -/
theorem answer_read_back_of_one_key :
    let events : List Event := [.request ["set", "a", "1"]]
    let answer := (((empty .standard 1 WordSource.splitMix 7).after events).answer ["get", "a"]).1
    (∀ e ∈ Event.request ["get", "a"] :: events, e.Within (lengthLimit - Response.headerSize)) ∧
      Response.decode (answer.encode ++ .empty) = .ok (answer, answer.encode.size) := by
  intro events answer
  have hwithin : ∀ e ∈ Event.request ["get", "a"] :: events,
      e.Within (lengthLimit - Response.headerSize) := by
    simp only [events, List.mem_cons, List.not_mem_nil, or_false, forall_eq_or_imp, forall_eq,
      Event.Within]
    decide
  obtain ⟨-, hread, -, hsize⟩ := answers_read_back .standard 1 WordSource.splitMix 7
    events ["get", "a"] .empty #[] .empty
  exact ⟨hwithin, hread.mpr (hsize hwithin (by decide) (by decide))⟩

/-- A value that leaves less than the length of a header below the limit is taken, and its echo
is refused. -/
theorem echo_refused {value : String} (h : value.utf8ByteSize ≤ lengthLimit)
    (hlong : lengthLimit < Response.headerSize + value.utf8ByteSize) (s : Store σ) :
    Request.decode (Request.encode ["set", "k", value]) =
        .ok (["set", "k", value], (Request.encode ["set", "k", value]).size) ∧
      Response.decode (s.answer ["set", "k", value]).1.encode = .error .malformed := by
  have hlimited : Request.Limited ["set", "k", value] := by
    refine ⟨Nat.le_trans (Nat.le_refl 3) (by decide), fun arg harg => ?_⟩
    simp only [List.mem_cons, List.not_mem_nil, or_false] at harg
    rcases harg with rfl | rfl | rfl
    · decide
    · decide
    · exact h
  have hsize : (s.answer ["set", "k", value]).1.encode.size =
      Response.headerSize + value.utf8ByteSize := by
    rw [Response.size_encode]
    exact congrArg (Response.headerSize + ·) (size_ofText _ _)
  have hbelow : Response.headerSize + value.utf8ByteSize < 2 ^ 32 :=
    Nat.lt_of_le_of_lt (Nat.add_le_add_left h _) (by decide)
  have hrequest := Request.decode_encode_append hlimited .empty
  have hresponse := Response.decode_encode_of_lt (hsize ▸ hlong) (hsize ▸ hbelow) .empty
  rw [ByteArray.append_empty] at hrequest hresponse
  exact ⟨hrequest, hresponse⟩

/-- The echo of a value with one byte too many, which is still seven fewer than a request may
hold. -/
theorem echo_of_long_value_refused :
    let value := String.ofList (List.replicate (lengthLimit - 7) 'x')
    let answer := ((empty .standard 1 WordSource.splitMix 0).answer ["set", "k", value]).1
    Request.decode (Request.encode ["set", "k", value]) =
        .ok (["set", "k", value], (Request.encode ["set", "k", value]).size) ∧
      Response.decode answer.encode = .error .malformed := by
  intro value answer
  have hsize : value.utf8ByteSize = lengthLimit - 7 := by
    have hletters : ∀ c ∈ List.replicate (lengthLimit - 7) 'x', c.val ≤ 127 := by
      intro c hc
      rw [List.eq_of_mem_replicate hc]
      decide
    rw [String.utf8ByteSize_ofList, utf8Len_of_sevenBits hletters, List.length_replicate]
  have hheader : Response.headerSize = 8 := rfl
  have hlimit : 7 ≤ lengthLimit := by decide
  exact echo_refused (by omega) (by omega) _

end Store

end TwinTable.Service
