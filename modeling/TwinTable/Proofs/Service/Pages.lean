/-
A scan reply on its way to the client and back.

A page of keys travels as a list of texts inside a response: the next cursor in decimal, and
then the keys. The client takes the response off the wire, then the list out of the payload,
and sends the first text of the list back when it wants to go on. Three things have to hold
for that. A response that is not refused has a payload that is not refused either
(`Request.limited_of_size_le`), so it is enough to ask that the whole frame keeps to the
limit. The keys may be any texts, empty ones included, since each stands behind its length.
And the decimal text of a cursor, whichever of the 2^64 words it is, is read as that cursor
(`Text.Numeral.read?_toString`).
-/
import TwinTable.Proofs.Service.Replies
import TwinTable.Service.Transcript

set_option autoImplicit false

namespace TwinTable

/-! ## Numbers as text -/

namespace Text.Numeral

/-- Characters that are digits are read one after the other. -/
theorem valueFrom_of_isDigit : ∀ (cs : List Char) (acc : Nat), (∀ c ∈ cs, c.isDigit = true) →
    valueFrom acc cs = some (Nat.ofDigitChars 10 cs acc) := by
  intro cs
  induction cs with
  | nil => intro acc _; rfl
  | cons c cs ih =>
    intro acc h
    have hdigit : digit? c = some (c.toNat - '0'.toNat) := if_pos (h c List.mem_cons_self)
    rw [valueFrom, hdigit]
    exact ih _ fun x hx => h x (List.mem_cons_of_mem _ hx)

/-- A text without a sign is read as the digits that it consists of. -/
theorem read?_of_head? {bound : Nat} {text : String} (h : text.toList.head? ≠ some '+') :
    read? bound text =
      (digits? text.toList).bind fun n => if n ≤ bound then some n else none := by
  unfold read?
  generalize text.toList = cs at h
  dsimp only
  split
  · rename_i n hn
    split at hn
    · exact absurd rfl h
    · rw [hn]
      rfl
  · rename_i hn
    split at hn
    · exact absurd rfl h
    · rw [hn]
      rfl

/-- **What a number is written as is read as this number.** -/
theorem read?_toString {bound n : Nat} (h : n ≤ bound) : read? bound (toString n) = some n := by
  have hdigits : ∀ c ∈ Nat.toDigits 10 n, c.isDigit = true := fun c hc =>
    Nat.isDigit_of_mem_toDigits (by omega) (by omega) hc
  have hvalue : digits? (Nat.toDigits 10 n) = some n := by
    have hall := valueFrom_of_isDigit _ 0 hdigits
    rw [Nat.ofDigitChars_toDigits (by omega) (by omega)] at hall
    rcases hcs : Nat.toDigits 10 n with _ | ⟨c, cs⟩
    · exact absurd hcs Nat.toDigits_ne_nil
    · rwa [hcs] at hall
  -- no digit is a sign
  have hsign : (Nat.toDigits 10 n).head? ≠ some '+' := fun hplus =>
    absurd (hdigits '+' (List.mem_of_head? hplus)) (by decide)
  rw [← Nat.toList_repr, ← Nat.toString_eq_repr] at hvalue hsign
  rw [read?_of_head? hsign, hvalue]
  exact if_pos h

/-- A cursor, whichever it is. -/
theorem read?_toString_word (v : UInt64) : read? max64 (toString v.toNat) = some v.toNat :=
  read?_toString (Nat.le_sub_one_of_lt v.toNat_lt)

end Text.Numeral

namespace Service

open Wire

/-! ## Requests for a page -/

namespace Command

/-- The number of keys that a scan asks for; the usual number if it does not say. -/
def wantedOf : Option String → Option Nat
  | some count => Text.Numeral.read? Text.Numeral.max64 count
  | none => some defaultCount

/-- The arguments of a scan. -/
def scanArguments (cursor : String) (count : Option String) : List String :=
  "scan" :: cursor :: count.toList

variable {cursor : String} {count : Option String} {start wanted : Nat}

theorem scanOf_eq (cursor : String) (count : Option String) :
    scanOf cursor count =
      match Text.Numeral.read? Text.Numeral.max64 cursor, wantedOf count with
      | some start, some wanted => .ok (.scan start.toUInt64 wanted)
      | _, _ => .error .badScanNumber := by
  cases count <;> rfl

theorem ofArguments_scanArguments
    (hcursor : Text.Numeral.read? Text.Numeral.max64 cursor = some start)
    (hcount : wantedOf count = some wanted) :
    ofArguments (scanArguments cursor count) = .ok (.scan start.toUInt64 wanted) := by
  have hscan : ofArguments (scanArguments cursor count) = scanOf cursor count := by
    cases count <;> rw [scanArguments, Option.toList, ofArguments]
  rw [hscan, scanOf_eq, hcursor, hcount]

/-- The texts of a page: the next cursor, then the keys. -/
theorem payload_ofPage (p : Store.Page) :
    (ofPage p).payload = Request.encode (toString p.next.toNat :: p.keys) := rfl

end Command

namespace Store

variable {σ : Type} {cursor : String} {count : Option String} {start wanted : Nat}

/-- **A scan that is understood is answered with a page**, and the store stays as it is. -/
theorem answer_scanArguments (s : Store σ)
    (hcursor : Text.Numeral.read? Text.Numeral.max64 cursor = some start)
    (hcount : Command.wantedOf count = some wanted) :
    s.answer (Command.scanArguments cursor count) =
      (Command.ofPage (s.page start.toUInt64 wanted), s) := by
  rw [Store.answer, Command.ofArguments_scanArguments hcursor hcount]
  rfl

/-- **The cursor of a page is understood** as the cursor that it is. -/
theorem answer_next (s : Store σ) (p : Page) (hcount : Command.wantedOf count = some wanted) :
    s.answer (Command.scanArguments (toString p.next.toNat) count) =
      (Command.ofPage (s.page p.next wanted), s) := by
  rw [s.answer_scanArguments (Text.Numeral.read?_toString_word p.next) hcount]
  simp

end Store

/-! ## What the client makes of a page -/

section Client

variable {p : Store.Page}

/-- **The list in a page is read**, all of it, if the frame keeps to the limit. -/
theorem decode_payload_ofPage (h : (Command.ofPage p).encode.size ≤ lengthLimit) :
    Request.decode (Command.ofPage p).payload =
      .ok (toString p.next.toNat :: p.keys, (Command.ofPage p).payload.size) := by
  rw [Response.size_encode] at h
  rw [Command.payload_ofPage] at h ⊢
  have hlimited := Request.limited_of_size_le (Nat.le_trans (Nat.le_add_left _ _) h)
  have hread := Request.decode_encode_append hlimited .empty
  rwa [ByteArray.append_empty] at hread

/-- **The client shows the page**, and not the bytes of its payload. -/
theorem transcript_ofPage (h : (Command.ofPage p).encode.size ≤ lengthLimit) :
    Transcript.ofResponse "scan" (Command.ofPage p) =
      Transcript.page (toString p.next.toNat) p.keys := by
  have hstatus : (Command.ofPage p).status = Response.okay := rfl
  rw [Transcript.ofResponse, if_neg (not_not_intro hstatus), if_pos rfl, decode_payload_ofPage h]

end Client

namespace Store

variable {σ : Type} {cursor : String} {count : Option String} {start wanted : Nat}

/-- **A page survives the wire.** Whatever a store holds, let a scan have a cursor of
sixty-four bits, and a count that is absent or one as well, and let the frame of the answer
keep to the limit. Then the client reads the answer off the wire, whatever stands behind it;
it is in order, and its payload is, to the last byte, a list of texts: the next cursor in
decimal and the keys of the page in their order. The first of them is understood as a cursor
by every store, which goes on from the cursor that it was written for. And what the client
shows is this cursor and these keys, numbered from one. -/
theorem page_survives_wire (s : Store σ)
    (hcursor : Text.Numeral.read? Text.Numeral.max64 cursor = some start)
    (hcount : Command.wantedOf count = some wanted)
    (hframe : (s.answer (Command.scanArguments cursor count)).1.encode.size ≤ lengthLimit)
    (rest : ByteArray) :
    let answer := (s.answer (Command.scanArguments cursor count)).1
    let p := s.page start.toUInt64 wanted
    Response.decode (answer.encode ++ rest) = .ok (answer, answer.encode.size) ∧
      answer.status = Response.okay ∧
      Request.decode answer.payload =
        .ok (toString p.next.toNat :: p.keys, answer.payload.size) ∧
      (∀ (later : Store σ) (count : Option String) (wanted : Nat),
        Command.wantedOf count = some wanted →
        later.answer (Command.scanArguments (toString p.next.toNat) count) =
          (Command.ofPage (later.page p.next wanted), later)) ∧
      Transcript.ofResponse "scan" answer =
        s!"[srv] next cursor {p.next.toNat}\n" ++
          String.join (p.keys.mapIdx fun i key => s!"  {i + 1}) {key}\n") := by
  intro answer p
  have hanswer : answer = Command.ofPage p :=
    congrArg Prod.fst (s.answer_scanArguments hcursor hcount)
  have hlimit : (Command.ofPage p).encode.size ≤ lengthLimit := hanswer ▸ hframe
  refine ⟨Response.decode_encode_append hframe rest, ?_, ?_, ?_, ?_⟩
  · rw [hanswer]
    rfl
  · rw [hanswer]
    exact decode_payload_ofPage hlimit
  · intro later count wanted hcount
    exact later.answer_next p hcount
  · rw [hanswer]
    exact transcript_ofPage hlimit

/-- Two keys, one of them empty and one of two bytes, in a scan whose cursor has a sign and
a zero too many. -/
theorem page_survives_wire_of_two_keys :
    let s := (empty .standard 1 WordSource.splitMix 7).after
      [.request ["set", "", "1"], .request ["set", "é", "2"]]
    let answer := (s.answer (Command.scanArguments "+00" none)).1
    let p := s.page 0 10
    Text.Numeral.read? Text.Numeral.max64 "+00" = some 0 ∧
      Command.wantedOf none = some 10 ∧ answer.encode.size ≤ lengthLimit ∧
      Response.decode (answer.encode ++ ⟨#[7]⟩) = .ok (answer, answer.encode.size) ∧
      Request.decode answer.payload =
        .ok (toString p.next.toNat :: p.keys, answer.payload.size) := by
  intro s answer p
  have hcursor : Text.Numeral.read? Text.Numeral.max64 "+00" = some 0 := by decide +kernel
  have hframe : answer.encode.size ≤ lengthLimit := by decide +kernel
  obtain ⟨hresponse, -, hrequest, -, -⟩ := s.page_survives_wire hcursor rfl hframe ⟨#[7]⟩
  exact ⟨hcursor, rfl, hframe, hresponse, hrequest⟩

end Store

end Service

end TwinTable
