/-
What was written is read back, and nothing else is read.

A part that stands somewhere in a buffer is read off its position, whatever stands before
and behind it: a word (`wordAt_append_word`) and a text (`textAt_append_text`). A request is
a row of such parts, so that a reader that starts at its front goes through all of them and
stops where the request ends (`Request.decode_encode_append`).

The other direction, that bytes which are read are those that would be written, is
`Request.extract_of_decode`. What it leaves open is that a reader keeps to the limits: it
takes no argument, and not that many of them, that it would have to refuse
(`Request.limited_of_decode`). The two directions together say that the reader accepts the
image of the writer within the limits, and each request in one spelling only.

A response is read back as well, but not every one. The limit that holds for one argument of a
request holds here for the whole frame, header included (`Response.decode_encode_iff`).
-/
import TwinTable.Proofs.Wire.Frames

set_option autoImplicit false

namespace TwinTable.Wire

/-! ## Parts in the middle of a buffer -/

theorem byteAt_append_right (front back : ByteArray) (i : Nat) :
    byteAt (front ++ back) (front.size + i) = byteAt back i := by
  by_cases h : i < back.size
  · have h' : front.size + i < (front ++ back).size := by
      rw [ByteArray.size_append]
      omega
    rw [byteAt, byteAt, dif_pos h', dif_pos h]
    refine congrArg UInt8.toNat ((ByteArray.getElem_append_right (by omega)).trans ?_)
    simp only [Nat.add_sub_cancel_left]
    rfl
  · have h' : ¬ front.size + i < (front ++ back).size := by
      rw [ByteArray.size_append]
      omega
    rw [byteAt, byteAt, dif_neg h', dif_neg h]

/-- Where a part stands behind another one. -/
theorem extract_append_middle (front middle back : ByteArray) :
    (front ++ middle ++ back).extract front.size (front.size + middle.size) = middle := by
  rw [extract_append_of_le back (by rw [ByteArray.size_append]), ByteArray.extract_append,
    ByteArray.extract_eq_empty_iff.mpr (by omega), ByteArray.empty_append, Nat.sub_self,
    Nat.add_sub_cancel_left, ByteArray.extract_zero_size]

/-- **A word that was written is read**, as long as it is one: four bytes hold no more than
a number below 2^32. -/
theorem wordAt_append_word (front : ByteArray) {n : Nat} (hn : n < 2 ^ 32) (back : ByteArray) :
    wordAt (front ++ word n ++ back) front.size = .ok n := by
  have hsize : ¬ (front ++ word n ++ back).size < front.size + 4 := by
    rw [ByteArray.size_append, ByteArray.size_append, size_word]
    omega
  have hbyte : ∀ i, i < 4 →
      byteAt (front ++ word n ++ back) (front.size + i) = byteAt (word n) i := by
    intro i hi
    rw [ByteArray.append_assoc, byteAt_append_right, byteAt_append back (by rwa [size_word])]
  have hfirst := hbyte 0 (by omega)
  rw [Nat.add_zero] at hfirst
  rw [wordAt, if_neg hsize, hfirst, hbyte 1 (by omega), hbyte 2 (by omega), hbyte 3 (by omega)]
  -- each byte is a digit to the base 256, and four digits are all that such a number has
  have h₀ : byteAt (word n) 0 = n / 256 / 256 / 256 % 256 := rfl
  have h₁ : byteAt (word n) 1 = n / 256 / 256 % 256 := rfl
  have h₂ : byteAt (word n) 2 = n / 256 % 256 := rfl
  have h₃ : byteAt (word n) 3 = n % 256 := rfl
  rw [h₀, h₁, h₂, h₃]
  exact congrArg Except.ok (by omega)

theorem size_toUTF8 (text : String) : text.toUTF8.size = text.utf8ByteSize := by
  rw [String.toUTF8_eq_toByteArray, String.size_toByteArray]

/-- **A text that was written is read**, since the bytes of a text are UTF-8. -/
theorem textAt_append_text (front : ByteArray) (text : String) (back : ByteArray) :
    textAt (front ++ text.toUTF8 ++ back) front.size text.utf8ByteSize = .ok text := by
  have hsize : ¬ (front ++ text.toUTF8 ++ back).size < front.size + text.utf8ByteSize := by
    rw [ByteArray.size_append, ByteArray.size_append, size_toUTF8]
    omega
  rw [textAt, if_neg hsize, ← size_toUTF8, extract_append_middle]
  have hread : String.fromUTF8? text.toUTF8 = some text := by
    rw [String.fromUTF8?, String.toUTF8_eq_toByteArray, dif_pos text.isValidUTF8]
    rfl
  rw [hread]

/-! ## Requests -/

namespace Request

/-- The arguments of a request that a reader does not refuse. -/
structure Limited (args : List String) : Prop where
  count : args.length ≤ lengthLimit
  text : ∀ arg ∈ args, arg.utf8ByteSize ≤ lengthLimit

/-- The limits are far below what a word holds. -/
theorem lt_of_le_lengthLimit {n : Nat} (h : n ≤ lengthLimit) : n < 2 ^ 32 :=
  Nat.lt_of_le_of_lt h (by decide)

/-- Each argument takes its bytes and a word for their number. -/
theorem size_arguments (args : List String) : (args.foldl appendArgument .empty).size =
    (args.map fun arg => 4 + arg.utf8ByteSize).sum := by
  induction args with
  | nil => rfl
  | cons arg args ih =>
    rw [List.foldl_cons, foldl_appendArgument, ByteArray.size_append, ih, appendArgument,
      ByteArray.empty_append, ByteArray.size_append, size_word, size_toUTF8, List.map_cons,
      List.sum_cons]

/-- **A short frame keeps to the limits**: it is longer than each of its arguments, and it has
more bytes than arguments. -/
theorem limited_of_size_le {args : List String} (h : (encode args).size ≤ lengthLimit) :
    Limited args := by
  rw [encode_eq, ByteArray.size_append, size_word, size_arguments] at h
  constructor
  · have hcount : args.length ≤ (args.map fun arg => 4 + arg.utf8ByteSize).sum := by
      rw [← List.length_map (fun arg : String => 4 + arg.utf8ByteSize)]
      refine List.length_le_sum_of_one_le _ fun n hn => ?_
      obtain ⟨arg, -, rfl⟩ := List.mem_map.mp hn
      omega
    omega
  · intro arg harg
    have htext := List.single_le_sum (fun _ _ => Nat.zero_le _) _
      (List.mem_map_of_mem (f := fun arg : String => 4 + arg.utf8ByteSize) harg)
    omega

/-- Arguments that were written are read one by one, up to where they end. -/
theorem decodeArguments_append_arguments (rest : ByteArray) : ∀ (args : List String)
    (front : ByteArray) (earlier : List String),
      (∀ arg ∈ args, arg.utf8ByteSize ≤ lengthLimit) →
      decodeArguments (front ++ args.foldl appendArgument .empty ++ rest) args.length front.size
          earlier =
        .ok (earlier.reverse ++ args, front.size + (args.foldl appendArgument .empty).size) := by
  intro args
  -- induction on the arguments to come; what was read goes over to the front
  induction args with
  | nil =>
    intro front earlier _
    rw [List.length_nil, decodeArguments, List.append_nil]
    rfl
  | cons arg args ih =>
    intro front earlier hlimit
    have hlength := hlimit arg List.mem_cons_self
    have hargument : (arg :: args).foldl appendArgument .empty =
        word arg.utf8ByteSize ++ arg.toUTF8 ++ args.foldl appendArgument .empty := by
      rw [List.foldl_cons, foldl_appendArgument, appendArgument, ByteArray.empty_append]
    have hword := wordAt_append_word front (lt_of_le_lengthLimit hlength)
      (arg.toUTF8 ++ args.foldl appendArgument .empty ++ rest)
    have htext := textAt_append_text (front ++ word arg.utf8ByteSize) arg
      (args.foldl appendArgument .empty ++ rest)
    have hrest := ih (front ++ word arg.utf8ByteSize ++ arg.toUTF8) (arg :: earlier)
      fun x hx => hlimit x (List.mem_cons_of_mem _ hx)
    simp only [ByteArray.size_append, size_word, size_toUTF8, ByteArray.append_assoc]
      at hword htext hrest
    rw [List.length_cons, decodeArguments, hargument]
    simp only [ByteArray.append_assoc]
    rw [hword]
    dsimp only
    rw [if_neg (Nat.not_lt.mpr hlength), htext]
    dsimp only
    rw [Nat.add_assoc, hrest]
    simp only [List.reverse_cons, List.append_assoc, List.singleton_append, ByteArray.size_append,
      size_word, size_toUTF8, Nat.add_assoc]

/-- **A request that was written is read**, whatever stands behind it. -/
theorem decode_encode_append {args : List String} (h : Limited args) (rest : ByteArray) :
    decode (encode args ++ rest) = .ok (args, (encode args).size) := by
  have hword := wordAt_append_word .empty (lt_of_le_lengthLimit h.count)
    (args.foldl appendArgument .empty ++ rest)
  have hargs := decodeArguments_append_arguments rest args (word args.length) [] h.text
  rw [ByteArray.empty_append, ← ByteArray.append_assoc] at hword
  rw [decode, encode_eq]
  simp only [ByteArray.size_empty] at hword
  rw [hword]
  dsimp only
  rw [if_neg (Nat.not_lt.mpr h.count), ByteArray.size_append]
  exact hargs

/-- Nothing is no request yet. -/
theorem decode_empty : decode .empty = .error (.incomplete 4 0) := rfl

/-- **A stream of requests that were written** is read off as these requests, up to bytes
that are no request. -/
theorem decodeAll_joined {rest : ByteArray} {e : FrameError} (hrest : decode rest = .error e) :
    ∀ requests : List (List String), (∀ request ∈ requests, Limited request) →
      decodeAll (joined (requests.map encode) ++ rest) =
        (requests.map fun request => (request, (encode request).size), e, rest) := by
  intro requests hlimited
  have hsplits := splits_joined requests
    (fun request hrequest => decode_encode_append (hlimited request hrequest)) hrest
  obtain ⟨hframes, hstop, hleft⟩ := (splits_decodeAll _).unique hsplits
  exact Prod.ext hframes (Prod.ext hstop hleft)

/-- Bytes behind those that cannot become a request do not mend them, and hold no request. -/
theorem decodeAll_append_of_malformed {src : ByteArray} (more : ByteArray)
    (h : (decodeAll src).2.1 = .malformed) :
    decodeAll (src ++ more) = ((decodeAll src).1, .malformed, (decodeAll src).2.2 ++ more) := by
  have hrest := decode_rest src
  rw [h] at hrest
  have hbehind : decode ((decodeAll src).2.2 ++ more) = .error .malformed := by
    rw [decode_append more (hrest ▸ isFinal_malformed), hrest]
  have hnone := decodeAll_joined hbehind [] fun _ h => absurd h List.not_mem_nil
  rw [List.map_nil, joined_nil, ByteArray.empty_append, List.map_nil] at hnone
  rw [decodeAll_append, hnone, List.append_nil]

/-- What is read keeps to the limit on the length of a text. -/
theorem le_of_decodeArguments {src : ByteArray} : ∀ (count pos : Nat) (earlier : List String)
    {args : List String} {used : Nat}, decodeArguments src count pos earlier = .ok (args, used) →
      (∀ arg ∈ earlier, arg.utf8ByteSize ≤ lengthLimit) →
      args.length = earlier.length + count ∧ ∀ arg ∈ args, arg.utf8ByteSize ≤ lengthLimit := by
  intro count
  induction count with
  | zero =>
    intro pos earlier args used h hearlier
    obtain ⟨rfl, -⟩ : earlier.reverse = args ∧ pos = used := by simpa [decodeArguments] using h
    exact ⟨List.length_reverse, fun arg harg => hearlier arg (List.mem_reverse.mp harg)⟩
  | succ count ih =>
    intro pos earlier args used h hearlier
    rw [decodeArguments] at h
    rcases hword : wordAt src pos with e | len
    · rw [hword] at h
      exact absurd h (by simp)
    · rw [hword] at h
      dsimp only at h
      split at h
      · exact absurd h (by simp)
      · rename_i hlimit
        rcases htext : textAt src (pos + 4) len with e | text
        · rw [htext] at h
          exact absurd h (by simp)
        · rw [htext] at h
          obtain ⟨-, -, hlen⟩ := extract_of_textAt htext
          have hnew : ∀ arg ∈ text :: earlier, arg.utf8ByteSize ≤ lengthLimit := by
            intro arg harg
            rcases List.mem_cons.mp harg with rfl | harg
            · omega
            · exact hearlier arg harg
          obtain ⟨hcount, hall⟩ := ih _ _ h hnew
          rw [List.length_cons] at hcount
          exact ⟨by omega, hall⟩

/-- **What is read keeps to the limits.** -/
theorem limited_of_decode {src : ByteArray} {args : List String} {used : Nat}
    (h : decode src = .ok (args, used)) : Limited args := by
  rw [decode] at h
  rcases hword : wordAt src 0 with e | count
  · rw [hword] at h
    exact absurd h (by simp)
  · rw [hword] at h
    dsimp only at h
    split at h
    · exact absurd h (by simp)
    · rename_i hlimit
      obtain ⟨hcount, htext⟩ :=
        le_of_decodeArguments _ _ _ h fun arg harg => absurd harg List.not_mem_nil
      rw [List.length_nil] at hcount
      exact ⟨by omega, htext⟩

/-- **The reader accepts exactly what the writer makes**, within the limits: it reads some
arguments off the first bytes of a buffer if and only if these bytes are the frame of the
arguments. So whatever is written is read back with any bytes behind it, and what was read
is written again as the bytes that it was read from. -/
theorem decode_eq_ok_iff_encode (src : ByteArray) (args : List String) (used : Nat) :
    (decode src = .ok (args, used) ↔
      used ≤ src.size ∧ src.extract 0 used = encode args ∧ args.length ≤ lengthLimit ∧
        ∀ arg ∈ args, arg.utf8ByteSize ≤ lengthLimit) ∧
      (Limited args → ∀ rest, decode (encode args ++ rest) = .ok (args, (encode args).size)) := by
  refine ⟨⟨?_, ?_⟩, decode_encode_append⟩
  · intro h
    obtain ⟨-, hused, hbytes⟩ := extract_of_decode h
    have hlimited := limited_of_decode h
    exact ⟨hused, hbytes, hlimited.count, hlimited.text⟩
  · rintro ⟨hused, hbytes, hcount, htext⟩
    have hread := decode_encode_append ⟨hcount, htext⟩ (src.extract used src.size)
    -- the bytes are as many as are used, and with the rest behind them they are the buffer
    have hlength := congrArg ByteArray.size hbytes
    rw [ByteArray.size_extract] at hlength
    rw [← hbytes, extract_append_rest hused, hbytes] at hread
    rw [hread]
    exact congrArg (fun n => Except.ok (args, n)) (by omega)

/-- A request with an empty argument and one that takes three bytes, with a byte behind it. -/
theorem decode_encode_with_a_byte_behind :
    Limited ["get", "", "é!"] ∧
      decode (encode ["get", "", "é!"] ++ ⟨#[7]⟩) =
        .ok (["get", "", "é!"], (encode ["get", "", "é!"]).size) := by
  have hlimited : Limited ["get", "", "é!"] := ⟨by decide, by decide⟩
  exact ⟨hlimited, (decode_eq_ok_iff_encode .empty _ 0).2 hlimited _⟩

end Request

/-! ## Responses -/

namespace Response

variable {r : Response}

/-- The first word of a frame is its length, as long as it fits into a word. -/
theorem wordAt_encode_append (h : r.encode.size < 2 ^ 32) (rest : ByteArray) :
    wordAt (r.encode ++ rest) 0 = .ok r.encode.size := by
  rw [size_encode] at h ⊢
  have hword := wordAt_append_word .empty h (word r.status.toUInt32.toNat ++ r.payload ++ rest)
  rw [ByteArray.empty_append, ByteArray.size_empty] at hword
  rw [encode]
  simpa only [ByteArray.append_assoc] using hword

/-- **A response that was written is read**, whatever stands behind it, if its frame keeps to
the limit. -/
theorem decode_encode_append (h : r.encode.size ≤ lengthLimit) (rest : ByteArray) :
    decode (r.encode ++ rest) = .ok (r, r.encode.size) := by
  have hheader : headerSize ≤ r.encode.size := by
    rw [size_encode]
    exact Nat.le_add_right _ _
  have hthere : ¬ (r.encode ++ rest).size < r.encode.size := by
    rw [ByteArray.size_append]
    omega
  have hstatus : wordAt (r.encode ++ rest) 4 = .ok r.status.toUInt32.toNat := by
    rw [encode, ByteArray.append_assoc]
    exact wordAt_append_word (word _) r.status.toUInt32.toNat_lt (r.payload ++ rest)
  have hpayload : (r.encode ++ rest).extract headerSize r.encode.size = r.payload := by
    have hmiddle := extract_append_middle
      (word (headerSize + r.payload.size) ++ word r.status.toUInt32.toNat) r.payload rest
    rw [ByteArray.size_append, size_word, size_word] at hmiddle
    rw [size_encode]
    exact hmiddle
  have hword : r.status.toUInt32.toNat.toUInt32.toInt32 = r.status :=
    (congrArg UInt32.toInt32 UInt32.ofNat_toNat).trans (Int32.toInt32_toUInt32 _)
  have hlimits : ¬ (r.encode.size < headerSize || lengthLimit < r.encode.size) = true := by
    rw [Bool.or_eq_true, decide_eq_true_eq, decide_eq_true_eq]
    omega
  rw [decode, wordAt_encode_append (Request.lt_of_le_lengthLimit h)]
  dsimp only
  rw [if_neg hlimits, if_neg hthere, hstatus]
  dsimp only
  rw [hpayload, hword]

/-- What is read keeps to the limit. -/
theorem le_of_decode {src : ByteArray} {used : Nat} (h : decode src = .ok (r, used)) :
    used ≤ lengthLimit := by
  rw [decode] at h
  split at h
  · exact absurd h (by simp)
  · split at h
    · exact absurd h (by simp)
    · rename_i hlimits
      split at h
      · exact absurd h (by simp)
      · split at h
        · exact absurd h (by simp)
        · obtain ⟨-, rfl⟩ := Prod.mk.inj (Except.ok.inj h)
          simp only [Bool.or_eq_true, decide_eq_true_eq] at hlimits
          omega

/-- **A response above the limit is refused**, although all of it is there. -/
theorem decode_encode_of_lt (h : lengthLimit < r.encode.size) (hword : r.encode.size < 2 ^ 32)
    (rest : ByteArray) : decode (r.encode ++ rest) = .error .malformed := by
  have hlimits : (r.encode.size < headerSize || lengthLimit < r.encode.size) = true := by
    rw [Bool.or_eq_true, decide_eq_true_eq, decide_eq_true_eq]
    exact .inr h
  rw [decode, wordAt_encode_append hword]
  dsimp only
  rw [if_pos hlimits]

/-- A response is read back exactly if its frame keeps to the limit, header included. -/
theorem decode_encode_iff (rest : ByteArray) :
    decode (r.encode ++ rest) = .ok (r, r.encode.size) ↔ r.encode.size ≤ lengthLimit :=
  ⟨le_of_decode, fun h => decode_encode_append h rest⟩

end Response
end TwinTable.Wire
