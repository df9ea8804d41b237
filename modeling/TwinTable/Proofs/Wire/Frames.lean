/-
What a reader of frames makes of a buffer, and of the same buffer with more behind it.

A part of a frame is read only when all its bytes are there. So a result other than that
bytes are missing is final: it stays what it is when more bytes come (`decode_append`), and
the bytes that were used are exactly those that the writer makes of what was read
(`extract_of_decode`). For a stream of frames it follows that it may be cut anywhere: what
was read off the first piece, and then off its rest with the second piece behind it, is what
is read off the two at once (`decodeAll_append`).
-/
import Mathlib
import TwinTable.Wire.Response

set_option autoImplicit false

namespace TwinTable.Wire

/-! ## Pieces of bytes -/

/-- Pieces of bytes one behind the other. -/
def joined (pieces : List ByteArray) : ByteArray := pieces.foldl (· ++ ·) .empty

@[simp] theorem joined_nil : joined [] = .empty := rfl

theorem foldl_append (pieces : List ByteArray) : ∀ before : ByteArray,
    pieces.foldl (· ++ ·) before = before ++ joined pieces := by
  -- induction on the pieces, with any bytes before them
  induction pieces with
  | nil => intro before; exact ByteArray.append_empty.symm
  | cons piece pieces ih =>
    intro before
    rw [joined, List.foldl_cons, List.foldl_cons, ih, ih, ByteArray.empty_append,
      ByteArray.append_assoc]

@[simp] theorem joined_cons (piece : ByteArray) (pieces : List ByteArray) :
    joined (piece :: pieces) = piece ++ joined pieces := by
  rw [joined, List.foldl_cons, foldl_append, ByteArray.empty_append]

@[simp] theorem joined_append (front back : List ByteArray) :
    joined (front ++ back) = joined front ++ joined back := by
  rw [joined, List.foldl_append, foldl_append]
  rfl

/-- What is cut off the front and what is left make up the whole. -/
theorem extract_append_rest {src : ByteArray} {n : Nat} (h : n ≤ src.size) :
    src.extract 0 n ++ src.extract n src.size = src := by
  rw [← ByteArray.extract_eq_extract_append_extract n (Nat.zero_le n) h,
    ByteArray.extract_zero_size]

/-- More bytes behind a buffer do not change a part of it. -/
theorem extract_append_of_le {src : ByteArray} (more : ByteArray) {i j : Nat}
    (h : j ≤ src.size) : (src ++ more).extract i j = src.extract i j := by
  rw [ByteArray.extract_append]
  have hnone : more.extract (i - src.size) (j - src.size) = .empty := by
    rw [ByteArray.extract_eq_empty_iff]
    omega
  rw [hnone, ByteArray.append_empty]

theorem extract_append_to_end {src : ByteArray} (more : ByteArray) {i : Nat}
    (h : i ≤ src.size) :
    (src ++ more).extract i (src ++ more).size = src.extract i src.size ++ more := by
  rw [ByteArray.extract_append, ByteArray.size_append]
  have hback : more.extract (i - src.size) (src.size + more.size - src.size) = more := by
    have hzero : i - src.size = 0 := by omega
    rw [hzero, Nat.add_sub_cancel_left, ByteArray.extract_zero_size]
  have hfront : src.extract i (src.size + more.size) = src.extract i src.size := by
    have hnone : src.extract src.size (src.size + more.size) = .empty := by
      rw [ByteArray.extract_eq_empty_iff]
      omega
    rw [ByteArray.extract_eq_extract_append_extract src.size h (Nat.le_add_right _ _), hnone,
      ByteArray.append_empty]
  rw [hback, hfront]

/-! ## Words and texts -/

theorem byteAt_append {src : ByteArray} (more : ByteArray) {pos : Nat} (h : pos < src.size) :
    byteAt (src ++ more) pos = byteAt src pos := by
  have h' : pos < (src ++ more).size := by
    rw [ByteArray.size_append]
    omega
  rw [byteAt, byteAt, dif_pos h', dif_pos h]
  exact congrArg UInt8.toNat (ByteArray.getElem_append_left h)

theorem wordAt_append {src : ByteArray} (more : ByteArray) {pos : Nat}
    (h : pos + 4 ≤ src.size) : wordAt (src ++ more) pos = wordAt src pos := by
  have h' : pos + 4 ≤ (src ++ more).size := by
    rw [ByteArray.size_append]
    omega
  rw [wordAt, wordAt, if_neg (by omega), if_neg (by omega), byteAt_append more (by omega),
    byteAt_append more (by omega), byteAt_append more (by omega), byteAt_append more (by omega)]

/-- The four bytes of a word that is put together from four bytes. -/
theorem word_of_bytes (a b c d : UInt8) :
    word (((a.toNat * 256 + b.toNat) * 256 + c.toNat) * 256 + d.toNat) =
      [a, b, c, d].toByteArray := by
  have ha := a.toNat_lt
  have hb := b.toNat_lt
  have hc := c.toNat_lt
  have hd := d.toNat_lt
  -- dividing by 256 takes the last byte off, and what is left is taken modulo 256
  have hbyte : ∀ (x : UInt8) (n : Nat), n % 256 = x.toNat → n.toUInt8 = x := by
    intro x n hn
    refine UInt8.toNat_inj.mp ?_
    rw [← hn]
    exact UInt8.toNat_ofNat'
  generalize hn : ((a.toNat * 256 + b.toNat) * 256 + c.toNat) * 256 + d.toNat = n
  have h₃ := hbyte a (n / 256 / 256 / 256) (by omega)
  have h₂ := hbyte b (n / 256 / 256) (by omega)
  have h₁ := hbyte c (n / 256) (by omega)
  have h₀ := hbyte d n (by omega)
  rw [word, h₃, h₂, h₁, h₀]
  rfl

/-- A word that was read is there. -/
theorem extract_of_wordAt {src : ByteArray} {pos n : Nat} (h : wordAt src pos = .ok n) :
    pos + 4 ≤ src.size ∧ src.extract pos (pos + 4) = word n := by
  rw [wordAt] at h
  split at h
  · exact absurd h (by simp)
  · rename_i hshort
    have hsize : pos + 4 ≤ src.size := by omega
    have hbyte : ∀ i, (hi : i < src.size) → byteAt src i = src[i].toNat := by
      intro i hi
      rw [byteAt, dif_pos hi]
      rfl
    refine ⟨hsize, ?_⟩
    rw [← Except.ok.inj h, hbyte pos (by omega), hbyte (pos + 1) (by omega),
      hbyte (pos + 2) (by omega), hbyte (pos + 3) (by omega), word_of_bytes,
      ByteArray.extract_add_four hsize]

theorem textAt_append {src : ByteArray} (more : ByteArray) {pos len : Nat}
    (h : pos + len ≤ src.size) : textAt (src ++ more) pos len = textAt src pos len := by
  have h' : pos + len ≤ (src ++ more).size := by
    rw [ByteArray.size_append]
    omega
  rw [textAt, textAt, if_neg (by omega), if_neg (by omega), extract_append_of_le more h]

/-- A text that was read is there. -/
theorem extract_of_textAt {src : ByteArray} {pos len : Nat} {text : String}
    (h : textAt src pos len = .ok text) :
    pos + len ≤ src.size ∧ src.extract pos (pos + len) = text.toUTF8 ∧
      text.utf8ByteSize = len := by
  rw [textAt] at h
  split at h
  · exact absurd h (by simp)
  · rename_i hshort
    have hsize : pos + len ≤ src.size := by omega
    have hbytes : src.extract pos (pos + len) = text.toUTF8 := by
      split at h
      · rename_i found hfound
        rw [String.fromUTF8?] at hfound
        split at hfound
        · rw [← Except.ok.inj h, ← Option.some.inj hfound]
          rfl
        · exact absurd hfound (by simp)
      · exact absurd h (by simp)
    refine ⟨hsize, hbytes, ?_⟩
    have hlength := congrArg ByteArray.size hbytes
    rw [ByteArray.size_extract, String.toUTF8_eq_toByteArray, String.size_toByteArray] at hlength
    omega

/-! ## Requests -/

namespace Request

theorem foldl_appendArgument (args : List String) : ∀ frame : ByteArray,
    args.foldl appendArgument frame = frame ++ args.foldl appendArgument .empty := by
  induction args with
  | nil => intro frame; exact ByteArray.append_empty.symm
  | cons arg args ih =>
    intro frame
    rw [List.foldl_cons, List.foldl_cons, ih, ih (appendArgument .empty arg), appendArgument,
      appendArgument, ByteArray.empty_append]
    simp only [ByteArray.append_assoc]

/-- A frame is the number of its arguments, and then the arguments. -/
theorem encode_eq (args : List String) :
    encode args = word args.length ++ args.foldl appendArgument .empty :=
  foldl_appendArgument args _

/-- A result that no further byte can change: not that bytes are missing. -/
def IsFinal {α : Type} (result : Except FrameError α) : Prop :=
  ∀ want got, result ≠ .error (.incomplete want got)

theorem isFinal_ok {α : Type} (x : α) : IsFinal (.ok x : Except FrameError α) :=
  fun _ _ => by simp

theorem isFinal_malformed {α : Type} : IsFinal (.error .malformed : Except FrameError α) :=
  fun _ _ => by simp

theorem decodeArguments_append {src : ByteArray} (more : ByteArray) : ∀ (count pos : Nat)
    (earlier : List String), IsFinal (decodeArguments src count pos earlier) →
      decodeArguments (src ++ more) count pos earlier =
        decodeArguments src count pos earlier := by
  intro count
  -- induction on the arguments to come; each part that is short of bytes is not final
  induction count with
  | zero => intro pos earlier _; rfl
  | succ count ih =>
    intro pos earlier hfinal
    rw [decodeArguments] at hfinal ⊢
    rw [decodeArguments]
    rcases Nat.lt_or_ge src.size (pos + 4) with hshort | hword
    · rw [wordAt, if_pos hshort] at hfinal
      exact absurd rfl (hfinal _ _)
    · rw [wordAt_append more hword]
      revert hfinal
      rcases wordAt src pos with e | len
      · intro _; rfl
      · intro hfinal
        dsimp only at hfinal ⊢
        split
        · rfl
        · rename_i hlimit
          rw [if_neg hlimit] at hfinal
          rcases Nat.lt_or_ge src.size (pos + 4 + len) with hshort | htext
          · rw [textAt, if_pos hshort] at hfinal
            exact absurd rfl (hfinal _ _)
          · rw [textAt_append more htext]
            revert hfinal
            rcases textAt src (pos + 4) len with e | text
            · intro _; rfl
            · exact ih _ _

/-- **A final result stays**, whatever bytes come. -/
theorem decode_append {src : ByteArray} (more : ByteArray) (hfinal : IsFinal (decode src)) :
    decode (src ++ more) = decode src := by
  rw [decode] at hfinal ⊢
  rw [decode]
  rcases Nat.lt_or_ge src.size (0 + 4) with hshort | hword
  · rw [wordAt, if_pos hshort] at hfinal
    exact absurd rfl (hfinal _ _)
  · rw [wordAt_append more hword]
    revert hfinal
    rcases wordAt src 0 with e | count
    · intro _; rfl
    · intro hfinal
      dsimp only at hfinal ⊢
      split
      · rfl
      · rename_i hlimit
        rw [if_neg hlimit] at hfinal
        exact decodeArguments_append more _ _ _ hfinal

/-- Arguments that were read are there, one behind the other. -/
theorem extract_of_decodeArguments {src : ByteArray} : ∀ (count pos : Nat)
    (earlier : List String) {args : List String} {used : Nat}, pos ≤ src.size →
      decodeArguments src count pos earlier = .ok (args, used) →
      ∃ new, args = earlier.reverse ++ new ∧ new.length = count ∧ pos ≤ used ∧
        used ≤ src.size ∧ src.extract pos used = new.foldl appendArgument .empty := by
  intro count
  -- induction on the arguments to come; those read earlier are kept in reverse
  induction count with
  | zero =>
    intro pos earlier args used hpos h
    obtain ⟨rfl, rfl⟩ : earlier.reverse = args ∧ pos = used := by
      simpa [decodeArguments] using h
    exact ⟨[], (List.append_nil _).symm, rfl, le_refl _, hpos, ByteArray.extract_same⟩
  | succ count ih =>
    intro pos earlier args used hpos h
    rw [decodeArguments] at h
    rcases hword : wordAt src pos with e | len
    · rw [hword] at h
      exact absurd h (by simp)
    · rw [hword] at h
      dsimp only at h
      split at h
      · exact absurd h (by simp)
      · rcases htext : textAt src (pos + 4) len with e | text
        · rw [htext] at h
          exact absurd h (by simp)
        · rw [htext] at h
          obtain ⟨hsize, hbytes⟩ := extract_of_wordAt hword
          obtain ⟨hsize', hbytes', hlen⟩ := extract_of_textAt htext
          obtain ⟨new, hargs, hcount, hle, hused, hnew⟩ := ih _ _ hsize' h
          refine ⟨text :: new, ?_, by rw [List.length_cons, hcount], by omega, hused, ?_⟩
          · rw [hargs, List.reverse_cons, List.append_assoc]
            rfl
          · rw [ByteArray.extract_eq_extract_append_extract (pos + 4) (by omega) (by omega),
              ByteArray.extract_eq_extract_append_extract (pos + 4 + len) (by omega) hle, hbytes,
              hbytes', hnew, List.foldl_cons,
              foldl_appendArgument new (appendArgument .empty text), appendArgument, hlen,
              ByteArray.empty_append, ByteArray.append_assoc]

/-- **A request that was read is there**, byte for byte as it is written. -/
theorem extract_of_decode {src : ByteArray} {args : List String} {used : Nat}
    (h : decode src = .ok (args, used)) :
    4 ≤ used ∧ used ≤ src.size ∧ src.extract 0 used = encode args := by
  rw [decode] at h
  rcases hword : wordAt src 0 with e | count
  · rw [hword] at h
    exact absurd h (by simp)
  · rw [hword] at h
    dsimp only at h
    split at h
    · exact absurd h (by simp)
    · obtain ⟨hsize, hbytes⟩ := extract_of_wordAt hword
      obtain ⟨new, hargs, hcount, hle, hused, hnew⟩ :=
        extract_of_decodeArguments count 4 [] hsize h
      obtain rfl : args = new := hargs
      refine ⟨hle, hused, ?_⟩
      rw [ByteArray.extract_eq_extract_append_extract 4 (by omega) hle, hnew, encode_eq, hcount]
      exact congrArg (· ++ _) hbytes

end Request

/-! ## Streams of frames -/

/-- How a buffer splits: into frames, why there is not one more, and the rest. -/
inductive Splits {α : Type} (decode : ByteArray → Except FrameError (α × Nat)) :
    ByteArray → List (α × Nat) → FrameError → ByteArray → Prop
  | stop {src : ByteArray} {e : FrameError} (h : decode src = .error e) :
      Splits decode src [] e src
  | frame {src rest : ByteArray} {e : FrameError} {frame : α} {used : Nat}
      {frames : List (α × Nat)} (h : decode src = .ok (frame, used))
      (h' : Splits decode (src.extract used src.size) frames e rest) :
      Splits decode src ((frame, used) :: frames) e rest

/-- What a reader of frames has to keep to: it uses some bytes of those that are there, and
more bytes behind a frame do not change the frame. -/
structure Framing {α : Type} (decode : ByteArray → Except FrameError (α × Nat)) : Prop where
  pos_used : ∀ {src frame used}, decode src = .ok (frame, used) → 0 < used
  used_le : ∀ {src frame used}, decode src = .ok (frame, used) → used ≤ src.size
  append : ∀ {src frame used} (more : ByteArray), decode src = .ok (frame, used) →
    decode (src ++ more) = .ok (frame, used)

theorem Request.framing : Framing Request.decode where
  pos_used h := Nat.lt_of_lt_of_le (by omega) (Request.extract_of_decode h).1
  used_le h := (Request.extract_of_decode h).2.1
  append more h := by
    rw [Request.decode_append more (h ▸ Request.isFinal_ok _), h]

section Streams

variable {α : Type} {decode : ByteArray → Except FrameError (α × Nat)}

/-- With as many steps as there are bytes, and one more, the reader gets to the end. -/
theorem splits_splitFrames (hd : Framing decode) : ∀ (most : Nat) (src : ByteArray),
    src.size < most →
      Splits decode src (splitFrames decode most src).1 (splitFrames decode most src).2.1
        (splitFrames decode most src).2.2 := by
  intro most
  -- induction on the steps; each frame takes at least one byte off the buffer
  induction most with
  | zero => intro src h; omega
  | succ most ih =>
    intro src hmost
    rw [splitFrames]
    rcases h : decode src with e | ⟨frame, used⟩
    · exact .stop h
    · have hpos := hd.pos_used h
      have hle := hd.used_le h
      refine .frame h (ih (src.extract used src.size) ?_)
      rw [ByteArray.size_extract]
      omega

/-- A buffer splits in one way. -/
theorem Splits.unique {src rest rest' : ByteArray} {e e' : FrameError}
    {frames frames' : List (α × Nat)} (h : Splits decode src frames e rest)
    (h' : Splits decode src frames' e' rest') : frames = frames' ∧ e = e' ∧ rest = rest' := by
  -- the reader is a function, so at each frame it can do one thing only
  induction h generalizing frames' with
  | stop h =>
    cases h' with
    | stop h₁ => exact ⟨rfl, Except.error.inj (h.symm.trans h₁), rfl⟩
    | frame h₁ _ => exact absurd (h.symm.trans h₁) (by simp)
  | frame h _ ih =>
    cases h' with
    | stop h₁ => exact absurd (h.symm.trans h₁) (by simp)
    | frame h₁ h₂ =>
      obtain ⟨rfl, rfl⟩ := Prod.mk.inj (Except.ok.inj (h.symm.trans h₁))
      obtain ⟨rfl, rfl, rfl⟩ := ih h₂
      exact ⟨rfl, rfl, rfl⟩

/-- **A stream may be cut anywhere**: the frames of a buffer, and then those of its rest with
more bytes behind it. -/
theorem Splits.append (hd : Framing decode) {src more rest rest' : ByteArray}
    {e e' : FrameError} {frames frames' : List (α × Nat)} (h : Splits decode src frames e rest)
    (h' : Splits decode (rest ++ more) frames' e' rest') :
    Splits decode (src ++ more) (frames ++ frames') e' rest' := by
  -- induction on the frames of the first piece, which stay frames with more behind them
  induction h with
  | stop _ => exact h'
  | frame h _ ih =>
    refine .frame (hd.append more h) ?_
    rw [extract_append_to_end more (hd.used_le h)]
    exact ih h'

/-- **A stream of frames that were written** splits into these frames, up to bytes that are no
frame. -/
theorem splits_joined {encode : α → ByteArray} {rest : ByteArray} {e : FrameError}
    (items : List α)
    (hread : ∀ x ∈ items, ∀ more, decode (encode x ++ more) = .ok (x, (encode x).size))
    (hrest : decode rest = .error e) :
    Splits decode (joined (items.map encode) ++ rest) (items.map fun x => (x, (encode x).size)) e
      rest := by
  induction items with
  | nil =>
    rw [List.map_nil, joined_nil, ByteArray.empty_append]
    exact .stop hrest
  | cons x items ih =>
    rw [List.map_cons, joined_cons, ByteArray.append_assoc]
    refine .frame (hread x List.mem_cons_self _) ?_
    rw [extract_append_to_end _ (le_refl _), ByteArray.extract_same, ByteArray.empty_append]
    exact ih fun y hy => hread y (List.mem_cons_of_mem _ hy)

/-- The frames and the rest are the buffer, if each frame is what the writer makes of it. -/
theorem Splits.joined_eq (hd : Framing decode) {encode : α → ByteArray}
    (hencode : ∀ {src frame used}, decode src = .ok (frame, used) →
      src.extract 0 used = encode frame)
    {src rest : ByteArray} {e : FrameError} {frames : List (α × Nat)}
    (h : Splits decode src frames e rest) :
    src = joined (frames.map fun f => encode f.1) ++ rest := by
  induction h with
  | stop _ => exact ByteArray.empty_append.symm
  | frame h _ ih =>
    rw [List.map_cons, joined_cons, ByteArray.append_assoc, ← ih, ← hencode h,
      extract_append_rest (hd.used_le h)]

/-- The reading ends where there is no further frame. -/
theorem Splits.decode_rest {src rest : ByteArray} {e : FrameError} {frames : List (α × Nat)}
    (h : Splits decode src frames e rest) : decode rest = .error e := by
  induction h with
  | stop h => exact h
  | frame _ _ ih => exact ih

end Streams

namespace Request

theorem splits_decodeAll (src : ByteArray) :
    Splits decode src (decodeAll src).1 (decodeAll src).2.1 (decodeAll src).2.2 :=
  splits_splitFrames framing (src.size + 1) src (Nat.lt_succ_self _)

/-- What is read off two pieces of a stream is read off the two at once. -/
theorem decodeAll_append (src more : ByteArray) :
    decodeAll (src ++ more) =
      ((decodeAll src).1 ++ (decodeAll ((decodeAll src).2.2 ++ more)).1,
        (decodeAll ((decodeAll src).2.2 ++ more)).2) := by
  obtain ⟨hframes, hstop, hrest⟩ := (splits_decodeAll (src ++ more)).unique
    ((splits_decodeAll src).append framing (splits_decodeAll _))
  exact Prod.ext hframes (Prod.ext hstop hrest)

/-- The requests that were read, as they are written, and the rest are the buffer. -/
theorem joined_decodeAll (src : ByteArray) :
    src = joined ((decodeAll src).1.map fun f => encode f.1) ++ (decodeAll src).2.2 :=
  (splits_decodeAll src).joined_eq framing fun h => (extract_of_decode h).2.2

theorem decode_rest (src : ByteArray) :
    decode (decodeAll src).2.2 = .error (decodeAll src).2.1 :=
  (splits_decodeAll src).decode_rest

end Request

end TwinTable.Wire
