/-
Bytes that are still to come.

A frame may arrive in pieces, and a reader may look at the buffer after each of them. Three
things can come out of a look, and each of them has to survive the next piece. What was read
stays read, and what was refused stays refused: a final result is not changed by bytes behind
it (`decode_append`). The third is that bytes are missing. Then the reader says how long the
buffer has to become, and it had better not be wrong: with fewer bytes than that it will wait
for the same length again (`Request.waits_of_incomplete`). This is so because every test that
came before the one that failed looked at bytes that were there.

A frame that is cut off early is therefore waited for. It can be neither read as a shorter one
nor refused, since either would stay so when the rest arrives, and the whole is a request
(`Request.decode_proper_front`).
-/
import TwinTable.Proofs.Wire.RoundTrip

set_option autoImplicit false

namespace TwinTable.Wire

/-! ## Waiting -/

/-- A reader that found too few bytes in a buffer: it wants more than there are, and it wants
as many of each longer buffer that still has too few. -/
structure Waits {α : Type} (read : ByteArray → Except FrameError α) (src : ByteArray)
    (want got : Nat) : Prop where
  counted : got = src.size
  short : src.size < want
  again : ∀ more, (src ++ more).size < want →
    read (src ++ more) = .error (.incomplete want (src ++ more).size)

variable {src : ByteArray} {pos want got : Nat}

/-- **A reader that reads one part and then another** waits for the first part, and once it has
this part for the other. The part that was there has to stay what it is. -/
theorem Waits.part {α β : Type} {part : ByteArray → Except FrameError β}
    {next : β → ByteArray → Except FrameError α}
    (hpart : ∀ {want got}, part src = .error (.incomplete want got) → Waits part src want got)
    (hstays : ∀ {x} more, part src = .ok x → part (src ++ more) = .ok x)
    (hnext : ∀ x, next x src = .error (.incomplete want got) → Waits (next x) src want got)
    (h : (part src).bind (fun x => next x src) = .error (.incomplete want got)) :
    Waits (fun src => (part src).bind fun x => next x src) src want got := by
  rcases hfirst : part src with e | x
  · rw [hfirst] at h
    obtain rfl : e = .incomplete want got := Except.error.inj h
    have hwaits := hpart hfirst
    refine ⟨hwaits.counted, hwaits.short, fun more hmore => ?_⟩
    rw [hwaits.again more hmore]
    rfl
  · rw [hfirst] at h
    have hwaits := hnext x h
    refine ⟨hwaits.counted, hwaits.short, fun more hmore => ?_⟩
    rw [hstays more hfirst]
    exact hwaits.again more hmore

theorem waits_of_wordAt (h : wordAt src pos = .error (.incomplete want got)) :
    Waits (fun src => wordAt src pos) src want got := by
  obtain ⟨hshort, hwant⟩ := wordAt_eq_error_iff.mp h
  obtain ⟨rfl, rfl⟩ := FrameError.incomplete.inj hwant
  exact ⟨rfl, hshort, fun more hmore => wordAt_eq_error_iff.mpr ⟨hmore, rfl⟩⟩

theorem wordAt_append_of_ok {n : Nat} (more : ByteArray) (h : wordAt src pos = .ok n) :
    wordAt (src ++ more) pos = .ok n :=
  (wordAt_append more (extract_of_wordAt h).1).trans h

/-- A text that is there may be refused, so it is waited for only if it is not there. -/
theorem textAt_eq_incomplete_iff {len : Nat} :
    textAt src pos len = .error (.incomplete want got) ↔
      src.size < pos + len ∧ want = pos + len ∧ got = src.size := by
  rw [textAt]
  split
  · rename_i hshort
    simp [hshort, eq_comm]
  · rename_i hthere
    split <;> simp [hthere]

theorem waits_of_textAt {len : Nat} (h : textAt src pos len = .error (.incomplete want got)) :
    Waits (fun src => textAt src pos len) src want got := by
  obtain ⟨hshort, rfl, rfl⟩ := textAt_eq_incomplete_iff.mp h
  exact ⟨rfl, hshort, fun more hmore => textAt_eq_incomplete_iff.mpr ⟨hmore, rfl, rfl⟩⟩

theorem textAt_append_of_ok {len : Nat} {text : String} (more : ByteArray)
    (h : textAt src pos len = .ok text) : textAt (src ++ more) pos len = .ok text :=
  (textAt_append more (extract_of_textAt h).1).trans h

namespace Request

/-- The arguments of a request are a row of parts. -/
theorem decodeArguments_succ (src : ByteArray) (count pos : Nat) (earlier : List String) :
    decodeArguments src (count + 1) pos earlier =
      (wordAt src pos).bind fun len =>
        if lengthLimit < len then .error .malformed
        else (textAt src (pos + 4) len).bind fun text =>
          decodeArguments src count (pos + 4 + len) (text :: earlier) := by
  rw [decodeArguments]
  rcases wordAt src pos with e | len
  · rfl
  · simp only [Except.bind]
    split
    · rfl
    · rcases textAt src (pos + 4) len with e | text <;> rfl

theorem decode_eq_bind (src : ByteArray) :
    decode src = (wordAt src 0).bind fun count =>
      if lengthLimit < count then .error .malformed else decodeArguments src count 4 [] := by
  rw [decode]
  rcases wordAt src 0 with e | count <;> rfl

/-- A test of what is there already does not change what is waited for. -/
theorem waits_of_limit {α : Type} {n : Nat} {read : ByteArray → Except FrameError α}
    (hread : read src = .error (.incomplete want got) → Waits read src want got)
    (h : (if lengthLimit < n then .error .malformed else read src) =
      .error (.incomplete want got)) :
    Waits (fun src => if lengthLimit < n then .error .malformed else read src) src want got := by
  by_cases hlimit : lengthLimit < n
  · rw [if_pos hlimit] at h
    exact absurd h (by simp)
  · simp only [if_neg hlimit] at h ⊢
    exact hread h

/-- **What arguments are waited for**: the length that is named is that of the first part
which is not there, and it is named again until this part is there. -/
theorem waits_of_decodeArguments : ∀ (count pos : Nat) (earlier : List String),
    decodeArguments src count pos earlier = .error (.incomplete want got) →
      Waits (fun src => decodeArguments src count pos earlier) src want got := by
  intro count
  -- induction on the arguments to come; the parts before the missing one stay as they are
  induction count with
  | zero =>
    intro pos earlier h
    exact absurd h (by simp [decodeArguments])
  | succ count ih =>
    intro pos earlier h
    simp only [decodeArguments_succ] at h ⊢
    refine Waits.part waits_of_wordAt wordAt_append_of_ok (fun len hlen => ?_) h
    refine waits_of_limit (fun hargument => ?_) hlen
    exact Waits.part waits_of_textAt textAt_append_of_ok (fun text => ih _ _) hargument

/-- **What a request is waited for.** -/
theorem waits_of_incomplete (h : decode src = .error (.incomplete want got)) :
    Waits decode src want got := by
  have hread := funext decode_eq_bind
  rw [hread] at h ⊢
  refine Waits.part waits_of_wordAt wordAt_append_of_ok (fun count hcount => ?_) h
  exact waits_of_limit (waits_of_decodeArguments _ _ _) hcount

/-- A result is final, or bytes are missing. -/
theorem isFinal_or_exists_incomplete {α : Type} (result : Except FrameError α) :
    IsFinal result ∨ ∃ want got, result = .error (.incomplete want got) := by
  rcases result with (⟨want, got⟩ | _) | x
  · exact .inr ⟨want, got, rfl⟩
  · exact .inl isFinal_malformed
  · exact .inl (isFinal_ok x)

/-- **A request that is cut off is waited for**, and not for more than it is long. -/
theorem decode_proper_front {args : List String} (h : Limited args) {n : Nat}
    (hn : n < (encode args).size) :
    ∃ want, n < want ∧ want ≤ (encode args).size ∧
      decode ((encode args).extract 0 n) = .error (.incomplete want n) := by
  have hwhole := decode_encode_append h .empty
  rw [ByteArray.append_empty] at hwhole
  have hsplit := extract_append_rest hn.le
  have hsize : ((encode args).extract 0 n).size = n := by
    rw [ByteArray.size_extract]
    omega
  generalize (encode args).extract n (encode args).size = rest at hsplit
  rcases isFinal_or_exists_incomplete (decode ((encode args).extract 0 n)) with
    hfinal | ⟨want, got, hwant⟩
  · -- a final result would be that of the whole, which takes more bytes than there are
    have hsame := decode_append rest hfinal
    rw [hsplit, hwhole] at hsame
    have hused := (extract_of_decode hsame.symm).2.1
    omega
  · have hwaits := waits_of_incomplete hwant
    have hcounted := hwaits.counted
    have hshort := hwaits.short
    rw [hsize] at hcounted hshort
    rw [hcounted] at hwant
    refine ⟨want, hshort, ?_, hwant⟩
    -- with all its bytes there nothing is waited for
    by_contra hlong
    have hagain := hwaits.again rest (by rw [hsplit]; omega)
    rw [hsplit, hwhole] at hagain
    exact absurd hagain (by simp)

/-- **A look at a part of a stream holds for the whole.** A request that was read is read with
anything behind it, and bytes that were refused are refused. If bytes are missing, the reader
has counted those that are there and wants more, and it wants the same of every longer buffer
that has fewer than it wants. So whatever is cut off the end of a request that was written, the
front is neither read nor refused. -/
theorem decode_on_arrival (src more : ByteArray) :
    (∀ args used, decode src = .ok (args, used) → decode (src ++ more) = .ok (args, used)) ∧
      (decode src = .error .malformed → decode (src ++ more) = .error .malformed) ∧
      (∀ want got, decode src = .error (.incomplete want got) →
        got = src.size ∧ src.size < want ∧
          ((src ++ more).size < want →
            decode (src ++ more) = .error (.incomplete want (src ++ more).size))) ∧
      ∀ args, Limited args → ∀ n < (encode args).size,
        ∃ want, n < want ∧ want ≤ (encode args).size ∧
          decode ((encode args).extract 0 n) = .error (.incomplete want n) := by
  refine ⟨?_, ?_, ?_, fun args hargs n hn => decode_proper_front hargs hn⟩
  · intro args used h
    rw [decode_append more (h ▸ isFinal_ok _), h]
  · intro h
    rw [decode_append more (h ▸ isFinal_malformed), h]
  · intro want got h
    have hwaits := waits_of_incomplete h
    exact ⟨hwaits.counted, hwaits.short, hwaits.again more⟩

/-- A request for the value of a key, cut off in the middle of its first argument: nine bytes
are there, eleven are wanted, and a tenth does not change that. -/
theorem decode_on_arrival_of_get :
    let front := (encode ["get", "é"]).extract 0 9
    decode front = .error (.incomplete 11 9) ∧ (front ++ ⟨#[101]⟩).size < 11 ∧
      decode (front ++ ⟨#[101]⟩) = .error (.incomplete 11 10) := by
  intro front
  have hfront : decode front = .error (.incomplete 11 9) := by decide +kernel
  have hshort : (front ++ ⟨#[101]⟩).size < 11 := by decide +kernel
  exact ⟨hfront, hshort, ((decode_on_arrival front ⟨#[101]⟩).2.2.1 11 9 hfront).2.2 hshort⟩

end Request

end TwinTable.Wire
