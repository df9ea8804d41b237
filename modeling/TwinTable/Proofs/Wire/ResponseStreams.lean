/-
Streams of responses.

A response is easier to read than a request: once the first word is there, it is known how
long the frame is, and whether it will be refused. So a frame that is cut off is waited for
with one of two lengths, that of the word or that of the whole (`Response.decode_front`). As
with requests, what is read is what would be written, and each response has one spelling
(`Response.decode_eq_ok_iff`). In particular more bytes behind a frame change nothing, which
is all that the reading of a stream asks of a reader (`Response.framing`).

A client gets a stream of frames in pieces that end anywhere. A piece that is cut off the
front of a stream is some whole frames and a part of the next one (`exists_cut`). The frames
are read off it, the part is left over; and with the other piece behind it, it gives the
responses that are still missing (`Response.stream_of_frames`).
-/
import TwinTable.Proofs.Wire.RoundTrip

set_option autoImplicit false

namespace TwinTable.Wire

/-! ## Words -/

theorem byteAt_lt (src : ByteArray) (pos : Nat) : byteAt src pos < 256 := by
  rw [byteAt]
  split
  · exact UInt8.toNat_lt _
  · decide

/-- A word that was read is one. -/
theorem wordAt_lt {src : ByteArray} {pos n : Nat} (h : wordAt src pos = .ok n) : n < 2 ^ 32 := by
  have hbyte := byteAt_lt src
  have h₀ := hbyte pos
  have h₁ := hbyte (pos + 1)
  have h₂ := hbyte (pos + 2)
  have h₃ := hbyte (pos + 3)
  rw [wordAt] at h
  split at h
  · exact absurd h (by simp)
  · rw [← Except.ok.inj h]
    omega

/-! ## Cutting a row of pieces -/

/-- **Where a row of pieces is cut**: behind some whole pieces, inside the next one. If there
is no next one, nothing is left over. -/
theorem exists_cut : ∀ (pieces : List ByteArray) {n : Nat}, n ≤ (joined pieces).size →
    ∃ front later tail, pieces = front ++ later ∧
      (joined pieces).extract 0 n = joined front ++ tail ∧ (later = [] → tail = .empty) ∧
      ∀ piece ∈ later.head?, ∃ m, m < piece.size ∧ tail = piece.extract 0 m := by
  intro pieces
  -- induction on the pieces; the cut is inside the first one, or further on
  induction pieces with
  | nil =>
    intro n hn
    obtain rfl : n = 0 := Nat.le_zero.mp hn
    exact ⟨[], [], .empty, rfl, rfl, fun _ => rfl, fun _ h => absurd h (by simp)⟩
  | cons piece pieces ih =>
    intro n hn
    rw [joined_cons, ByteArray.size_append] at hn
    rcases Nat.lt_or_ge n piece.size with hinside | hbehind
    · refine ⟨[], piece :: pieces, piece.extract 0 n, rfl, ?_, fun h => absurd h (by simp), ?_⟩
      · rw [joined_nil, ByteArray.empty_append, joined_cons, extract_append_of_le _ hinside.le]
      · rintro _ ⟨⟩
        exact ⟨n, hinside, rfl⟩
    · obtain ⟨front, later, tail, hpieces, hcut, hnone, hnext⟩ :=
        ih (n := n - piece.size) (by omega)
      refine ⟨piece :: front, later, tail, by rw [hpieces]; rfl, ?_, hnone, hnext⟩
      have hwhole : piece.extract 0 n = piece := by
        rw [ByteArray.extract_eq_extract_append_extract piece.size (Nat.zero_le _) hbehind,
          ByteArray.extract_zero_size, ByteArray.extract_eq_empty_iff.mpr (by omega),
          ByteArray.append_empty]
      rw [joined_cons, joined_cons, ByteArray.extract_append, hwhole, Nat.zero_sub, hcut,
        ByteArray.append_assoc]

namespace Response

variable {r : Response} {src : ByteArray} {used : Nat}

/-! ## One response -/

theorem headerSize_le_size_encode (r : Response) : headerSize ≤ r.encode.size := by
  rw [size_encode]
  exact Nat.le_add_right _ _

/-- **The reader accepts exactly what the writer makes**, within the limit. -/
theorem decode_eq_ok_iff : decode src = .ok (r, used) ↔
    used ≤ src.size ∧ src.extract 0 used = r.encode ∧ used ≤ lengthLimit := by
  constructor
  · intro h
    have hlimit := le_of_decode h
    rw [decode] at h
    rcases hword : wordAt src 0 with e | len
    · rw [hword] at h
      exact absurd h (by simp)
    · rw [hword] at h
      dsimp only at h
      split at h
      · exact absurd h (by simp)
      · rename_i hlimits
        split at h
        · exact absurd h (by simp)
        · rename_i hthere
          rcases hstatus : wordAt src 4 with e | status
          · rw [hstatus] at h
            exact absurd h (by simp)
          · rw [hstatus] at h
            obtain ⟨rfl, rfl⟩ := Prod.mk.inj (Except.ok.inj h)
            have hheader : headerSize ≤ len := by
              simp only [Bool.or_eq_true, decide_eq_true_eq] at hlimits
              omega
            obtain ⟨-, hbytes⟩ := extract_of_wordAt hword
            obtain ⟨-, hbytes'⟩ := extract_of_wordAt hstatus
            have hpayload : headerSize + (src.extract headerSize len).size = len := by
              rw [ByteArray.size_extract]
              omega
            have hsame : status.toUInt32.toInt32.toUInt32.toNat = status := by
              rw [UInt32.toUInt32_toInt32]
              exact UInt32.toNat_ofNat_of_lt' (wordAt_lt hstatus)
            refine ⟨by omega, ?_, hlimit⟩
            rw [encode, hpayload, hsame, ← hbytes, ← hbytes',
              ByteArray.extract_eq_extract_append_extract headerSize (Nat.zero_le _) hheader,
              ByteArray.extract_eq_extract_append_extract 4 (Nat.zero_le _)
                (show 4 ≤ headerSize by decide)]
            rfl
  · rintro ⟨hthere, hbytes, hlimit⟩
    have hsize : r.encode.size = used := by
      rw [← hbytes, ByteArray.size_extract]
      omega
    have hread := decode_encode_append (hsize.trans_le hlimit) (src.extract used src.size)
    rwa [← hbytes, extract_append_rest hthere, hbytes, hsize] at hread

/-- **A response that is cut off is waited for**: up to the end of the word that says how long
it is, and then up to its own end. -/
theorem decode_front (h : r.encode.size ≤ lengthLimit) {n : Nat} (hn : n < r.encode.size) :
    decode (r.encode.extract 0 n) =
      .error (.incomplete (if n < 4 then 4 else r.encode.size) n) := by
  have hheader := headerSize_le_size_encode r
  have hsplit := extract_append_rest hn.le
  have hsize : (r.encode.extract 0 n).size = n := by
    rw [ByteArray.size_extract]
    omega
  have hword := wordAt_encode_append (Request.lt_of_le_lengthLimit h) .empty
  rw [ByteArray.append_empty] at hword
  generalize r.encode.extract n r.encode.size = rest at hsplit
  generalize r.encode.extract 0 n = front at hsplit hsize
  rcases Nat.lt_or_ge n 4 with hshort | hlong
  · have hnone : wordAt front 0 = .error (.incomplete 4 n) :=
      wordAt_eq_error_iff.mpr ⟨by omega, by rw [hsize]⟩
    rw [decode, hnone, if_pos hshort]
  · -- the word is there, and it is that of the whole frame
    have hthere : wordAt front 0 = .ok r.encode.size := by
      rw [← wordAt_append rest (by omega), hsplit, hword]
    have hlimits : ¬ (r.encode.size < headerSize || lengthLimit < r.encode.size) = true := by
      rw [Bool.or_eq_true, decide_eq_true_eq, decide_eq_true_eq]
      omega
    rw [decode, hthere]
    dsimp only
    rw [if_neg hlimits, if_pos (by omega), hsize, if_neg (by omega)]

/-- So whatever is cut off, more bytes are wanted than there are, and no more than the frame
has. -/
theorem decode_proper_front (h : r.encode.size ≤ lengthLimit) {n : Nat}
    (hn : n < r.encode.size) : ∃ want, n < want ∧ want ≤ r.encode.size ∧
      decode (r.encode.extract 0 n) = .error (.incomplete want n) := by
  have hheader : 4 ≤ r.encode.size :=
    Nat.le_trans (by decide) (headerSize_le_size_encode r)
  refine ⟨_, ?_, ?_, decode_front h hn⟩ <;> split <;> omega

/-! ## Streams -/

theorem framing : Framing decode where
  pos_used {_ r _} h := by
    obtain ⟨hthere, hbytes, -⟩ := decode_eq_ok_iff.mp h
    have hheader := headerSize_le_size_encode r
    rw [← hbytes, ByteArray.size_extract, headerSize] at hheader
    omega
  used_le h := (decode_eq_ok_iff.mp h).1
  append more h := by
    obtain ⟨hthere, hbytes, hlimit⟩ := decode_eq_ok_iff.mp h
    refine decode_eq_ok_iff.mpr ⟨?_, ?_, hlimit⟩
    · rw [ByteArray.size_append]
      omega
    · rw [extract_append_of_le more hthere, hbytes]

/-- **A stream of responses that were written** is read off as these responses, up to bytes
that are no response. -/
theorem decodeAll_joined {rest : ByteArray} {e : FrameError} (hrest : decode rest = .error e)
    {responses : List Response} (h : ∀ r ∈ responses, r.encode.size ≤ lengthLimit) :
    decodeAll (joined (responses.map encode) ++ rest) =
      (responses.map fun r => (r, r.encode.size), e, rest) := by
  have hsplits := splits_joined responses (fun r hr => decode_encode_append (h r hr)) hrest
  obtain ⟨hframes, hstop, hleft⟩ :=
    (splits_splitFrames framing _ _ (Nat.lt_succ_self _)).unique hsplits
  exact Prod.ext hframes (Prod.ext hstop hleft)

/-- Nothing is no response yet. -/
theorem decode_empty : decode .empty = .error (.incomplete 4 0) := rfl

/-- **A stream that was cut**: the whole frames in front of the cut are read off it, and what
is left over is waited for. With the bytes behind the cut it is read as the others. -/
theorem decodeAll_cut {responses : List Response}
    (h : ∀ r ∈ responses, r.encode.size ≤ lengthLimit) {n : Nat}
    (hn : n ≤ (joined (responses.map encode)).size) :
    ∃ ready later tail want, responses = ready ++ later ∧
      (joined (responses.map encode)).extract 0 n = joined (ready.map encode) ++ tail ∧
      (later = [] → tail = .empty) ∧ (∀ r ∈ later.head?, tail.size < r.encode.size) ∧
      tail.size < want ∧
      decodeAll ((joined (responses.map encode)).extract 0 n) =
        (ready.map fun r => (r, r.encode.size), .incomplete want tail.size, tail) ∧
      decodeAll (tail ++
          (joined (responses.map encode)).extract n (joined (responses.map encode)).size) =
        (later.map fun r => (r, r.encode.size), .incomplete 4 0, .empty) := by
  obtain ⟨_, _, tail, hpieces, hcut, hnone, hnext⟩ := exists_cut (responses.map encode) hn
  obtain ⟨ready, later, rfl, rfl, rfl⟩ := List.map_eq_append_iff.mp hpieces
  have hready : ∀ r ∈ ready, r.encode.size ≤ lengthLimit := fun r hr =>
    h r (List.mem_append_left _ hr)
  have hlater : ∀ r ∈ later, r.encode.size ≤ lengthLimit := fun r hr =>
    h r (List.mem_append_right _ hr)
  -- what is left over is a front of the next frame, or nothing where there is none
  have hleft : (∀ r ∈ later.head?, tail.size < r.encode.size) ∧ ∃ want, tail.size < want ∧
      decode tail = .error (.incomplete want tail.size) := by
    rcases later with _ | ⟨r, later⟩
    · rw [hnone rfl]
      exact ⟨fun _ h => absurd h (by simp), 4, by decide, decode_empty⟩
    · obtain ⟨m, hm, rfl⟩ := hnext r.encode rfl
      obtain ⟨want, hwant, -, hread⟩ := decode_proper_front (hlater r List.mem_cons_self) hm
      have hsize : (r.encode.extract 0 m).size = m := by
        rw [ByteArray.size_extract]
        omega
      rw [hsize]
      exact ⟨fun _ hr => Option.some.inj hr ▸ hm, want, hwant, hread⟩
  obtain ⟨hpart, want, hwant, hstop⟩ := hleft
  have hwhole := extract_append_rest hn
  rw [hcut, List.map_append, joined_append, ByteArray.append_assoc,
    ByteArray.append_right_inj] at hwhole
  refine ⟨ready, later, tail, want, rfl, hcut, ?_, hpart, hwant, ?_, ?_⟩
  · rintro rfl
    exact hnone rfl
  · rw [hcut, decodeAll_joined hstop hready]
  · have hread := decodeAll_joined decode_empty hlater
    rw [List.map_append, joined_append, hwhole]
    rwa [ByteArray.append_empty] at hread

/-- **Framing of responses.** A response whose frame keeps to the limit, header included, is
read back with its status and its payload, whatever stands behind it. Of such a frame no
proper front is read or refused: more bytes are wanted than there are, and no more than the
frame has. A frame above the limit whose length fits into its word is refused. So any row of
frames within the limit may be cut at any byte. The responses before the cut are read, and the
bytes after them are left over, which are none or a proper front of the next frame; with the
bytes behind the cut they are read as the responses that are missing. -/
theorem stream_of_frames :
    (∀ (r : Response) (rest : ByteArray), headerSize + r.payload.size ≤ lengthLimit →
      decode (r.encode ++ rest) = .ok (r, headerSize + r.payload.size) ∧
        ∀ n < headerSize + r.payload.size,
          ∃ want, n < want ∧ want ≤ headerSize + r.payload.size ∧
            decode (r.encode.extract 0 n) = .error (.incomplete want n)) ∧
      (∀ (r : Response) (rest : ByteArray), lengthLimit < headerSize + r.payload.size →
        headerSize + r.payload.size < 2 ^ 32 →
          decode (r.encode ++ rest) = .error .malformed) ∧
      ∀ responses : List Response,
        (∀ r ∈ responses, headerSize + r.payload.size ≤ lengthLimit) →
        let stream := joined (responses.map encode)
        ∀ n ≤ stream.size, ∃ ready later tail want, responses = ready ++ later ∧
          stream.extract 0 n = joined (ready.map encode) ++ tail ∧
          (later = [] → tail = .empty) ∧
          (∀ r ∈ later.head?, tail.size < headerSize + r.payload.size) ∧
          tail.size < want ∧
          decodeAll (stream.extract 0 n) =
            (ready.map fun r => (r, headerSize + r.payload.size), .incomplete want tail.size,
              tail) ∧
          decodeAll (tail ++ stream.extract n stream.size) =
            (later.map fun r => (r, headerSize + r.payload.size), .incomplete 4 0, .empty) := by
  simp only [← size_encode]
  refine ⟨?_, ?_, ?_⟩
  · intro r rest h
    exact ⟨decode_encode_append h rest, fun n hn => decode_proper_front h hn⟩
  · intro r rest hlong hword
    exact decode_encode_of_lt hlong hword rest
  · intro responses h n hn
    exact decodeAll_cut h hn

/-- A refusal of two bytes and an empty answer, cut in the header of the second; and a payload
that is as long as a whole frame may be. -/
theorem stream_of_frames_cut_in_a_header :
    let no : Response := ⟨-1, "no".toUTF8⟩
    let done : Response := ⟨0, .empty⟩
    let long : Response := ⟨1, ⟨Array.replicate lengthLimit 7⟩⟩
    let stream := joined ([no, done].map encode)
    headerSize + no.payload.size = 10 ∧ stream.size = 18 ∧
      (∃ want, 3 < want ∧ want ≤ 10 ∧
        decode (no.encode.extract 0 3) = .error (.incomplete want 3)) ∧
      decode (long.encode ++ done.encode) = .error .malformed ∧
      ∃ ready later tail want, [no, done] = ready ++ later ∧
        decodeAll (stream.extract 0 15) =
          (ready.map fun r => (r, headerSize + r.payload.size), .incomplete want tail.size,
            tail) := by
  intro no done long stream
  have hno : headerSize + no.payload.size = 10 := by decide +kernel
  have hdone : headerSize + done.payload.size = 8 := by decide +kernel
  have hsize : stream.size = 18 := by decide +kernel
  have hlong : headerSize + long.payload.size = headerSize + lengthLimit :=
    congrArg (headerSize + ·) Array.size_replicate
  obtain ⟨hwithin, habove, hstream⟩ := stream_of_frames
  obtain ⟨-, hfront⟩ := hwithin no .empty (by rw [hno]; decide)
  have hfront := hfront 3 (by rw [hno]; decide)
  rw [hno] at hfront
  obtain ⟨ready, later, tail, want, hsplit, -, -, -, -, hread, -⟩ :=
    hstream [no, done] (by
      intro r hr
      rcases List.mem_pair.mp hr with rfl | rfl
      · rw [hno]
        decide
      · rw [hdone]
        decide) 15 (by rw [hsize]; decide)
  exact ⟨hno, hsize, hfront, habove long _ (by rw [hlong]; decide) (by rw [hlong]; decide), ready,
    later, tail, want, hsplit, hread⟩

end Response

end TwinTable.Wire
