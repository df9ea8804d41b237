/-
Strings whose case does not matter are strings in lower case.

A key is compared and hashed as a row of bytes, and its letters are lowered byte by byte, while
it is written to the hash in pieces. Neither the pieces nor the encoding can be seen in the end.
Any hasher that takes pieces written one after another for the message that they make together
does not show where they were cut (`foldl_pieces`), and this one is such a hasher
(`Hasher.write_append`). And of the bytes of a character beyond ASCII none is taken for a letter, since all of
them have their top bit set: so the lowered bytes of a string are the bytes of the lowered
string (`bytesOf_toLower`).

So two strings are the same key exactly if their lower-case forms are equal, and the hash of a
key is that of its lower-case form.
-/
import Mathlib
import TwinTable.Dictionary.Keying

set_option autoImplicit false

namespace TwinTable

/-! ## Writing in pieces -/

namespace SipHash

/-- Bytes that were cut into pieces are all there. -/
theorem flatten_pieces {size : Nat} (hsize : 0 < size) : ∀ {most : Nat} {bytes : List UInt8},
    bytes.length ≤ most → (pieces size most bytes).flatten = bytes := by
  intro most
  induction most with
  | zero =>
    intro bytes h
    rw [List.eq_nil_of_length_eq_zero (Nat.le_zero.mp h)]
    rfl
  | succ most ih =>
    intro bytes h
    cases bytes with
    | nil => rfl
    | cons b bytes =>
      have hrest : ((b :: bytes).drop size).length ≤ most := by
        rw [List.length_drop]
        omega
      rw [pieces, List.flatten_cons, ih hrest, List.take_append_drop]

section Pieces

variable {η : Type} {write : η → List UInt8 → η}

/-- Pieces that are written behind something else are written as one, each of their bytes
changed. -/
theorem foldl_write
    (joins : ∀ h piece more, write (write h piece) more = write h (piece ++ more))
    (f : UInt8 → UInt8) (pieces : List (List UInt8)) : ∀ (h : η) (before : List UInt8),
    pieces.foldl (fun h piece => write h (piece.map f)) (write h before) =
      write h (before ++ pieces.flatten.map f) := by
  induction pieces with
  | nil => intro h before; simp
  | cons piece pieces ih =>
    intro h before
    rw [List.foldl_cons, joins, ih, List.flatten_cons, List.map_append, List.append_assoc]

/-- **Writing in pieces cannot be seen.** A hasher for which pieces written one after another are
the message that they make together, and which takes no notice of an empty message, comes to the
same with the pieces of a message, each changed byte by byte, as with the changed message. -/
theorem foldl_pieces
    (joins : ∀ h piece more, write (write h piece) more = write h (piece ++ more))
    {start : η} (idle : write start [] = start) (f : UInt8 → UInt8) {size : Nat}
    (hsize : 0 < size) (message : List UInt8) :
    (pieces size message.length message).foldl (fun h piece => write h (piece.map f)) start =
      write start (message.map f) := by
  have hwritten := foldl_write joins f (pieces size message.length message) start []
  rwa [idle, flatten_pieces hsize (le_refl _), List.nil_append] at hwritten

end Pieces

/-- What is left over after some bytes is taken up by the bytes that follow. -/
theorem Lanes.absorbWords_append (bytes more : List UInt8) : ∀ v : Lanes,
    (v.absorbWords bytes).1.absorbWords ((v.absorbWords bytes).2 ++ more) =
      v.absorbWords (bytes ++ more) := by
  intro v
  -- along the words of the row, as they are absorbed
  fun_induction Lanes.absorbWords v bytes with
  | case1 v b0 b1 b2 b3 b4 b5 b6 b7 rest ih => rw [ih]; rfl
  | case2 v short => rfl

/-- **Pieces written one after another** are the message that they make together. -/
theorem Hasher.write_append (h : Hasher) (piece more : List UInt8) :
    (h.write piece).write more = h.write (piece ++ more) := by
  have hwords := Lanes.absorbWords_append (h.short ++ piece) more h.lanes
  rw [List.append_assoc] at hwords
  simp only [write, hwords, List.length_append, Nat.add_assoc]

/-- **The hash of a message whose case does not matter** is the hash of the lowered message,
whatever its length. -/
theorem hashFolded_eq (s : Seed) (message : List UInt8) :
    hashFolded s message = hash s (message.map lowerByte) :=
  congrArg Hasher.finish
    (foldl_pieces Hasher.write_append rfl lowerByte (by decide) message)

end SipHash

/-! ## The bytes of a string -/

namespace Keying

open SipHash

/-- A byte with its top bit set is no letter. -/
theorem lowerByte_of_le {b : UInt8} (h : 128 ≤ b.toNat) : lowerByte b = b := by
  rw [lowerByte, if_neg]
  simp only [UInt8.le_iff_toNat_le, Bool.and_eq_true, decide_eq_true_eq, UInt8.reduceToNat]
  omega

/-- All bytes of a character beyond ASCII have their top bit set. -/
theorem le_of_mem_utf8EncodeChar {c : Char} (h : ¬ c.val.toNat ≤ 127) :
    ∀ b ∈ String.utf8EncodeChar c, 128 ≤ b.toNat := by
  have hmarked : ∀ n m, 128 ≤ m → n + m < 256 → 128 ≤ (UInt8.ofNat (n + m)).toNat := by
    intro n m hm hlt
    rw [UInt8.toNat_ofNat_of_lt' hlt]
    omega
  rw [String.utf8EncodeChar, if_neg h]
  split_ifs
  all_goals
    simp only [List.forall_mem_cons]
    and_intros <;> first | exact hmarked _ _ (by decide) (by omega) | simp

/-- **Lowering a character** lowers its bytes. -/
theorem utf8EncodeChar_toLower (c : Char) :
    String.utf8EncodeChar c.toLower = (String.utf8EncodeChar c).map lowerByte := by
  by_cases h : c.val.toNat ≤ 127
  · -- the characters of ASCII are few enough to look at all of them
    have hall : ∀ n < 128, String.utf8EncodeChar (Char.ofNat n).toLower =
        (String.utf8EncodeChar (Char.ofNat n)).map lowerByte := by decide +kernel
    have hc := hall c.toNat (Nat.lt_succ_of_le h)
    rwa [Char.ofNat_toNat] at hc
  · have hupper : ¬ c.isUpper = true := by
      simp only [Char.isUpper, decide_eq_true_iff, ge_iff_le, UInt32.le_iff_toNat_le]
      intro hbetween
      exact h (hbetween.2.trans (by decide))
    have hkept : (String.utf8EncodeChar c).map lowerByte = (String.utf8EncodeChar c).map id :=
      List.map_congr_left fun b hb => lowerByte_of_le (le_of_mem_utf8EncodeChar h b hb)
    rw [Char.toLower_eq_of_not_isUpper hupper, hkept, List.map_id]

theorem toList_loop_eq (bytes : ByteArray) (i : Nat) (before : List UInt8) :
    ByteArray.toList.loop bytes i before = before.reverse ++ bytes.data.toList.drop i := by
  fun_induction ByteArray.toList.loop bytes i before with
  | case1 i before hi ih =>
    have hget : bytes.get! i = bytes.data.toList.get ⟨i, hi⟩ := by
      change bytes.data[i]! = _
      rw [getElem!_pos bytes.data i hi, List.get_eq_getElem, Array.getElem_toList]
    rw [ih, hget, List.drop_eq_getElem_cons (l := bytes.data.toList) hi, List.reverse_cons,
      List.append_assoc]
    rfl
  | case2 i before hi =>
    have hend : bytes.data.toList.drop i = [] := List.drop_eq_nil_of_le (Nat.le_of_not_lt hi)
    rw [hend, List.append_nil]

/-- The list of some bytes has them in the order of the array. -/
theorem toList_eq_data (bytes : ByteArray) : bytes.toList = bytes.data.toList := by
  rw [ByteArray.toList, toList_loop_eq]
  rfl

theorem bytesOf_eq_flatMap (s : String) :
    bytesOf s = s.toList.flatMap String.utf8EncodeChar := by
  rw [bytesOf, toList_eq_data, String.toUTF8_eq_toByteArray, ← String.utf8Encode_toList,
    List.utf8Encode, List.toList_data_toByteArray]

theorem bytesOf_injective : Function.Injective bytesOf := by
  intro a b h
  rw [bytesOf, bytesOf, toList_eq_data, toList_eq_data, String.toUTF8_eq_toByteArray,
    String.toUTF8_eq_toByteArray] at h
  exact String.toByteArray_inj.mp (ByteArray.ext (Array.toList_inj.mp h))

/-- **Lowering a string** lowers its bytes, those of characters beyond ASCII included. -/
theorem bytesOf_toLower (s : String) : bytesOf s.toLower = (bytesOf s).map lowerByte := by
  rw [bytesOf_eq_flatMap, bytesOf_eq_flatMap, String.toLower, String.toList_map,
    List.flatMap_map, List.map_flatMap]
  exact List.flatMap_congr fun c _ => utf8EncodeChar_toLower c

/-! ## Keys whose case does not matter -/

theorem sameFolded_iff {a b : List UInt8} :
    sameFolded a b = true ↔ a.map lowerByte = b.map lowerByte := by
  fun_induction sameFolded a b with
  | case1 => simp
  | case2 a as b bs ih => simp [ih]
  | case3 a b hnil hcons =>
    -- one of the rows is empty and the other is not
    cases a with
    | nil =>
      cases b with
      | nil => exact absurd rfl (hnil rfl)
      | cons b bs => simp
    | cons a as =>
      cases b with
      | nil => simp
      | cons b bs => exact absurd rfl (hcons a as b bs rfl)

/-- **Two strings are the same key** exactly if they are equal in lower case. -/
theorem sameFolded_bytesOf {a b : String} :
    sameFolded (bytesOf a) (bytesOf b) = true ↔ a.toLower = b.toLower := by
  rw [sameFolded_iff, ← bytesOf_toLower, ← bytesOf_toLower]
  exact bytesOf_injective.eq_iff

/-- The hash of a key is the hash of its lower-case form. -/
theorem hash_foldedStrings (ν : Type) (seed : Seed) (k : String) :
    (foldedStrings ν).hash seed k = (strings ν).hash seed k.toLower := by
  change hashFolded seed (bytesOf k) = SipHash.hash seed (bytesOf k.toLower)
  rw [hashFolded_eq, bytesOf_toLower]

end Keying

end TwinTable
