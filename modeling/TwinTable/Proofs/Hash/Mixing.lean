/-
Mixing loses nothing.

A word is mixed by steps that can all be undone: shifted copies of it are added up, which
multiplies it by an odd number, and a copy of it that is shifted to the right is laid over it, so
that the upper bits stay and tell the lower ones. The first section has these steps.

A round of a fingerprint adds a word to the hash and then takes seven such steps. So for every word
it permutes the hashes, and for every hash it permutes the words (`Fingerprint.mix_bijective_left`,
`Fingerprint.mix_bijective_right`). As long as all other words of a row stay the same, the
fingerprint of the row takes each value for exactly one value of the word that is left
(`ofWords_bijective`), and rows that differ in one place only have different fingerprints
(`ofWords_ne_of_existsUnique`).
-/
import Mathlib
import TwinTable.Dictionary.Walk

set_option autoImplicit false

namespace TwinTable

/-! ## Words

Mixing a word is a chain of steps that lose nothing. -/

/-- A word is not lost when its upper bits are laid over the lower ones: the difference of
two words with the same outcome would be its own upper part. -/
theorem xor_shiftRight_injective {k : UInt64} (hk : k.toNat % 64 ≠ 0) :
    Function.Injective fun z : UInt64 => z ^^^ z >>> k := by
  intro x y h
  have hsame : x ^^^ y = (x ^^^ y) >>> k := by
    rw [UInt64.shiftRight_xor, ← UInt64.xor_eq_zero_iff]
    have hzero : (x ^^^ x >>> k) ^^^ (y ^^^ y >>> k) = 0 := UInt64.xor_eq_zero_iff.mpr h
    rw [← hzero]
    ac_rfl
  -- a number that is a proper part of itself is zero
  have hpart := congrArg UInt64.toNat hsame
  rw [UInt64.toNat_shiftRight, Nat.shiftRight_eq_div_pow] at hpart
  have hzero : (x ^^^ y).toNat = 0 := by
    by_contra hne
    have hlt := Nat.div_lt_self (Nat.pos_of_ne_zero hne) (Nat.one_lt_two_pow hk)
    omega
  rw [← UInt64.xor_eq_zero_iff, ← UInt64.toNat_inj, hzero]
  rfl

/-- Multiplying with an odd word can be undone by multiplying with its inverse. -/
theorem mul_right_injective_of_inverse {c inverse : UInt64} (h : c * inverse = 1) :
    Function.Injective fun z : UInt64 => z * c := by
  intro x y hxy
  have hundone := congrArg (· * inverse) hxy
  simpa only [UInt64.mul_assoc, h, UInt64.mul_one] using hundone

/-- So what adds up copies of a word, an odd number of them, and perhaps a constant can be
undone. -/
theorem injective_of_eq_mul_add {f : UInt64 → UInt64} {c inverse : UInt64}
    (h : c * inverse = 1) (a : UInt64) (hf : ∀ z, f z = z * c + a) : Function.Injective f := by
  intro x y hxy
  rw [hf, hf] at hxy
  exact mul_right_injective_of_inverse h (UInt64.add_left_inj a |>.mp hxy)

/-- A shift to the left multiplies with a power of two. -/
theorem shiftLeft_eq_mul (z : UInt64) {k p : UInt64} (hk : k.toNat < 64)
    (hp : p.toNat = 2 ^ k.toNat) : z <<< k = z * p := by
  apply UInt64.toNat_inj.mp
  rw [UInt64.toNat_shiftLeft, UInt64.toNat_mul, Nat.mod_eq_of_lt hk, Nat.shiftLeft_eq, hp]

namespace Fingerprint

/-! ## A round of mixing -/

/-- What happens to a hash after a word has been added to it. -/
def stir (hash : UInt64) : UInt64 :=
  let h := ~~~hash + hash <<< 21
  let h := h ^^^ h >>> 24
  let h := h + h <<< 3 + h <<< 8
  let h := h ^^^ h >>> 14
  let h := h + h <<< 2 + h <<< 4
  let h := h ^^^ h >>> 28
  h + h <<< 31

open scoped UInt64.CommRing in
theorem stir_bijective : Function.Bijective stir := by
  have h₁ : Function.Injective fun z : UInt64 => ~~~z + z <<< 21 := by
    refine injective_of_eq_mul_add (show 0x1fffff * 0x7ffffbffffdfffff = 1 by decide) (-1)
      fun z => ?_
    rw [shiftLeft_eq_mul z (p := 2 ^ 21) (by decide) (by decide), UInt64.not_eq_neg_sub]
    ring
  have h₃ : Function.Injective fun z : UInt64 => z + z <<< 3 + z <<< 8 := by
    refine injective_of_eq_mul_add (show 0x109 * 0xd38ff08b1c03dd39 = 1 by decide) 0
      fun z => ?_
    rw [shiftLeft_eq_mul z (p := 2 ^ 3) (by decide) (by decide),
      shiftLeft_eq_mul z (p := 2 ^ 8) (by decide) (by decide)]
    ring
  have h₅ : Function.Injective fun z : UInt64 => z + z <<< 2 + z <<< 4 := by
    refine injective_of_eq_mul_add (show 0x15 * 0xcf3cf3cf3cf3cf3d = 1 by decide) 0
      fun z => ?_
    rw [shiftLeft_eq_mul z (p := 2 ^ 2) (by decide) (by decide),
      shiftLeft_eq_mul z (p := 2 ^ 4) (by decide) (by decide)]
    ring
  have h₇ : Function.Injective fun z : UInt64 => z + z <<< 31 := by
    refine injective_of_eq_mul_add (show 0x80000001 * 0x3fffffff80000001 = 1 by decide) 0
      fun z => ?_
    rw [shiftLeft_eq_mul z (p := 2 ^ 31) (by decide) (by decide)]
    ring
  have hinjective : Function.Injective stir :=
    h₇.comp <| (xor_shiftRight_injective (k := 28) (by decide)).comp <|
      h₅.comp <| (xor_shiftRight_injective (k := 14) (by decide)).comp <|
        h₃.comp <| (xor_shiftRight_injective (k := 24) (by decide)).comp h₁
  -- there are finitely many words, so none is left out
  exact Finite.injective_iff_bijective.mp hinjective

open scoped UInt64.CommRing in
/-- **A round of mixing permutes the hashes**, whatever the word. -/
theorem mix_bijective_left (part : UInt64) : Function.Bijective fun hash => mix hash part := by
  change Function.Bijective (stir ∘ fun hash => hash + part)
  exact stir_bijective.comp (AddGroup.addRight_bijective part)

open scoped UInt64.CommRing in
/-- **A round of mixing permutes the words**, whatever the hash. -/
theorem mix_bijective_right (hash : UInt64) : Function.Bijective (mix hash) := by
  change Function.Bijective (stir ∘ fun part => hash + part)
  exact stir_bijective.comp (AddGroup.addLeft_bijective hash)

/-! ## Rows of words -/

theorem foldl_mix_bijective (parts : List UInt64) :
    Function.Bijective fun hash => parts.foldl mix hash := by
  induction parts with
  | nil => exact Function.bijective_id
  | cons part parts ih => exact ih.comp (mix_bijective_left part)

/-- **Each word shows**: where all others stay, different words give different fingerprints, and
every fingerprint comes up. -/
theorem ofWords_bijective (before after : List UInt64) :
    Function.Bijective fun part => ofWords (before ++ part :: after) := by
  have heq : (fun part => ofWords (before ++ part :: after)) =
      (fun hash => after.foldl mix hash) ∘ mix (ofWords before) := by
    funext part
    rw [ofWords, List.foldl_append, List.foldl_cons]
    rfl
  rw [heq]
  exact (foldl_mix_bijective after).comp (mix_bijective_right _)

theorem lt_length_of_getElem?_ne {parts parts' : List UInt64}
    (hlength : parts.length = parts'.length) {i : Nat} (hi : parts[i]? ≠ parts'[i]?) :
    i < parts.length := by
  by_contra hge
  exact hi (by rw [List.getElem?_eq_none (by omega), List.getElem?_eq_none (by omega)])

/-- Two rows that differ in one place only are the same row with different words there. -/
theorem exists_eq_append_of_existsUnique {parts parts' : List UInt64}
    (hlength : parts.length = parts'.length) (hone : ∃! i : Nat, parts[i]? ≠ parts'[i]?) :
    ∃ before part part' after, part ≠ part' ∧ parts = before ++ part :: after ∧
      parts' = before ++ part' :: after := by
  obtain ⟨i, hi, honly⟩ := hone
  have helse : ∀ j, j ≠ i → parts[j]? = parts'[j]? := fun j hj =>
    not_not.mp fun hne => hj (honly j hne)
  have hlt := lt_length_of_getElem?_ne hlength hi
  have hset : parts' = parts.set i parts'[i] := by
    refine List.ext_getElem? fun j => ?_
    by_cases hj : j = i
    · subst hj
      rw [List.getElem?_set_self hlt, List.getElem?_eq_getElem]
    · rw [List.getElem?_set_ne (Ne.symm hj), helse j hj]
  rw [List.set_eq_take_append_cons_drop, if_pos hlt] at hset
  refine ⟨parts.take i, parts[i], parts'[i], parts.drop (i + 1), ?_, ?_, hset⟩
  · intro heq
    exact hi (by rw [List.getElem?_eq_getElem hlt, List.getElem?_eq_getElem (hlength ▸ hlt), heq])
  · rw [← List.drop_eq_getElem_cons, List.take_append_drop]

/-- **A single change cannot hide.** -/
theorem ofWords_ne_of_existsUnique {parts parts' : List UInt64}
    (hlength : parts.length = parts'.length) (hone : ∃! i : Nat, parts[i]? ≠ parts'[i]?) :
    ofWords parts ≠ ofWords parts' := by
  obtain ⟨before, part, part', after, hne, rfl, rfl⟩ :=
    exists_eq_append_of_existsUnique hlength hone
  exact (ofWords_bijective before after).injective.ne hne

end Fingerprint

end TwinTable
