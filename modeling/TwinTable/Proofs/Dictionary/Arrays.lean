/-
One array of buckets, seen as the list of its bindings.

Every operation on an array changes one chain, so what it does to the list of all
bindings is read off by cutting that list at the chain: what stands before it and what
stands behind it stay as they are (`exists_split`). The rest of this file is that cut,
taken once for each operation, up to the order of the list, which no user of an array
relies on.

Two things are asked of an array. `Sound` says that its size is one that is ever made and
that its count of bindings is right; `Filed` says that each binding lies in the bucket of
its hash. The bucket of a hash is the hash modulo the size (`index_eq`), because a size is
a power of two and the mask one less.
-/
import Mathlib
import TwinTable.Dictionary.Migration

set_option autoImplicit false

namespace TwinTable

/-- What a binding keeps when its value is revised: the handle and the key. -/
def Binding.label {κ ν : Type} (b : Binding κ ν) : Nat × κ := (b.id, b.key)

/-- Bindings with the same labels have the same handles. -/
theorem map_id_of_label {κ ν : Type} {c c' : List (Binding κ ν)}
    (h : c'.map Binding.label = c.map Binding.label) : c'.map (·.id) = c.map (·.id) := by
  have hids := congrArg (List.map Prod.fst) h
  rwa [List.map_map, List.map_map] at hids

/-- Bindings with the same labels have the same keys. -/
theorem map_key_of_label {κ ν : Type} {c c' : List (Binding κ ν)}
    (h : c'.map Binding.label = c.map Binding.label) : c'.map (·.key) = c.map (·.key) := by
  have hkeys := congrArg (List.map Prod.snd) h
  rwa [List.map_map, List.map_map] at hkeys

/-- Bindings with the same labels are as many. -/
theorem length_eq_of_label {κ ν : Type} {c c' : List (Binding κ ν)}
    (h : c'.map Binding.label = c.map Binding.label) : c'.length = c.length := by
  have hlength := congrArg List.length h
  rwa [List.length_map, List.length_map] at hlength

namespace Buckets

variable {κ ν : Type}

/-! ## Chains and the list of all bindings -/

/-- There is nothing in a bucket past the end. -/
theorem chain_eq_nil {t : Buckets κ ν} {i : Nat} (h : t.size ≤ i) : t.chain i = [] := by
  have hi : ¬ i < t.chains.size := by simp only [size] at h; omega
  rw [chain, Array.getD, dif_neg hi]

theorem chain_eq_getElem {t : Buckets κ ν} {i : Nat} (h : i < t.chains.size) :
    t.chain i = t.chains[i] := by
  rw [chain, Array.getD, dif_pos h]
  rfl

/-- A bucket with a binding in it is inside the array. -/
theorem lt_size_of_mem {t : Buckets κ ν} {i : Nat} {b : Binding κ ν} (h : b ∈ t.chain i) :
    i < t.size := by
  by_contra hge
  rw [chain_eq_nil (by omega)] at h
  exact List.not_mem_nil h

/-- The chains of an array, by ascending bucket. -/
theorem toList_chains (t : Buckets κ ν) : t.chains.toList = (List.range t.size).map t.chain := by
  refine List.ext_getElem (by simp [size]) ?_
  intro i h₁ h₂
  have hi : i < t.chains.size := by simpa using h₁
  rw [List.getElem_map, List.getElem_range, chain_eq_getElem hi]
  simp

/-- The list of an array is its chains one behind the other. -/
theorem toList_eq_flatMap (t : Buckets κ ν) :
    t.toList = (List.range t.size).flatMap t.chain := by
  rw [toList, toList_chains, List.flatMap]

theorem mem_toList {t : Buckets κ ν} {b : Binding κ ν} :
    b ∈ t.toList ↔ ∃ i, b ∈ t.chain i := by
  rw [toList_eq_flatMap, List.mem_flatMap]
  constructor
  · rintro ⟨i, -, hb⟩
    exact ⟨i, hb⟩
  · rintro ⟨i, hb⟩
    exact ⟨i, List.mem_range.mpr (lt_size_of_mem hb), hb⟩

/-- The lengths of the chains add up to that of the list. -/
theorem length_toList (t : Buckets κ ν) :
    t.toList.length = ∑ i ∈ Finset.range t.size, (t.chain i).length := by
  rw [toList_eq_flatMap, List.length_flatMap, Finset.sum_range]
  rw [← List.sum_ofFn]
  congr 1
  refine List.ext_getElem (by simp) ?_
  intro i h₁ h₂
  simp

/-- **The cut at a bucket.** The chain of a bucket stands as one piece in the list, and
a change of it changes that piece alone. -/
theorem exists_split {t : Buckets κ ν} {i : Nat} (h : i < t.size) :
    ∃ before after, t.toList = before ++ t.chain i ++ after ∧
      ∀ f, (t.chains.modify i f).toList.flatten = before ++ f (t.chain i) ++ after := by
  have hi : i < t.chains.size := h
  have hl : i < t.chains.toList.length := by simpa using hi
  refine ⟨(t.chains.toList.take i).flatten, (t.chains.toList.drop (i + 1)).flatten, ?_, ?_⟩
  · rw [chain_eq_getElem hi, toList]
    conv_lhs => rw [← List.take_append_drop i t.chains.toList, List.drop_eq_getElem_cons hl]
    simp
  · intro f
    rw [chain_eq_getElem hi, Array.toList_modify, List.modify_eq_take_cons_drop hl]
    simp

theorem length_chain_le (t : Buckets κ ν) (i : Nat) :
    (t.chain i).length ≤ t.toList.length := by
  by_cases hi : i < t.size
  · obtain ⟨before, after, hl, -⟩ := exists_split hi
    rw [hl]
    simp only [List.length_append]
    omega
  · rw [chain_eq_nil (by omega)]
    exact Nat.zero_le _

@[simp] theorem toList_unallocated : (unallocated : Buckets κ ν).toList = [] := rfl

@[simp] theorem toList_allocate (identity size : Nat) :
    (allocate identity size : Buckets κ ν).toList = [] := by
  rw [toList_eq_flatMap, List.flatMap_eq_nil_iff]
  intro i _
  exact chain_allocate identity size i

/-! ## What the operations do to the list -/

/-- A binding that is pushed is one more. -/
theorem toList_push {t : Buckets κ ν} {i : Nat} (b : Binding κ ν) (h : i < t.size) :
    (t.push i b).toList.Perm (b :: t.toList) := by
  obtain ⟨before, after, hl, hf⟩ := exists_split h
  rw [hl, push, toList, hf]
  simp only [List.append_assoc, List.cons_append]
  exact List.perm_middle

/-- Emptying a bucket takes exactly its chain away. -/
theorem toList_clearBucket {t : Buckets κ ν} {i : Nat} (h : i < t.size) :
    t.toList.Perm (t.chain i ++ (t.clearBucket i).toList) := by
  obtain ⟨before, after, hl, hf⟩ := exists_split h
  rw [hl, clearBucket, toList, hf]
  simp only [List.append_assoc, List.nil_append]
  exact List.perm_append_comm_assoc ..

/-- Erasing takes exactly the binding away that its handle finds. -/
theorem toList_erase {t : Buckets κ ν} {i id : Nat} {b : Binding κ ν}
    (h : (t.chain i).find? (·.id = id) = some b) :
    t.toList.Perm (b :: (t.erase i id).toList) := by
  have hi : i < t.size := lt_size_of_mem (List.mem_of_find?_eq_some h)
  obtain ⟨before, after, hl, hf⟩ := exists_split hi
  obtain ⟨hp, front, back, hc, hfront⟩ := List.find?_eq_some_iff_append.mp h
  have hpast : ∀ x ∈ front, ¬ decide (x.id = id) = true := by
    intro x hx
    simpa using hfront x hx
  have he : (t.chain i).eraseP (fun b => b.id = id) = front ++ back := by
    rw [hc, List.eraseP_append_right _ hpast,
      List.eraseP_cons_of_pos (p := fun b : Binding κ ν => decide (b.id = id)) hp]
  rw [hl, erase, toList, hf, he, hc]
  simp only [List.append_assoc, List.cons_append]
  rw [← List.append_assoc, ← List.append_assoc before]
  exact List.perm_middle

/-- Two arrays that differ in the values of their bindings at most. -/
structure SameLabels (t t' : Buckets κ ν) : Prop where
  identity : t'.identity = t.identity
  used : t'.used = t.used
  size : t'.size = t.size
  chain : ∀ i, (t'.chain i).map Binding.label = (t.chain i).map Binding.label

theorem SameLabels.refl (t : Buckets κ ν) : SameLabels t t := ⟨rfl, rfl, rfl, fun _ => rfl⟩

theorem SameLabels.trans {t t' t'' : Buckets κ ν} (h : SameLabels t t') (h' : SameLabels t' t'') :
    SameLabels t t'' :=
  ⟨h'.identity.trans h.identity, h'.used.trans h.used, h'.size.trans h.size,
    fun i => (h'.chain i).trans (h.chain i)⟩

theorem SameLabels.chain_eq_nil {t t' : Buckets κ ν} (h : SameLabels t t') {i : Nat}
    (hi : t.chain i = []) : t'.chain i = [] := by
  have hc := h.chain i
  rw [hi] at hc
  exact List.map_eq_nil_iff.mp hc

theorem SameLabels.toList {t t' : Buckets κ ν} (h : SameLabels t t') :
    t'.toList.map Binding.label = t.toList.map Binding.label := by
  rw [toList_eq_flatMap, toList_eq_flatMap, List.map_flatMap, List.map_flatMap, h.size]
  congr 1
  funext i
  exact h.chain i

/-- Replacing a chain by one with the same labels changes values at most. -/
theorem sameLabels_modify (t : Buckets κ ν) (i : Nat)
    (f : List (Binding κ ν) → List (Binding κ ν))
    (hf : (f (t.chain i)).map Binding.label = (t.chain i).map Binding.label) :
    SameLabels t { t with chains := t.chains.modify i f } := by
  refine ⟨rfl, rfl, by simp [size], ?_⟩
  intro j
  have hj : (Buckets.mk t.identity (t.chains.modify i f) t.used).chain j =
      if i = j ∧ i < t.chains.size then f (t.chain i) else t.chain j :=
    getD_modify t.chains i j f
  rw [hj]
  split
  · rename_i h
    rw [hf, h.1]
  · rfl

theorem chain_modify (t : Buckets κ ν) (i j : Nat) (c : List (Binding κ ν)) :
    chain { t with chains := t.chains.modify i fun _ => c } j =
      if i = j ∧ i < t.size then c else t.chain j :=
  getD_modify t.chains i j _

/-- A bucket has the chain that was put there. Past the end there is no bucket, but there are no
labels to keep either. -/
theorem chain_modify_self (t : Buckets κ ν) (i : Nat) {c : List (Binding κ ν)}
    (hlabels : c.map Binding.label = (t.chain i).map Binding.label) :
    chain { t with chains := t.chains.modify i fun _ => c } i = c := by
  rw [chain_modify]
  split
  · rfl
  · rename_i hout
    have hnil : t.chain i = [] := chain_eq_nil (by
      by_contra hlt
      exact hout ⟨rfl, by omega⟩)
    rw [hnil, List.map_nil, List.map_eq_nil_iff] at hlabels
    rw [hnil, hlabels]

/-- Revising a value leaves every label as it is. -/
theorem sameLabels_modifyValue (t : Buckets κ ν) (i id : Nat) (f : Value ν → Value ν) :
    SameLabels t (t.modifyValue i id f) := by
  refine sameLabels_modify t i _ ?_
  rw [List.map_map]
  refine List.map_congr_left ?_
  intro b _
  by_cases hb : b.id = id
  · simp [Binding.label, hb]
  · simp [hb]

/-- Two arrays that are the same one at different times. -/
structure Same (t t' : Buckets κ ν) : Prop where
  identity : t'.identity = t.identity
  size : t'.size = t.size

theorem Same.refl (t : Buckets κ ν) : Same t t := ⟨rfl, rfl⟩

theorem Same.trans {t t' t'' : Buckets κ ν} (h : Same t t') (h' : Same t' t'') : Same t t'' :=
  ⟨h'.identity.trans h.identity, h'.size.trans h.size⟩

theorem same_push (t : Buckets κ ν) (i : Nat) (b : Binding κ ν) : Same t (t.push i b) :=
  ⟨rfl, size_push t i b⟩

theorem same_erase (t : Buckets κ ν) (i id : Nat) : Same t (t.erase i id) :=
  ⟨rfl, size_erase t i id⟩

theorem same_clearBucket (t : Buckets κ ν) (i : Nat) : Same t (t.clearBucket i) :=
  ⟨rfl, size_clearBucket t i⟩

theorem SameLabels.same {t t' : Buckets κ ν} (h : SameLabels t t') : Same t t' :=
  ⟨h.identity, h.size⟩

/-! ## Sizes -/

/-- Doubling goes on until the size is reached, or until no doubling is left. -/
theorem doubleUntil_eq (size : Nat) : ∀ d p, ∃ j, j ≤ d ∧ doubleUntil size d p = p * 2 ^ j ∧
    (size ≤ p * 2 ^ d → size ≤ p * 2 ^ j) ∧ ∀ i, i < j → p * 2 ^ i < size := by
  intro d
  -- induction on the doublings that are left; `p` grows, so it has to be general
  induction d with
  | zero =>
    intro p
    exact ⟨0, le_refl _, by simp [doubleUntil], fun h => h, fun i hi => absurd hi (by omega)⟩
  | succ d ih =>
    intro p
    rw [doubleUntil]
    split
    · rename_i h
      exact ⟨0, by omega, by simp, fun _ => by simpa using h, fun i hi => absurd hi (by omega)⟩
    · rename_i h
      obtain ⟨j, hj, he, hle, hlt⟩ := ih (2 * p)
      have hshift : ∀ m, 2 * p * 2 ^ m = p * 2 ^ (m + 1) := fun m => by ring
      refine ⟨j + 1, by omega, ?_, ?_, ?_⟩
      · rw [he, hshift]
      · intro hs
        rw [← hshift] at hs ⊢
        exact hle hs
      · intro i hi
        cases i with
        | zero => simpa using Nat.lt_of_not_le h
        | succ i =>
          rw [← hshift]
          exact hlt i (by omega)

/-- Every size that is made is a power of two, from four to 2^63. -/
theorem sizeFor_eq (size : Nat) : ∃ n, 2 ≤ n ∧ n ≤ 63 ∧ sizeFor size = 2 ^ n := by
  obtain ⟨j, hj, he, -, -⟩ := doubleUntil_eq size 61 leastSize
  refine ⟨j + 2, by omega, by omega, ?_⟩
  rw [sizeFor, he, leastSize]
  ring

/-- A size that is made is large enough, unless it would need more than sixty-four bits. -/
theorem le_sizeFor {size : Nat} (h : size ≤ 2 ^ 63) : size ≤ sizeFor size := by
  obtain ⟨j, -, he, hle, -⟩ := doubleUntil_eq size 61 leastSize
  rw [sizeFor, he]
  exact hle (h.trans (by decide))

theorem sizeFor_le (size : Nat) : sizeFor size ≤ 2 ^ 63 := by
  obtain ⟨n, -, hn, hs⟩ := sizeFor_eq size
  rw [hs]
  exact Nat.pow_le_pow_right (by omega) hn

/-- For a power of two, from four on, just so many buckets are made. -/
theorem sizeFor_two_pow {n : Nat} (h2 : 2 ≤ n) (h63 : n ≤ 63) : sizeFor (2 ^ n) = 2 ^ n := by
  obtain ⟨j, -, he, -, hlt⟩ := doubleUntil_eq (2 ^ n) 61 leastSize
  have hsize : sizeFor (2 ^ n) = 2 ^ (j + 2) := by
    rw [sizeFor, he, leastSize]
    ring
  have hge : 2 ^ n ≤ 2 ^ (j + 2) := hsize ▸ le_sizeFor (Nat.pow_le_pow_right (by omega) h63)
  have hle : n ≤ j + 2 := (Nat.pow_le_pow_iff_right (by omega)).mp hge
  -- with one doubling less the size would not have been reached
  have hreached : ¬ n < j + 2 := by
    intro hn
    have hbelow := hlt (n - 2) (by omega)
    have heq : leastSize * 2 ^ (n - 2) = 2 ^ n := by
      rw [leastSize, show 4 = 2 ^ 2 by rfl, ← pow_add, Nat.add_sub_cancel' h2]
    omega
  rw [hsize, show j + 2 = n by omega]

/-- The bits of the mask are those below the exponent of the size. -/
theorem toNat_mask {t : Buckets κ ν} {n : Nat} (hn : n ≤ 63) (h : t.size = 2 ^ n) :
    t.mask.toNat = 2 ^ n - 1 := by
  have hlt : 2 ^ n ≤ 2 ^ 63 := Nat.pow_le_pow_right (by omega) hn
  rw [mask, h, UInt64.toNat_ofNat', Nat.mod_eq_of_lt (by omega)]

/-- The bucket of a hash is the hash modulo the size. -/
theorem index_eq {t : Buckets κ ν} {n : Nat} (hn : n ≤ 63) (h : t.size = 2 ^ n) (hash : UInt64) :
    t.index hash = hash.toNat % 2 ^ n := by
  rw [index, UInt64.toNat_and, toNat_mask hn h, Nat.and_two_pow_sub_one_eq_mod]

/-- Which bucket a hash has depends on the size alone. -/
theorem index_congr {t t' : Buckets κ ν} (h : t'.size = t.size) (hash : UInt64) :
    t'.index hash = t.index hash := by
  rw [index, index, mask, mask, h]

/-! ## Sound arrays -/

/-- An array that is unallocated or has a size that is made, and counts its bindings
correctly. -/
structure Sound (t : Buckets κ ν) : Prop where
  sized : t = .unallocated ∨ ∃ n, 2 ≤ n ∧ n ≤ 63 ∧ t.size = 2 ^ n
  counted : t.used = t.toList.length

theorem sound_unallocated : (unallocated : Buckets κ ν).Sound := ⟨.inl rfl, rfl⟩

theorem sound_allocate (identity size : Nat) :
    (allocate identity (sizeFor size) : Buckets κ ν).Sound := by
  refine ⟨.inr ?_, ?_⟩
  · obtain ⟨n, h2, h63, he⟩ := sizeFor_eq size
    exact ⟨n, h2, h63, by rw [size_allocate, he]⟩
  · rw [toList_allocate]
    rfl

/-- An allocated array has the size of a power of two. -/
theorem Sound.exists_size {t : Buckets κ ν} (ht : t.Sound) (h : t.size ≠ 0) :
    ∃ n, 2 ≤ n ∧ n ≤ 63 ∧ t.size = 2 ^ n := by
  rcases ht.sized with rfl | hn
  · exact absurd size_unallocated h
  · exact hn

theorem Sound.eq_unallocated {t : Buckets κ ν} (ht : t.Sound) (h : t.size = 0) :
    t = .unallocated := by
  rcases ht.sized with hu | ⟨n, -, -, hs⟩
  · exact hu
  · rw [h] at hs
    exact absurd hs.symm (Nat.two_pow_pos n).ne'

/-- In an allocated array every hash has a bucket. -/
theorem Sound.index_lt {t : Buckets κ ν} (ht : t.Sound) (h : t.size ≠ 0) (hash : UInt64) :
    t.index hash < t.size := by
  obtain ⟨n, -, hn, hs⟩ := ht.exists_size h
  rw [index_eq hn hs, hs]
  exact Nat.mod_lt _ (Nat.two_pow_pos n)

/-- The count tells whether there is anything. -/
theorem Sound.used_eq_zero {t : Buckets κ ν} (ht : t.Sound) : t.used = 0 ↔ t.toList = [] := by
  rw [ht.counted, List.length_eq_zero_iff]

theorem Sound.length_chain_le {t : Buckets κ ν} (ht : t.Sound) (i : Nat) :
    (t.chain i).length ≤ t.used := by
  rw [ht.counted]
  exact Buckets.length_chain_le t i

/-- If there is anything in an array and nothing below a bucket, there is something in
that bucket or behind it. -/
theorem Sound.exists_chain_ne_nil {t : Buckets κ ν} (ht : t.Sound) (hu : t.used ≠ 0) {i : Nat}
    (hbelow : ∀ j, j < i → t.chain j = []) : ∃ j, i ≤ j ∧ j < t.size ∧ t.chain j ≠ [] := by
  have hne : t.toList ≠ [] := fun h => hu (ht.used_eq_zero.mpr h)
  obtain ⟨b, hb⟩ := List.exists_mem_of_ne_nil _ hne
  obtain ⟨j, hj⟩ := mem_toList.mp hb
  refine ⟨j, ?_, lt_size_of_mem hj, List.ne_nil_of_mem hj⟩
  by_contra hlt
  rw [hbelow j (by omega)] at hj
  exact List.not_mem_nil hj

theorem Sound.push {t : Buckets κ ν} (ht : t.Sound) {i : Nat} (b : Binding κ ν)
    (h : i < t.size) : (t.push i b).Sound := by
  refine ⟨.inr ?_, ?_⟩
  · obtain ⟨n, h2, h63, hs⟩ := ht.exists_size (by omega)
    exact ⟨n, h2, h63, by rw [size_push, hs]⟩
  · rw [(toList_push b h).length_eq, List.length_cons, ← ht.counted]
    rfl

theorem Sound.clearBucket {t : Buckets κ ν} (ht : t.Sound) {i : Nat} (h : i < t.size) :
    (t.clearBucket i).Sound := by
  refine ⟨.inr ?_, ?_⟩
  · obtain ⟨n, h2, h63, hs⟩ := ht.exists_size (by omega)
    exact ⟨n, h2, h63, by rw [size_clearBucket, hs]⟩
  · have hl := (toList_clearBucket h).length_eq
    rw [List.length_append, ← ht.counted] at hl
    change t.used - (t.chain i).length = _
    omega

theorem Sound.erase {t : Buckets κ ν} (ht : t.Sound) {i id : Nat} {b : Binding κ ν}
    (h : (t.chain i).find? (·.id = id) = some b) : (t.erase i id).Sound := by
  have hi : i < t.size := lt_size_of_mem (List.mem_of_find?_eq_some h)
  refine ⟨.inr ?_, ?_⟩
  · obtain ⟨n, h2, h63, hs⟩ := ht.exists_size (by omega)
    exact ⟨n, h2, h63, by rw [size_erase, hs]⟩
  · have hl := (toList_erase h).length_eq
    rw [List.length_cons, ← ht.counted] at hl
    change t.used - 1 = _
    omega

theorem Sound.of_sameLabels {t t' : Buckets κ ν} (ht : t.Sound) (h : SameLabels t t') :
    t'.Sound := by
  have hlen : t'.toList.length = t.toList.length := by
    simpa using congrArg List.length h.toList
  refine ⟨?_, by rw [h.used, hlen, ht.counted]⟩
  rcases ht.sized with rfl | ⟨n, h2, h63, hs⟩
  · refine .inl ?_
    obtain ⟨identity, chains, used⟩ := t'
    have hid : identity = 0 := h.identity
    have hused : used = 0 := h.used
    have hchains : chains = #[] := Array.eq_empty_of_size_eq_zero h.size
    rw [hid, hused, hchains, unallocated]
  · exact .inr ⟨n, h2, h63, by rw [h.size, hs]⟩

/-! ## Arrays filed by hash -/

/-- Each binding lies in the bucket of its hash. -/
def Filed (hash : κ → UInt64) (t : Buckets κ ν) : Prop :=
  ∀ i b, b ∈ t.chain i → t.index (hash b.key) = i

variable {hash : κ → UInt64}

theorem filed_unallocated : (unallocated : Buckets κ ν).Filed hash := by
  intro i b hb
  rw [chain_unallocated] at hb
  exact absurd hb List.not_mem_nil

theorem filed_allocate (identity size : Nat) :
    (allocate identity size : Buckets κ ν).Filed hash := by
  intro i b hb
  rw [chain_allocate] at hb
  exact absurd hb List.not_mem_nil

/-- A change that leaves the size alone and brings nothing new into any chain but a binding
in its own bucket leaves an array filed. -/
theorem Filed.of_subset {t t' : Buckets κ ν} (ht : t.Filed hash) (hs : t'.size = t.size)
    (hsub : ∀ i b, b ∈ t'.chain i → b ∈ t.chain i ∨ t.index (hash b.key) = i) :
    t'.Filed hash := by
  intro i b hb
  rw [index_congr hs]
  rcases hsub i b hb with h | h
  · exact ht i b h
  · exact h

theorem Filed.push {t : Buckets κ ν} (ht : t.Filed hash) {i : Nat} {b : Binding κ ν}
    (hi : t.index (hash b.key) = i) : (t.push i b).Filed hash := by
  refine ht.of_subset (size_push t i b) ?_
  intro j x hx
  rw [chain_push] at hx
  split at hx
  · rename_i h
    rcases List.mem_cons.mp hx with rfl | hx
    · exact .inr (hi.trans h.1)
    · exact .inl (h.1 ▸ hx)
  · exact .inl hx

theorem Filed.clearBucket {t : Buckets κ ν} (ht : t.Filed hash) (i : Nat) :
    (t.clearBucket i).Filed hash := by
  refine ht.of_subset (size_clearBucket t i) ?_
  intro j x hx
  rw [chain_clearBucket] at hx
  split at hx
  · exact absurd hx List.not_mem_nil
  · exact .inl hx

theorem Filed.erase {t : Buckets κ ν} (ht : t.Filed hash) (i id : Nat) :
    (t.erase i id).Filed hash := by
  refine ht.of_subset (size_erase t i id) ?_
  intro j x hx
  rw [chain_erase] at hx
  split at hx
  · rename_i h
    exact .inl (h.1 ▸ List.mem_of_mem_eraseP hx)
  · exact .inl hx

theorem Filed.of_sameLabels {t t' : Buckets κ ν} (ht : t.Filed hash) (h : SameLabels t t') :
    t'.Filed hash := by
  intro i b hb
  have hmem : b.label ∈ (t.chain i).map Binding.label := by
    rw [← h.chain i]
    exact List.mem_map_of_mem hb
  obtain ⟨x, hx, hl⟩ := List.mem_map.mp hmem
  have hkey : x.key = b.key := congrArg Prod.snd hl
  rw [index_congr h.size, ← hkey]
  exact ht i x hx

end Buckets

/-! ## Moving a chain -/

namespace Passage

variable {κ ν : Type} (hash : κ → UInt64)

open Buckets

@[simp] theorem moveChain_nil (t : Buckets κ ν) : moveChain hash [] t = t := rfl

@[simp] theorem moveChain_cons (b : Binding κ ν) (c : List (Binding κ ν)) (t : Buckets κ ν) :
    moveChain hash (b :: c) t = moveChain hash c (t.push (t.index (hash b.key)) b) := rfl

@[simp] theorem size_moveChain (c : List (Binding κ ν)) :
    ∀ t : Buckets κ ν, (moveChain hash c t).size = t.size := by
  induction c with
  | nil => intro t; rfl
  | cons b c ih => intro t; rw [moveChain_cons, ih, size_push]

theorem same_moveChain (c : List (Binding κ ν)) : ∀ t : Buckets κ ν,
    t.Same (moveChain hash c t) := by
  induction c with
  | nil => exact fun t => .refl t
  | cons b c ih => exact fun t => (same_push t _ b).trans (ih _)

/-- A moved chain is what the target holds more. -/
theorem toList_moveChain (c : List (Binding κ ν)) : ∀ t : Buckets κ ν, t.Sound → t.size ≠ 0 →
    (moveChain hash c t).toList.Perm (c ++ t.toList) := by
  -- induction on the chain, while the target grows; it is sound, so each push is inside it
  induction c with
  | nil => intro t _ _; exact List.Perm.refl _
  | cons b c ih =>
    intro t ht hs
    have hi : t.index (hash b.key) < t.size := ht.index_lt hs _
    rw [moveChain_cons]
    refine (ih _ (ht.push b hi) (by rwa [size_push])).trans ?_
    refine ((toList_push b hi).append_left c).trans ?_
    exact List.perm_middle

/-- A bucket that moves keeps the bindings of the two arrays together. -/
theorem toList_moveBucket {p : Passage κ ν} (hnext : p.next < p.source.size)
    (ht : p.target.Sound) (hs : p.target.size ≠ 0) :
    ((moveBucket hash p).source.toList ++ (moveBucket hash p).target.toList).Perm
      (p.source.toList ++ p.target.toList) := by
  have hmoved := toList_moveChain hash (p.source.chain p.next) p.target ht hs
  refine (hmoved.append_left _).trans ?_
  rw [← List.append_assoc]
  exact (List.perm_append_comm.trans (toList_clearBucket hnext).symm).append_right _

theorem sound_moveChain (c : List (Binding κ ν)) : ∀ t : Buckets κ ν, t.Sound → t.size ≠ 0 →
    (moveChain hash c t).Sound := by
  induction c with
  | nil => intro t ht _; exact ht
  | cons b c ih =>
    intro t ht hs
    rw [moveChain_cons]
    exact ih _ (ht.push b (ht.index_lt hs _)) (by rwa [size_push])

theorem filed_moveChain (c : List (Binding κ ν)) : ∀ t : Buckets κ ν, t.Filed hash →
    (moveChain hash c t).Filed hash := by
  induction c with
  | nil => intro t ht; exact ht
  | cons b c ih =>
    intro t ht
    rw [moveChain_cons]
    exact ih _ (ht.push rfl)

end Passage

end TwinTable
