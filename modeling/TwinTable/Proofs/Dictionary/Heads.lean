/-
Arrays of heads and the chains they hold.

`Holds slab t b` says that an array of heads has the size, the mask and the count of an
array of chains, and that from the head of each bucket the links lead through its chain.
The operations of an array change one bucket, so each lemma here is the same cut: the new
chain of that bucket, and everything else by the frame (`Holds.of_bucket`). What makes the
frame apply is that no handle occurs twice.
-/
import TwinTable.Proofs.Dictionary.Handles
import TwinTable.Proofs.Dictionary.Links

set_option autoImplicit false

namespace TwinTable

namespace Heads

variable {κ ν : Type} {slab slab' : Slab κ ν} {t t' : Heads} {b b' : Buckets κ ν}

/-! ## What an array holds -/

/-- An array of heads that holds the chains of an array. -/
structure Holds (slab : Slab κ ν) (t : Heads) (b : Buckets κ ν) : Prop where
  size : t.size = b.size
  used : t.used = b.used
  mask : t.mask = b.mask
  leads : ∀ i, Slab.Leads slab (t.head i) (b.chain i)

theorem holds_unallocated : Holds slab .unallocated .unallocated :=
  ⟨rfl, rfl, rfl, fun _ => rfl⟩

theorem holds_allocate (identity size : Nat) :
    Holds slab (.allocate size) (.allocate identity size) := by
  have hsize : (Heads.allocate size).size = size := by simp [Heads.size, allocate]
  refine ⟨?_, rfl, ?_, ?_⟩
  · rw [hsize, Buckets.size_allocate]
  · rw [Buckets.mask, Buckets.size_allocate]
    rfl
  · intro i
    rw [Buckets.chain_allocate]
    show (Array.replicate size none).getD i none = none
    simp only [Array.getD_eq_getD_getElem?, Array.getElem?_replicate]
    split <;> rfl

/-- Whichever slab leads through the same entries will do. -/
theorem Holds.congr (h : Holds slab t b) (hsame : ∀ x ∈ b.toList, slab' x.id = slab x.id) :
    Holds slab' t b :=
  ⟨h.size, h.used, h.mask, fun i => (h.leads i).congr fun x hx =>
    hsame x (Buckets.mem_toList.mpr ⟨i, hx⟩)⟩

theorem Holds.sameOff (h : Holds slab t b) {ids : List Nat} (hs : Slab.SameOff ids slab slab')
    (hids : ∀ id ∈ b.handles, id ∉ ids) : Holds slab' t b :=
  h.congr fun x hx => hs.off x.id (hids x.id (List.mem_map_of_mem hx))

theorem Holds.index_eq (h : Holds slab t b) (hash : UInt64) : t.index hash = b.index hash := by
  rw [Heads.index, Buckets.index, h.mask]

/-! ## One head -/

/-- There is a head in every bucket there is. -/
theorem getElem?_buckets {i : Nat} (h : i < t.size) : t.buckets[i]? = some (t.head i) := by
  have hi : i < t.buckets.size := h
  rw [head, Array.getD_eq_getD_getElem?, Array.getElem?_eq_getElem hi]
  rfl

/-- Two arrays that differ in one head and in the count at most. -/
structure SameBut (i : Nat) (t t' : Heads) : Prop where
  size : t'.size = t.size
  mask : t'.mask = t.mask
  head : ∀ j, j ≠ i → t'.head j = t.head j

theorem exists_setHead {i : Nat} (h : i < t.size) (first : Option Nat) :
    ∃ t', t.setHead i first = some t' ∧ SameBut i t t' ∧ t'.used = t.used ∧
      t'.head i = first := by
  have hi : i < t.buckets.size := h
  refine ⟨{ t with buckets := t.buckets.setIfInBounds i first }, ?_, ⟨?_, rfl, ?_⟩, rfl, ?_⟩
  · rw [setHead, getElem?_buckets h]
    rfl
  · simp [Heads.size]
  · intro j hj
    simp only [Heads.head, Array.getD_eq_getD_getElem?, Array.getElem?_setIfInBounds]
    rw [if_neg (Ne.symm hj)]
  · simp [Heads.head, hi]

/-- **One bucket at a time.** If one chain was changed as its head and its entries were, and
the other chains kept their entries, the array holds what it should. -/
theorem Holds.of_bucket (h : Holds slab t b) {i : Nat} (ht : SameBut i t t')
    (hused : t'.used = b'.used) (hsize : b'.size = b.size)
    (hchain : ∀ j, j ≠ i → b'.chain j = b.chain j)
    (hleads : Slab.Leads slab' (t'.head i) (b'.chain i))
    (hsame : ∀ j, j ≠ i → ∀ x ∈ b.chain j, slab' x.id = slab x.id) : Holds slab' t' b' := by
  refine ⟨?_, hused, ?_, ?_⟩
  · rw [ht.size, h.size, hsize]
  · rw [ht.mask, h.mask, Buckets.mask, Buckets.mask, hsize]
  · intro j
    -- one bucket is as it should be by what was done to it, the others by the frame
    by_cases hj : j = i
    · subst hj
      exact hleads
    · rw [ht.head j hj, hchain j hj]
      exact (h.leads j).congr (hsame j hj)

/-! ## Putting an entry in front of a chain -/

/-- An entry that is alive and in no chain yet goes to the front of one. -/
theorem Holds.exists_pushFront (h : Holds slab t b) {i : Nat} (hi : i < b.size)
    {x : Binding κ ν} {next : Option Nat} (hcell : slab x.id = some ⟨x.key, x.value, next⟩)
    (hnew : x.id ∉ b.handles) :
    ∃ t' slab', t.pushFront slab i x.id = some (t', slab') ∧ Holds slab' t' (b.push i x) ∧
      Slab.SameOff [x.id] slab slab' := by
  have hit : i < t.size := by rw [h.size]; exact hi
  obtain ⟨t', hset, hbut, hused, hhead⟩ := exists_setHead hit (some x.id)
  have hlink : Slab.link slab x.id (t.head i) =
      some (Function.update slab x.id (some ⟨x.key, x.value, t.head i⟩)) := by
    rw [Slab.link, hcell]
    rfl
  -- the handle is in no chain, so linking the entry disturbs none
  have hfree : ∀ j, x.id ∉ (b.chain j).map (·.id) := by
    intro j hmem
    obtain ⟨y, hy, he⟩ := List.mem_map.mp hmem
    exact hnew (he ▸ Buckets.mem_handles_of_chain hy)
  have halive : slab x.id ≠ none := by simp [hcell]
  refine ⟨{ t' with used := t'.used + 1 },
    Function.update slab x.id (some ⟨x.key, x.value, t.head i⟩), ?_, ?_,
    Slab.sameOff_update halive _⟩
  · simp only [pushFront, getElem?_buckets hit, hlink, hset, Option.bind_eq_bind,
      Option.bind_some]
    rfl
  · refine h.of_bucket (i := i) ⟨hbut.size, hbut.mask, hbut.head⟩ ?_
      (Buckets.size_push b i x) ?_ ?_ ?_
    · show t'.used + 1 = b.used + 1
      rw [hused, h.used]
    · intro j hj
      rw [Buckets.chain_push, if_neg fun hij => hj hij.1.symm]
    · rw [Buckets.chain_push, if_pos ⟨rfl, hi⟩]
      exact ⟨hhead, t.head i, Function.update_self .., (h.leads i).update (hfree i) _⟩
    · intro j _ y hy
      rw [Function.update_of_ne]
      intro he
      exact hfree j (he ▸ List.mem_map_of_mem hy)

/-! ## Taking an entry out of its chain -/

/-- What leads to an entry is made to lead past it. It is the entry before, or the bucket
where there is none. -/
theorem exists_bridge {i : Nat} (hi : i < t.size) {front back : List (Binding κ ν)}
    {x : Binding κ ν} {next : Option Nat} (hleads : Slab.Leads slab (t.head i) (front ++ x :: back))
    (hnodup : ((front ++ x :: back).map (·.id)).Nodup)
    (hcell : slab x.id = some ⟨x.key, x.value, next⟩) :
    ∃ t' slab', t.bridge slab i (front.getLast?.map (·.id)) next = some (t', slab') ∧
      SameBut i t t' ∧ t'.used = t.used ∧ Slab.Leads slab' (t'.head i) (front ++ back) ∧
      Slab.SameOff (front.map (·.id)) slab slab' := by
  have hback : Slab.Leads slab next back := by
    obtain ⟨current, -, next', hcell', hrest⟩ := hleads.exists_rest
    obtain rfl : next = next' := by simpa [hcell] using hcell'
    exact hrest
  -- whether there is an entry before decides what is changed: a bucket, or a cell
  rcases front.eq_nil_or_concat with rfl | ⟨init, y, rfl⟩
  · obtain ⟨t', hset, hbut, hused, hhead⟩ := exists_setHead hi next
    refine ⟨t', slab, ?_, hbut, hused, ?_, .refl _ _⟩
    · show (t.setHead i next).map _ = _
      rw [hset]
      rfl
    · rw [hhead]
      exact hback
  · -- the handle of the entry before is neither behind it nor in front of it
    simp only [List.concat_eq_append, List.append_assoc, List.cons_append, List.nil_append,
      List.map_append, List.map_cons] at hleads hnodup ⊢
    obtain ⟨-, hrest, hapart⟩ := List.nodup_append.mp hnodup
    have hyfront : y.id ∉ init.map (·.id) := fun hmem =>
      hapart _ hmem _ List.mem_cons_self rfl
    have hyback : y.id ∉ back.map (·.id) := fun hmem =>
      (List.nodup_cons.mp hrest).1 (List.mem_cons_of_mem _ hmem)
    obtain ⟨after, hy⟩ := hleads.exists_cell (b := y) (by simp)
    refine ⟨t, _, ?_, ⟨rfl, rfl, fun _ _ => rfl⟩, rfl,
      Slab.Leads.relink hback hyback hleads hyfront, ?_⟩
    · have hlast : (init ++ [y]).getLast?.map (·.id) = some y.id := by simp
      rw [hlast]
      show (Slab.link slab y.id next).map _ = _
      rw [Slab.link, hy]
      rfl
    · exact (Slab.sameOff_update (by simp [hy]) _).mono (by simp)

/-- Looking for an entry passes those that do not match, and remembers the last of them. -/
theorem exists_unlinkFrom_rest (t : Heads) (i : Nat) {test : κ → Bool}
    {front rest : List (Binding κ ν)} : ∀ (fuel : Nat) (before : Option Nat)
      {current : Option Nat}, Slab.Leads slab current (front ++ rest) →
      (∀ x ∈ front, test x.key = false) →
      ∃ next, Slab.Leads slab next rest ∧
        t.unlinkFrom slab i test (front.length + fuel) before current =
          t.unlinkFrom slab i test fuel ((front.getLast?.map (·.id)).or before) next := by
  -- induction on what is passed; the entry before is always the last one of it
  induction front with
  | nil =>
    intro fuel before current h _
    exact ⟨current, h, by simp⟩
  | cons x front ih =>
    rintro fuel before current ⟨rfl, next, hcell, hrest⟩ hpast
    obtain ⟨next', hleads, hrun⟩ := ih fuel (some x.id) hrest
      fun y hy => hpast y (List.mem_cons_of_mem _ hy)
    refine ⟨next', hleads, ?_⟩
    have hlast : (((x :: front).getLast?.map (·.id)).or before) =
        ((front.getLast?.map (·.id)).or (some x.id)) := by
      rw [List.getLast?_cons]
      rcases front.getLast? with _ | y <;> rfl
    rw [hlast, ← hrun, List.length_cons, Nat.add_right_comm]
    simp only [unlinkFrom, hcell, hpast x List.mem_cons_self, Option.bind_eq_bind,
      Option.bind_some]
    rfl

theorem Holds.unlinkFrom_of_find?_eq_none (h : Holds slab t b) {i fuel : Nat} {test : κ → Bool}
    (hfind : (b.chain i).find? (fun x => test x.key) = none) (hfuel : (b.chain i).length ≤ fuel) :
    t.unlinkFrom slab i test fuel none (t.head i) = some (none, t, slab) := by
  obtain ⟨fuel, rfl⟩ := Nat.exists_eq_add_of_le hfuel
  have hpast : ∀ x ∈ b.chain i, test x.key = false := by
    simpa using hfind
  have hleads : Slab.Leads slab (t.head i) (b.chain i ++ []) := by
    rw [List.append_nil]
    exact h.leads i
  obtain ⟨next, rfl, hrun⟩ :=
    exists_unlinkFrom_rest t i fuel none hleads hpast
  rw [hrun]
  unfold Heads.unlinkFrom
  rfl

/-- A chain cut at the first binding that matches. The bindings before it have other handles,
so that its handle finds it too. -/
theorem exists_cut (hnodup : b.handles.Nodup) {i : Nat} {test : κ → Bool} {x : Binding κ ν}
    (hfind : (b.chain i).find? (fun x => test x.key) = some x) :
    ∃ front back, b.chain i = front ++ x :: back ∧ test x.key = true ∧
      (∀ y ∈ front, test y.key = false) ∧ x.id ∉ (front ++ back).map (·.id) ∧
      (b.chain i).eraseP (fun y => y.id = x.id) = front ++ back := by
  obtain ⟨htest, front, back, hc, hfront⟩ := List.find?_eq_some_iff_append.mp hfind
  have hn := Buckets.nodup_chain hnodup i
  rw [hc, List.map_append, List.map_cons] at hn
  obtain ⟨-, hnback, hapart⟩ := List.nodup_append.mp hn
  refine ⟨front, back, hc, htest, ?_, ?_, ?_⟩
  · intro y hy
    simpa using hfront y hy
  · rw [List.map_append, List.mem_append]
    rintro (hmem | hmem)
    · exact hapart _ hmem _ List.mem_cons_self rfl
    · exact (List.nodup_cons.mp hnback).1 hmem
  · have hothers : ∀ y ∈ front, ¬ decide (y.id = x.id) = true := by
      intro y hy he
      exact hapart _ (List.mem_map_of_mem hy) _ List.mem_cons_self (of_decide_eq_true he)
    rw [hc, List.eraseP_append_right _ hothers]
    simp

/-- **Taking an entry out.** The first entry that matches is led past, and its chain goes on
without it. It is then in no chain and may be given up. -/
theorem Holds.exists_unlinkFrom (h : Holds slab t b) (hb : b.Sound) (hnodup : b.handles.Nodup)
    {i fuel : Nat} {test : κ → Bool} {x : Binding κ ν}
    (hfind : (b.chain i).find? (fun x => test x.key) = some x)
    (hfuel : (b.chain i).length ≤ fuel) :
    ∃ t' slab', t.unlinkFrom slab i test fuel none (t.head i) = some (some x.id, t', slab') ∧
      Holds (Function.update slab' x.id none) t' (b.erase i x.id) ∧
      Slab.SameOff ((b.chain i).map (·.id)) slab slab' := by
  have hx : x ∈ b.chain i := List.mem_of_find?_eq_some hfind
  have hi : i < b.size := Buckets.lt_size_of_mem hx
  have hit : i < t.size := by rw [h.size]; exact hi
  obtain ⟨front, back, hc, htest, hpast, hgone, herase⟩ := exists_cut hnodup hfind
  have hn := Buckets.nodup_chain hnodup i
  have hcount : b.used ≠ 0 := by
    have hle := hb.length_chain_le i
    rw [hc] at hle
    simp only [List.length_append, List.length_cons] at hle
    omega
  have hleads := h.leads i
  rw [hc] at hn hleads
  obtain ⟨fuel, rfl⟩ : ∃ n, fuel = front.length + (n + 1) := by
    rw [hc, List.length_append, List.length_cons] at hfuel
    exact ⟨fuel - front.length - 1, by omega⟩
  obtain ⟨next, hrest, hrun⟩ :=
    exists_unlinkFrom_rest t i (fuel + 1) none hleads hpast
  -- here the search stands at the entry, and the one it remembers is the last in front
  obtain ⟨rfl, after, hcell, -⟩ := hrest
  obtain ⟨t', slab', hbridge, hbut, hused, hleads', hsame⟩ :=
    exists_bridge hit hleads hn hcell
  refine ⟨{ t' with used := t'.used - 1 }, slab', ?_, ?_, ?_⟩
  · have hdown : countDown t'.used = some (t'.used - 1) := by
      obtain ⟨n, hn⟩ := Nat.exists_eq_succ_of_ne_zero hcount
      rw [hused, h.used, hn]
      rfl
    rw [hrun, Option.or_none]
    simp only [unlinkFrom, hcell, htest, hbridge, hdown, Option.bind_eq_bind, Option.bind_some,
      if_true]
    rfl
  · refine h.of_bucket (i := i) ⟨hbut.size, hbut.mask, hbut.head⟩ ?_
      (Buckets.size_erase b i x.id) ?_ ?_ ?_
    · show t'.used - 1 = b.used - 1
      rw [hused, h.used]
    · intro j hj
      rw [Buckets.chain_erase, if_neg fun hij => hj hij.1.symm]
    · rw [Buckets.chain_erase, if_pos ⟨rfl, hi⟩, herase]
      exact hleads'.update hgone none
    · intro j hj y hy
      have hyfree := Buckets.id_notMem_of_chain hnodup (Ne.symm hj) hy
      rw [Function.update_of_ne, hsame.off]
      · rw [hc, List.map_append, List.mem_append, not_or] at hyfree
        exact hyfree.1
      · rintro he
        exact hyfree (he ▸ List.mem_map_of_mem hx)
  · refine hsame.mono ?_
    rw [hc, List.map_append]
    exact List.subset_append_left _ _

/-! ## Values -/

/-- Writing a value under the handle of an entry in a chain. -/
theorem Holds.write (h : Holds slab t b) (hnodup : b.handles.Nodup) {i : Nat} {x : Binding κ ν}
    (hx : x ∈ b.chain i) (f : Value ν → Value ν) :
    ∃ slab', Slab.write slab x.id f = some slab' ∧ Holds slab' t (b.modifyValue i x.id f) ∧
      Slab.SameOff [x.id] slab slab' := by
  obtain ⟨next, hcell⟩ := (h.leads i).exists_cell hx
  have hi : i < b.size := Buckets.lt_size_of_mem hx
  have hchain : ∀ j, (b.modifyValue i x.id f).chain j = if i = j ∧ i < b.size then
      (b.chain i).map (fun y => if y.id = x.id then { y with value := f y.value } else y)
        else b.chain j := fun j => Buckets.getD_modify b.chains i j _
  have halive : slab x.id ≠ none := by simp [hcell]
  refine ⟨Function.update slab x.id (some ⟨x.key, f x.value, next⟩), ?_, ?_,
    Slab.sameOff_update halive _⟩
  · rw [Slab.write, hcell]
    rfl
  · refine h.of_bucket (i := i) ⟨rfl, rfl, fun _ _ => rfl⟩ h.used
      (Buckets.size_modifyValue b i x.id f) ?_ ?_ ?_
    · intro j hj
      rw [hchain, if_neg fun hij => hj hij.1.symm]
    · rw [hchain, if_pos ⟨rfl, hi⟩]
      exact (h.leads i).write hcell f
    · intro j hj y hy
      rw [Function.update_of_ne]
      intro he
      exact Buckets.id_notMem_of_chain hnodup (Ne.symm hj) hy (he ▸ List.mem_map_of_mem hx)

/-- A chain in which values changed, and nothing else did anywhere. -/
theorem Holds.withChain (h : Holds slab t b) (hnodup : b.handles.Nodup) {i : Nat}
    {c : List (Binding κ ν)} (hlabels : c.map Binding.label = (b.chain i).map Binding.label)
    (hleads : Slab.Leads slab' (t.head i) c)
    (hsame : Slab.SameOff ((b.chain i).map (·.id)) slab slab') :
    Holds slab' t { b with chains := b.chains.modify i fun _ => c } := by
  have hsize := (Buckets.sameLabels_modify b i (fun _ => c) hlabels).size
  refine h.of_bucket (i := i) ⟨rfl, rfl, fun _ _ => rfl⟩ h.used hsize ?_ ?_ ?_
  · intro j hj
    rw [Buckets.chain_modify, if_neg fun hij => hj hij.1.symm]
  · rw [Buckets.chain_modify_self b i hlabels]
    exact hleads
  · intro j hj x hx
    exact hsame.off _ (Buckets.id_notMem_of_chain hnodup (Ne.symm hj) hx)

/-! ## Removing everything -/

theorem Holds.removeAll (h : Holds slab t b) (hb : b.Sound) (hnodup : b.handles.Nodup)
    {fuel : Nat} (hfuel : ∀ i, (b.chain i).length ≤ fuel) :
    ∃ slab', Slab.removeAll fuel t.buckets.toList t.used slab = some slab' ∧
      Slab.Without b.handles slab slab' := by
  have hsize : t.buckets.size = b.chains.size := h.size
  have hleads : List.Forall₂ (Slab.Leads slab) t.buckets.toList b.chains.toList := by
    refine List.forall₂_iff_get.mpr ⟨by simpa using hsize, ?_⟩
    intro i hi hi'
    have hit : i < t.buckets.size := by simpa using hi
    have hib : i < b.chains.size := by simpa using hi'
    have hhead : t.head i = t.buckets[i] := by
      rw [head, Array.getD, dif_pos hit]
      rfl
    have hlead := h.leads i
    rw [Buckets.chain_eq_getElem hib, hhead] at hlead
    simpa using hlead
  have hfuel' : ∀ c ∈ b.chains.toList, c.length ≤ fuel := by
    intro c hc
    obtain ⟨i, hi, rfl⟩ := List.getElem_of_mem hc
    have hib : i < b.chains.size := by simpa using hi
    have hle := hfuel i
    rw [Buckets.chain_eq_getElem hib] at hle
    simpa using hle
  have hused : t.used = b.chains.toList.flatten.length := by
    rw [h.used, hb.counted, Buckets.toList]
  rw [hused]
  exact Slab.removeAll_spec hleads hnodup hfuel'

end Heads

end TwinTable
