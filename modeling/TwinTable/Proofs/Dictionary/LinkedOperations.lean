/-
Every operation on links does what the operation on lists does.

An operation changes one array, or the values in it, at one place. So its proof has three
parts that are always the same (`Represents.withSide`): what that array holds, by the lemma
on its loop; that the entries of the other array stayed as they were, since the two have no
handle in common; and which handles are alive now. With that, and with the runs of moves, a
whole history on links goes through without failing, next to the history on lists
(`Linked.after_yields`).
-/
import TwinTable.Proofs.Dictionary.Representation

set_option autoImplicit false

namespace TwinTable

namespace Dictionary

variable {κ ν : Type} {d : Dictionary κ ν}

/-- Only values change, so the handles stay. -/
theorem handles_modifySide {s : Side} {f : Buckets κ ν → Buckets κ ν}
    (h : (d.side s).SameLabels (f (d.side s))) : (d.modifySide s f).handles = d.handles := by
  cases s with
  | main => exact id_toList h (.refl _)
  | target => exact id_toList (.refl _) h

end Dictionary

namespace Linked

variable {κ ν : Type} {l : Linked κ ν} {d : Dictionary κ ν} {st : Settings} (K : Keying κ ν)

/-- **One array at a time.** -/
theorem Represents.withSide (h : Represents st l d) {s : Side} {f : Buckets κ ν → Buckets κ ν}
    {t : Heads} {slab : Slab κ ν} (hs : Heads.Holds slab t (f (d.side s)))
    (hother : ∀ s', s' ≠ s → ∀ id ∈ (d.side s').handles, slab id = l.slab id)
    (halive : ∀ id, slab id = none ↔ id ∉ (d.modifySide s f).handles) :
    Represents st (l.withSide s t slab) (d.modifySide s f) := by
  cases s with
  | main =>
    have htarget := h.target.congr fun x hx =>
      hother .target (by simp) x.id (List.mem_map_of_mem hx)
    exact ⟨hs, htarget, halive, h.frontier, h.walks, h.issued, h.settings⟩
  | target =>
    have hmain := h.main.congr fun x hx =>
      hother .main (by simp) x.id (List.mem_map_of_mem hx)
    exact ⟨hmain, hs, halive, h.frontier, h.walks, h.issued, h.settings⟩

/-- Putting an array back changes the slab only. -/
theorem withSide_self (l : Linked κ ν) (s : Side) (slab : Slab κ ν) :
    l.withSide s (l.side s) slab = { l with slab := slab } := by
  cases s <;> rfl

/-- Handles of one array are none of the other's, so what differs under them at most leaves
the other as it was. -/
theorem sameOff_other (hd : d.Shape) {s : Side} {ids : List Nat} {slab slab' : Slab κ ν}
    (hs : Slab.SameOff ids slab slab') (hids : ∀ id ∈ ids, id ∈ (d.side s).handles) :
    ∀ s', s' ≠ s → ∀ id ∈ (d.side s').handles, slab' id = slab id := by
  intro s' hne id hid
  apply hs.off
  intro hmem
  exact hd.notMem_other hne hid (hids id hmem)

/-! ## Searching -/

/-- **A search along the links of a chain** ends, with the handle of the binding that a search
of the list finds. No chain has more entries than handles were issued, which is the bound that
the loop runs under. -/
theorem Represents.lookupIn (h : Represents st l d) (hd : d.Shape) (s : Side) (k : κ)
    (hash : UInt64) :
    l.lookupIn K s k hash = some ((d.lookupIn ⟨K, st⟩ s k hash).map (·.id)) := by
  have hfuel := h.length_chain_le hd s ((d.side s).index hash)
  unfold Linked.lookupIn
  rw [(h.side s).index_eq, ((h.side s).leads _).search (K.same k) hfuel, Dictionary.lookupIn,
    Option.map_map]
  rfl

/-- The search over both arrays leaves out the same buckets on either level. -/
theorem Represents.lookup (h : Represents st l d) (hd : d.Shape) (k : κ) (hash : UInt64) :
    l.lookup K k hash = some ((d.lookup ⟨K, st⟩ k hash).map (·.id)) := by
  have hmain := h.lookupIn K hd .main k hash
  have htarget := h.lookupIn K hd .target k hash
  unfold Linked.lookup Dictionary.lookup
  rw [h.main.index_eq, h.hasMoved_eq, h.migrating_eq, hmain, htarget]
  by_cases hmoved : d.hasMoved (d.main.index hash) = true
  · rw [if_pos hmoved, if_pos hmoved]
    dsimp only [Option.bind_some]
    split <;> rfl
  · rw [if_neg hmoved, if_neg hmoved]
    rcases d.lookupIn ⟨K, st⟩ .main k hash with _ | p
    · dsimp only [Option.map_none, Option.bind_some]
      split <;> rfl
    · rfl

/-! ## Adding -/

/-- The new entry goes to the front of its chain, under a handle that nothing had. -/
theorem Represents.link (h : Represents st l d) (hd : d.Shape) (k : κ) (hash : UInt64)
    (hroom : (d.side d.receiving).size ≠ 0) :
    Yields st (l.insert K k hash) (d.link ⟨K, st⟩ k hash).2 := by
  have hs : l.receiving = d.receiving := by
    rw [Linked.receiving, h.migrating_eq]
    rfl
  have hnew : d.nextId ∉ d.handles := by
    intro hmem
    obtain ⟨b, hb, he⟩ := List.mem_map.mp hmem
    exact Nat.lt_irrefl _ (he ▸ hd.issued b hb)
  -- a handle that is given out now was never given out before, so nothing lives under it
  have hold : ∀ id ∈ d.handles, id ≠ l.issued := by
    rintro id hid rfl
    exact hnew (h.issued ▸ hid)
  let cell : Cell κ ν := ⟨K.copyKey k, .blank, none⟩
  have hside : Heads.Holds (Function.update l.slab l.issued (some cell))
      (l.side d.receiving) (d.side d.receiving) := by
    apply (h.side d.receiving).congr
    intro x hx
    rw [Function.update_of_ne]
    exact hold _ (Dictionary.mem_handles_of_side (List.mem_map_of_mem hx))
  have hi := (hd.side d.receiving).index_lt hroom hash
  have hcell : Function.update l.slab l.issued (some cell) (d.blankFor ⟨K, st⟩ k).id =
      some ⟨(d.blankFor ⟨K, st⟩ k).key, (d.blankFor ⟨K, st⟩ k).value, none⟩ := by
    show Function.update l.slab l.issued (some cell) d.nextId = _
    rw [← h.issued, Function.update_self]
    rfl
  obtain ⟨t, slab, hpush, hheld, hsame⟩ := hside.exists_pushFront hi hcell
    fun hmem => hnew (Dictionary.mem_handles_of_side hmem)
  refine ⟨{ l.withSide d.receiving t slab with issued := l.issued + 1 }, ?_, ?_⟩
  · have hid : (d.blankFor ⟨K, st⟩ k).id = l.issued := h.issued.symm
    rw [hid] at hpush
    unfold Linked.insert
    rw [hs, (h.side d.receiving).index_eq, hpush]
    rfl
  · have hnext : Represents st { l with issued := l.issued + 1 }
        ({ d with nextId := d.nextId + 1 }.hand (.keyCopied (K.copyKey k))) :=
      ⟨h.main, h.target, h.alive, h.frontier, h.walks, congrArg (· + 1) h.issued, h.settings⟩
    have hcomm : ({ l.withSide d.receiving t slab with issued := l.issued + 1 } : Linked κ ν) =
        { l with issued := l.issued + 1 }.withSide d.receiving t slab := by
      cases d.receiving <;> rfl
    rw [hcomm, Dictionary.link_eq]
    refine hnext.withSide (f := fun t => t.push _ (d.blankFor ⟨K, st⟩ k)) ?_ ?_ ?_
    · rw [Dictionary.side_hand]
      exact hheld
    · intro s' _ id hid
      have hid' : id ∈ d.handles := by
        rw [Dictionary.side_hand] at hid
        exact Dictionary.mem_handles_of_side (s := s') (by cases s' <;> exact hid)
      rw [hsame.off id, Function.update_of_ne (hold id hid')]
      rw [List.mem_singleton]
      rintro rfl
      exact hnew hid'
    · intro id
      have hperm := (Dictionary.toList_link ⟨K, st⟩ hd k hash hroom).map (·.id)
      rw [Dictionary.link_eq] at hperm
      refine (hsame.alive id).trans (Iff.trans ?_ (not_congr hperm.mem_iff).symm)
      rw [List.map_cons, List.mem_cons, not_or]
      show _ ↔ ¬ id = d.nextId ∧ id ∉ d.handles
      rw [← h.issued, ← h.alive id]
      by_cases hid : id = l.issued
      · subst hid
        simp
      · simp [hid]

/-- Finding or making the entry of a key, with the handle that it has. -/
theorem Represents.claim (h : Represents st l d) (hd : d.Shape) (k : κ) :
    ∃ l', l.claim K k = some (((d.claim ⟨K, st⟩ k).1.isFresh, (d.claim ⟨K, st⟩ k).1.place.id), l') ∧
      Represents st l' (d.claim ⟨K, st⟩ k).2 := by
  obtain ⟨hready, hroom⟩ := Dictionary.shifts_ready (r := ⟨K, st⟩) hd
  have hgrown := hd.shifts hready
  obtain ⟨l₁, hl₁, h₁⟩ := h.migrateStep K hd
  have h₂ := h₁.growIfNeeded K (hd.shifts (Dictionary.shifts_migrateStep (r := ⟨K, st⟩) hd))
  have hsearch := h₂.lookup K hgrown k ((Rules.mk K st).hash k)
  rw [Dictionary.claim, Linked.claim, hl₁]
  simp only [Option.bind_eq_bind, Option.bind_some, h₂.hash_eq, hsearch]
  -- both levels search the same chains, and so either both find the key or both link it
  rcases hfound : Dictionary.lookup ⟨K, st⟩ ((d.migrateStep ⟨K, st⟩).growIfNeeded ⟨K, st⟩) k
    ((Rules.mk K st).hash k) with _ | p
  · obtain ⟨l₃, hl₃, h₃⟩ := h₂.link K hgrown k ((Rules.mk K st).hash k) hroom
    refine ⟨l₃, ?_, h₃⟩
    dsimp only [Option.map_none]
    rw [hl₃, h₂.issued]
    rfl
  · exact ⟨_, rfl, h₂⟩

/-- Writing to the entry at a place. -/
theorem Represents.setAt (h : Represents st l d) (hd : d.Shape) {p : Place} {b : Binding κ ν}
    (hp : d.entry? p = some b) (f : Value ν → Value ν) :
    Yields st (l.write p.id f) (d.setAt p f) := by
  obtain ⟨hb, hid⟩ := Dictionary.mem_of_entryAt hp
  obtain ⟨slab, hwrite, hheld, hsame⟩ :=
    (h.side p.side).write (hd.nodup_side p.side) hb f
  have hhandles : (d.setAt p f).handles = d.handles :=
    Dictionary.handles_modifySide (Buckets.sameLabels_modifyValue _ _ _ _)
  rw [hid] at hwrite hheld
  refine ⟨l.withSide p.side (l.side p.side) slab, ?_, ?_⟩
  · rw [Linked.write, hwrite, withSide_self]
    rfl
  · apply h.withSide hheld
    · refine sameOff_other hd hsame ?_
      intro id hmem
      rw [List.mem_singleton.mp hmem]
      exact Buckets.mem_handles_of_chain hb
    · intro id
      refine (hsame.alive id).trans ((h.alive id).trans ?_)
      show _ ↔ id ∉ (d.setAt p f).handles
      rw [hhandles]

/-- Storing an object is writing it. Links know nothing of the copy that is handed over. -/
theorem Represents.store (h : Represents st l d) (hd : d.Shape) {p : Place} {b : Binding κ ν}
    (hp : d.entry? p = some b) (v : ν) :
    Yields st (l.write p.id fun _ => .object (K.copyValue v)) (d.store ⟨K, st⟩ p v) := by
  have hhand : Dictionary.Shifts (Rules.mk K st).hash d _ :=
    Dictionary.shifts_hand d (.valueCopied (K.copyValue v))
  refine (h.hand _).setAt (hd.shifts hhand) (b := b) ?_ _
  unfold Dictionary.entry?
  rw [Dictionary.side_hand]
  exact hp

/-- A claim leaves an entry at its place, so there is something to write to. -/
theorem Represents.claimAndWrite (h : Represents st l d) (hd : d.Shape) (k : κ)
    (set : Bool → Value ν → Value ν) :
    Yields st (l.claimAndWrite K k set) (Dictionary.setAt (d.claim ⟨K, st⟩ k).2
      (d.claim ⟨K, st⟩ k).1.place (set (d.claim ⟨K, st⟩ k).1.isFresh)) := by
  obtain ⟨b, hb⟩ := Dictionary.exists_entry?_claim ⟨K, st⟩ hd k
  obtain ⟨l', hl', h'⟩ := h.claim K hd k
  rw [Linked.claimAndWrite, hl']
  exact h'.setAt (hd.changes (Dictionary.changes_claim hd k)) hb _

/-- **Adding**: a claim that found the key is left at that, and any other is written to. -/
theorem Represents.add (h : Represents st l d) (hd : d.Shape) (k : κ) (v : ν) :
    Yields st (l.add K k v) (d.add ⟨K, st⟩ k v).2 := by
  obtain ⟨b, hb⟩ := Dictionary.exists_entry?_claim ⟨K, st⟩ hd k
  obtain ⟨l', hl', h'⟩ := h.claim K hd k
  have hshape := hd.changes (Dictionary.changes_claim (r := ⟨K, st⟩) hd k)
  rw [Linked.add, hl', Dictionary.add]
  revert hb h' hshape
  rcases d.claim ⟨K, st⟩ k with ⟨p | p, d'⟩
  · intro hb h' hshape
    exact h'.store K hshape hb v
  · intro _ h' _
    exact h'.yields

/-- **Replacing**: what the claim found or made is written to. -/
theorem Represents.replace (h : Represents st l d) (hd : d.Shape) (k : κ) (v : ν) :
    Yields st (l.claimAndWrite K k fun _ _ => .object (K.copyValue v))
      (d.replace ⟨K, st⟩ k v).2 := by
  obtain ⟨b, hb⟩ := Dictionary.exists_entry?_claim ⟨K, st⟩ hd k
  obtain ⟨l', hl', h'⟩ := h.claim K hd k
  have hshape := hd.changes (Dictionary.changes_claim (r := ⟨K, st⟩) hd k)
  rw [Linked.claimAndWrite, hl', Dictionary.replace]
  revert hb h' hshape
  rcases d.claim ⟨K, st⟩ k with ⟨p | p, d'⟩
  · intro hb h' hshape
    exact h'.store K hshape hb v
  · intro hb h' hshape
    dsimp only [Claim.place] at hb ⊢
    rw [hb]
    obtain ⟨l'', hl'', h''⟩ := h'.store K hshape hb v
    exact ⟨l'', hl'', h''.handAll _⟩

/-- **Finding**: a search in an empty table comes back at once, and any other moves a bucket
along first, on both levels. -/
theorem Represents.find (h : Represents st l d) (hd : d.Shape) (k : κ)
    (set : Value ν → Value ν) :
    Yields st (l.findAndWrite K k set) (match d.find ⟨K, st⟩ k with
      | (none, d) => d
      | (some p, d) => d.setAt p set) := by
  unfold Linked.findAndWrite Dictionary.find
  rw [h.isEmpty_eq]
  by_cases hempty : d.isEmpty = true
  · rw [if_pos hempty, if_pos hempty]
    exact h.yields
  · rw [if_neg hempty, if_neg hempty]
    obtain ⟨l', hl', h'⟩ := h.migrateStep K hd
    have hshape := hd.shifts (Dictionary.shifts_migrateStep (r := ⟨K, st⟩) hd)
    have hsearch := h'.lookup K hshape k ((Rules.mk K st).hash k)
    rw [hl']
    simp only [Option.bind_eq_bind, Option.bind_some, h'.hash_eq, hsearch]
    rcases hfound : Dictionary.lookup ⟨K, st⟩ (d.migrateStep ⟨K, st⟩) k
      ((Rules.mk K st).hash k) with _ | p
    · exact h'.yields
    · obtain ⟨b, hb⟩ := Dictionary.exists_entry?_of_lookup _ hfound
      exact h'.setAt hshape hb set

/-! ## Removing -/

/-- Going along a chain in vain changes nothing. -/
theorem Represents.unlinkIn_eq_none (h : Represents st l d) (hd : d.Shape) {s : Side} {k : κ}
    {hash : UInt64} (hfound : d.lookupIn ⟨K, st⟩ s k hash = none) :
    l.unlinkIn K s k hash = some (none, l) := by
  have hfind := Option.map_eq_none_iff.mp hfound
  have hfuel := h.length_chain_le hd s ((d.side s).index hash)
  have hrun := (h.side s).unlinkFrom_of_find?_eq_none hfind hfuel
  have hself : l.withSide s (l.side s) l.slab = l := withSide_self l s l.slab
  unfold Linked.unlinkIn
  rw [(h.side s).index_eq]
  show Option.bind (Heads.unlinkFrom _ _ _ _ _ _ _) _ = _
  rw [hrun]
  exact congrArg (fun l => some (none, l)) hself

/-- An entry that was taken out of its chain is still alive, and once it is given up the
links are those of the array without it. -/
theorem Represents.exists_unlinkIn (h : Represents st l d) (hd : d.Shape) {s : Side} {k : κ}
    {hash : UInt64} {p : Place} (hfound : d.lookupIn ⟨K, st⟩ s k hash = some p) :
    ∃ l', l.unlinkIn K s k hash = some (some p.id, l') ∧
      Represents st { l' with slab := Function.update l'.slab p.id none }
        (d.modifySide p.side fun t => t.erase p.index p.id) := by
  rw [Dictionary.lookupIn, Option.map_eq_some_iff] at hfound
  obtain ⟨b, hb, rfl⟩ := hfound
  have hmem : b ∈ (d.side s).chain ((d.side s).index hash) := List.mem_of_find?_eq_some hb
  have hfuel := h.length_chain_le hd s ((d.side s).index hash)
  obtain ⟨t, slab, hrun, hheld, hsame⟩ :=
    (h.side s).exists_unlinkFrom (hd.side s) (hd.nodup_side s) hb hfuel
  refine ⟨l.withSide s t slab, ?_, ?_⟩
  · unfold Linked.unlinkIn
    rw [(h.side s).index_eq, hrun]
    rfl
  · have hcomm : ({ l.withSide s t slab with
        slab := Function.update (l.withSide s t slab).slab b.id none } : Linked κ ν) =
        l.withSide s t (Function.update slab b.id none) := by
      cases s <;> rfl
    dsimp only
    rw [hcomm]
    have hb' : b.id ∈ (d.side s).handles := Buckets.mem_handles_of_chain hmem
    apply h.withSide hheld
    · intro s' hne id hid
      have hnot := hd.notMem_other hne hid
      rw [Function.update_of_ne]
      · refine sameOff_other hd hsame ?_ s' hne id hid
        intro x hx
        obtain ⟨y, hy, rfl⟩ := List.mem_map.mp hx
        exact Buckets.mem_handles_of_chain hy
      · rintro rfl
        exact hnot hb'
    · -- the handle that was given up was there once, and is not there any more
      have hentry := Dictionary.entryAt_of_mem hd hmem
      have hperm := (Dictionary.toList_erase hentry).map (·.id)
      have hnodup := (hperm.nodup_iff).mp hd.handles
      rw [List.map_cons, List.nodup_cons] at hnodup
      intro id
      by_cases hid : id = b.id
      · subst hid
        rw [Function.update_self]
        exact ⟨fun _ => hnodup.1, fun _ => rfl⟩
      · rw [Function.update_of_ne hid]
        refine (hsame.alive id).trans ((h.alive id).trans (not_congr ?_))
        refine hperm.mem_iff.trans ?_
        rw [List.map_cons, List.mem_cons, or_iff_right hid]
        rfl

/-- **A key that is not there** is looked for in one array or in both, and nothing changes. -/
theorem Represents.unlinkKey_eq_none (h : Represents st l d) (hd : d.Shape) {k : κ}
    {hash : UInt64} (hfound : d.lookup ⟨K, st⟩ k hash = none) :
    l.unlinkKey K k hash = some (none, l) := by
  -- what is left to do once nothing was found in the main array
  have htarget : (if d.migrating then d.lookupIn ⟨K, st⟩ .target k hash else none) = none →
      (if l.migrating then l.unlinkIn K .target k hash else some (none, l)) = some (none, l) := by
    rw [h.migrating_eq]
    intro hnone
    split
    · rename_i hm
      rw [if_pos hm] at hnone
      exact h.unlinkIn_eq_none K hd hnone
    · rfl
  rw [Dictionary.lookup] at hfound
  rw [Linked.unlinkKey, h.main.index_eq, h.hasMoved_eq]
  by_cases hmoved : d.hasMoved (d.main.index hash) = true
  · rw [if_pos hmoved] at hfound ⊢
    exact htarget hfound
  · rw [if_neg hmoved] at hfound ⊢
    rcases hmain : d.lookupIn ⟨K, st⟩ .main k hash with _ | p
    · rw [hmain] at hfound
      rw [h.unlinkIn_eq_none K hd hmain]
      exact htarget hfound
    · rw [hmain] at hfound
      exact absurd hfound (by simp)

/-- **A key that is there** is taken out of the array in which a search finds it. -/
theorem Represents.exists_unlinkKey (h : Represents st l d) (hd : d.Shape) {k : κ}
    {hash : UInt64} {p : Place} (hfound : d.lookup ⟨K, st⟩ k hash = some p) :
    ∃ l', l.unlinkKey K k hash = some (some p.id, l') ∧
      Represents st { l' with slab := Function.update l'.slab p.id none }
        (d.modifySide p.side fun t => t.erase p.index p.id) := by
  -- what is left to do once nothing was found in the main array
  have htarget : (if d.migrating then d.lookupIn ⟨K, st⟩ .target k hash else none) = some p →
      ∃ l', (if l.migrating then l.unlinkIn K .target k hash else some (none, l)) =
          some (some p.id, l') ∧
        Represents st { l' with slab := Function.update l'.slab p.id none }
          (d.modifySide p.side fun t => t.erase p.index p.id) := by
    rw [h.migrating_eq]
    intro hsome
    split
    · rename_i hm
      rw [if_pos hm] at hsome
      exact h.exists_unlinkIn K hd hsome
    · rename_i hm
      rw [if_neg hm] at hsome
      exact absurd hsome (by simp)
  rw [Dictionary.lookup] at hfound
  rw [Linked.unlinkKey, h.main.index_eq, h.hasMoved_eq]
  by_cases hmoved : d.hasMoved (d.main.index hash) = true
  · rw [if_pos hmoved] at hfound ⊢
    exact htarget hfound
  · rw [if_neg hmoved] at hfound ⊢
    rcases hmain : d.lookupIn ⟨K, st⟩ .main k hash with _ | q
    · rw [hmain] at hfound
      rw [h.unlinkIn_eq_none K hd hmain]
      exact htarget hfound
    · rw [hmain] at hfound
      obtain rfl : q = p := by simpa using hfound
      obtain ⟨l', hl', h'⟩ := h.exists_unlinkIn K hd hmain
      exact ⟨l', by rw [hl']; rfl, h'⟩

/-- **Unlinking.** The entry that was taken out is given up in the same step, so that no handle
outlives its entry. -/
theorem Represents.unlink (h : Represents st l d) (hd : d.Shape) (k : κ) :
    Yields st (l.unlink K k) (d.unlink ⟨K, st⟩ k).2 := by
  unfold Linked.unlink Dictionary.unlink Dictionary.find
  rw [h.isEmpty_eq]
  by_cases hempty : d.isEmpty = true
  · rw [if_pos hempty, if_pos hempty]
    exact h.yields
  · rw [if_neg hempty, if_neg hempty]
    obtain ⟨l', hl', h'⟩ := h.migrateStep K hd
    have hshape := hd.shifts (Dictionary.shifts_migrateStep (r := ⟨K, st⟩) hd)
    rw [hl']
    simp only [Option.bind_eq_bind, Option.bind_some, h'.hash_eq]
    rcases hfound : Dictionary.lookup ⟨K, st⟩ (d.migrateStep ⟨K, st⟩) k
      ((Rules.mk K st).hash k) with _ | p
    · rw [h'.unlinkKey_eq_none K hshape hfound]
      exact h'.yields
    · obtain ⟨l'', hl'', h''⟩ := h'.exists_unlinkKey K hshape hfound
      rw [hl'']
      exact h''.yields

/-- To the arrays a deletion is an unlinking; the rest goes into the outbox. -/
theorem snd_delete (r : Rules κ ν) (d : Dictionary κ ν) (k : κ) :
    ∃ cs, (d.delete r k).2 = (d.unlink r k).2.handAll cs := by
  unfold Dictionary.delete
  rcases d.unlink r k with ⟨_ | b, d'⟩
  · exact ⟨[], rfl⟩
  · exact ⟨b.freed, rfl⟩

/-! ## Removing everything -/

/-- **Clearing an array** follows each of its chains to the end and gives up every entry on it.
The handles of the other array are none of these, and so its entries stay. -/
theorem Represents.clearSide (h : Represents st l d) {s : Side} (hs : (d.side s).Sound)
    (hside : (d.side s).handles.Nodup)
    (hother : ∀ s', s' ≠ s → ∀ id ∈ (d.side s').handles, id ∉ (d.side s).handles)
    (hfuel : ∀ i, ((d.side s).chain i).length ≤ d.nextId) :
    Yields st (l.clearSide s) (d.clearSide s).2 := by
  rw [← h.issued] at hfuel
  obtain ⟨slab, hrun, hwithout⟩ := (h.side s).removeAll hs hside hfuel
  refine ⟨l.withSide s .unallocated slab, ?_, ?_⟩
  · rw [Linked.clearSide, hrun]
    rfl
  · obtain ⟨o, ho⟩ := d.clearSide_eq s
    rw [ho]
    apply Represents.of_outbox
    apply h.withSide Heads.holds_unallocated
    · intro s' hne id hid
      exact hwithout.off id (hother s' hne id hid)
    · intro id
      rw [Dictionary.mem_handles]
      -- a handle is either of the array that goes, or of the other, which keeps its own
      by_cases hid : id ∈ (d.side s).handles
      · refine ⟨?_, fun _ => hwithout.gone id hid⟩
        rintro - ⟨s', hs'⟩
        by_cases hne : s' = s
        · subst hne
          rw [Dictionary.side_modifySide_self] at hs'
          exact List.not_mem_nil hs'
        · rw [Dictionary.side_modifySide_of_ne hne] at hs'
          exact hother s' hne id hs' hid
      · rw [hwithout.off id hid, h.alive id, Dictionary.mem_handles, not_iff_not]
        constructor
        · rintro ⟨s', hs'⟩
          have hne : s' ≠ s := fun he => hid (he ▸ hs')
          exact ⟨s', by rwa [Dictionary.side_modifySide_of_ne hne]⟩
        · rintro ⟨s', hs'⟩
          by_cases hne : s' = s
          · subst hne
            rw [Dictionary.side_modifySide_self] at hs'
            exact absurd hs' List.not_mem_nil
          · rw [Dictionary.side_modifySide_of_ne hne] at hs'
            exact ⟨s', hs'⟩

/-- Clearing takes one array after the other. In between the layout is not sound, as there may
be a frontier and no main array; but the target is what it was. -/
theorem Represents.clear (h : Represents st l d) (hd : d.Shape) :
    Yields st l.clear d.clear.2 := by
  obtain ⟨l₁, hl₁, h₁⟩ := h.clearSide (hd.side .main) (hd.nodup_side .main)
    (fun s' hne id hid => hd.notMem_other hne hid) (hd.length_chain_le .main)
  obtain ⟨o, ho⟩ := d.clearSide_eq .main
  have htarget : (d.clearSide .main).2.side .target = d.target := by rw [ho]; rfl
  have hmain : (d.clearSide .main).2.side .main = .unallocated := by rw [ho]; rfl
  have hnext : (d.clearSide .main).2.nextId = d.nextId := by rw [ho]; rfl
  obtain ⟨l₂, hl₂, h₂⟩ := h₁.clearSide (s := .target) (htarget ▸ hd.target)
    (htarget ▸ hd.nodup_side .target) (by
      intro s' hne id hid
      cases s' with
      | main =>
        rw [hmain] at hid
        exact absurd hid List.not_mem_nil
      | target => exact absurd rfl hne) (by
      rw [htarget, hnext]
      exact hd.length_chain_le .target)
  refine ⟨{ l₂ with frontier := none }, ?_, ?_⟩
  · rw [Linked.clear, hl₁]
    simp only [Option.bind_eq_bind, Option.bind_some]
    rw [hl₂]
    rfl
  · exact ⟨h₂.main, h₂.target, h₂.alive, rfl, h₂.walks, h₂.issued, h₂.settings⟩

/-! ## Scans -/

/-- A cursor covers the same buckets: which these are depends on the sizes of the arrays, on
whether there are entries, and on whether they are on the move. -/
theorem Represents.covered_eq (h : Represents st l d) (cursor : UInt64) :
    l.covered cursor = (d.cover cursor).1 := by
  have hsizes : l.main.size = d.main.size ∧ l.target.size = d.target.size :=
    ⟨h.main.size, h.target.size⟩
  unfold Linked.covered Dictionary.cover Dictionary.layout?
  rw [h.isEmpty_eq, h.migrating_eq, h.main.mask, h.target.mask, hsizes.1, hsizes.2]
  split_ifs <;> rfl

/-- **A chain in which values changed** is that of its bucket from then on. -/
theorem Represents.withChain (h : Represents st l d) (hd : d.Shape) (b : Cursor.Bucket)
    {c : List (Binding κ ν)} {slab : Slab κ ν}
    (hlabels : c.map Binding.label = (d.chainAt b).map Binding.label)
    (hleads : Slab.Leads slab ((l.side b.1).head b.2) c)
    (hsame : Slab.SameOff ((d.chainAt b).map (·.id)) l.slab slab) :
    Represents st { l with slab := slab }
      (d.modifySide b.1 fun t => { t with chains := t.chains.modify b.2 fun _ => c }) := by
  let put : Buckets κ ν → Buckets κ ν := fun t =>
    { t with chains := t.chains.modify b.2 fun _ => c }
  have hhandles : (d.modifySide b.1 put).handles = d.handles :=
    Dictionary.handles_modifySide (Buckets.sameLabels_modify _ _ _ hlabels)
  rw [← withSide_self l b.1 slab]
  apply h.withSide ((h.side b.1).withChain (hd.nodup_side b.1) hlabels hleads hsame)
  · refine sameOff_other hd hsame ?_
    intro id hid
    obtain ⟨x, hx, rfl⟩ := List.mem_map.mp hid
    exact Buckets.mem_handles_of_chain hx
  · intro id
    exact (hsame.alive id).trans ((h.alive id).trans (hhandles ▸ Iff.rfl))

/-- **Revising buckets** writes along one chain after another. A binding keeps its label, so the
chains to come are led to as before. -/
theorem Represents.reviseBuckets (r : Rules κ ν) {τ : Type} (f : τ → κ → Value ν → Value ν × τ)
    {buckets : List Cursor.Bucket} : ∀ {before : List (List (Binding κ ν))} {s : τ}
      {l : Linked κ ν} {d : Dictionary κ ν}, Represents st l d → d.Shape →
      Yields st (l.reviseBuckets f buckets s)
        (Dictionary.reviseBuckets f before buckets s d).2.2 := by
  induction buckets with
  | nil => intro before s l d h _; exact h.yields
  | cons b buckets ih =>
    intro before s l d h hd
    obtain ⟨slab, hrun, hleads, hsame⟩ := ((h.side b.1).leads b.2).reviseFrom f (s := s)
      (h.length_chain_le hd b.1 b.2) (Buckets.nodup_chain (hd.nodup_side b.1) b.2)
    have h' := h.withChain hd b (Dictionary.map_label_reviseChain f _ s) hleads hsame
    have hchange := Dictionary.gain_reviseBucket (r := r) f s d b
    rw [Linked.reviseBuckets, Dictionary.reviseBuckets, hrun]
    exact ih h' (hd.change hchange.change)

/-! ## Histories -/

/-- **Links follow lists** in any one operation: it does not fail on links, and what it leaves
represents what it leaves on lists. Entries that are picked, scanned or walked to are read and
not changed, so of those operations only the moves in front of them matter. -/
theorem Represents.perform {σ : Type} (g : WordSource σ) {s : Situation κ ν σ}
    (h : Represents s.settings l s.dictionary) (hd : s.dictionary.Shape)
    (op : Operation κ ν) :
    Yields (s.perform K g op).2.settings (l.perform K op) (s.perform K g op).2.dictionary := by
  cases op with
  | add k v => exact h.add K hd k v
  | claim k set => exact h.claimAndWrite K hd k set
  | replace k v => exact h.replace K hd k v
  | find k set =>
    have hfind := h.find K hd k set
    rw [Situation.perform]
    show Yields _ (l.findAndWrite K k set) _
    revert hfind
    show Yields _ _ (match s.dictionary.find (s.rules K) k with
      | (none, d) => d
      | (some p, d) => d.setAt p set) → _
    rcases s.dictionary.find (s.rules K) k with ⟨_ | p, d⟩ <;> exact id
  | unlink k => exact h.unlink K hd k
  | delete k =>
    obtain ⟨cs, hcs⟩ := snd_delete (s.rules K) s.dictionary k
    obtain ⟨l', hl', h'⟩ := h.unlink K hd k
    refine ⟨l', hl', ?_⟩
    show Represents s.settings l' (s.dictionary.delete (s.rules K) k).2
    rw [hcs]
    exact h'.handAll cs
  | discard b => exact (h.handAll b.freed).yields
  | clear => exact h.clear hd
  | expand size => exact (h.expand hd size).yields
  | resizeTo size => exact (h.resizeTo K hd size).yields
  | shrinkToFit =>
    show Yields _ (some (l.resizeTo (max l.main.used Buckets.leastSize))) _
    rw [h.main.used]
    exact (h.resizeTo K hd _).yields
  | migrate n => exact h.migrate K hd n
  | migrateFor rounds => exact h.migrateFor K hd rounds
  | allowResizing allowed =>
    refine Represents.yields ?_
    apply Represents.note
    exact ⟨h.main, h.target, h.alive, h.frontier, h.walks, h.issued,
      congrArg (fun settings : Settings => { settings with resizing := allowed }) h.settings⟩
  | pick =>
    show Yields _ (if l.isEmpty then some l else l.migrateStep K)
      (s.dictionary.pick g (s.rules K) s.words).2.2
    rw [h.isEmpty_eq, Dictionary.pick]
    split
    · exact h.yields
    · dsimp only
      split <;> exact h.migrateStep K hd
  | pickFairly =>
    show Yields _ (if l.isEmpty then some l else l.migrateStep K)
      (s.dictionary.pickFairly g (s.rules K) s.words).2.2
    rw [h.isEmpty_eq, Dictionary.pickFairly]
    split
    · exact h.yields
    · dsimp only
      split <;> exact h.migrateStep K hd
  | sample count =>
    show Yields _ (if min count (l.main.used + l.target.used) = 0 then some l
      else l.migrateSteps K (min count (l.main.used + l.target.used)))
      (s.dictionary.sample g (s.rules K) count s.words).2.2
    rw [h.main.used, h.target.used, Dictionary.sample]
    show Yields _ (if min count s.dictionary.size = 0 then _ else _) _
    dsimp only
    split
    · exact h.yields
    · exact h.migrateSteps K hd
  | scan cursor => exact h.yields
  | scanRevising f start cursor =>
    show Yields _ (l.reviseBuckets f (l.covered cursor) start) _
    rw [h.covered_eq]
    exact h.reviseBuckets (s.rules K) f hd
  | walk => exact h.yields
  | safeWalk =>
    exact ⟨_, rfl, h.main, h.target, h.alive, h.frontier, congrArg (· + 1) h.walks, h.issued,
      h.settings⟩
  | advance w => exact h.yields
  | endWalk w =>
    show Yields _ (some (if w.isSafe then { l with walks := l.walks - 1 } else l))
      (s.dictionary.endWalk w).2
    rw [Dictionary.endWalk]
    by_cases hw : w.isSafe = true
    · rw [if_pos hw, if_pos hw]
      apply Represents.yields
      exact ⟨h.main, h.target, h.alive, h.frontier, congrArg (· - 1) h.walks, h.issued,
        h.settings⟩
    · rw [if_neg hw, if_neg hw]
      split <;> exact h.yields

/-- **Links follow lists**, operation after operation. -/
theorem Represents.after {σ : Type} (g : WordSource σ) : ∀ (ops : List (Operation κ ν))
    {s : Situation κ ν σ} {l : Linked κ ν}, Represents s.settings l s.dictionary →
      s.dictionary.Shape →
      Yields (s.after K g ops).settings (l.after K ops) (s.after K g ops).dictionary := by
  intro ops
  induction ops with
  | nil => intro s l h _; exact h.yields
  | cons op ops ih =>
    intro s l h hd
    rw [Situation.after_cons, Linked.after, List.foldlM_cons]
    obtain ⟨l', hl', h'⟩ := h.perform K g hd op
    rw [hl']
    exact ih h' (hd.changes (Situation.changes_perform K g hd op))

end Linked

end TwinTable
