/-
What stays in its place while a safe walk is open.

As long as a dictionary counts an open walk it moves no entry. What an operation can do then
is little: put one new entry in front of a chain, take entries out, change values, allocate
an array. So the entries that were there before and still are stand in the buckets in which
they stood, and in the order in which they stood (`Stays`).

An operation that neither links nor takes out leaves all entries alone (`StandsAs`). Those
that do are made of one such change with nothing of account before and after it.
-/
import TwinTable.Proofs.Dictionary.Handles
import TwinTable.Proofs.Dictionary.History

set_option autoImplicit false

namespace TwinTable

namespace Dictionary

variable {κ ν : Type} {d d' d'' : Dictionary κ ν}

/-! ## Labels in their buckets -/

/-- The handles and keys in a bucket, in their order. -/
def labelsAt (d : Dictionary κ ν) (s : Side) (i : Nat) : List (Nat × κ) :=
  ((d.side s).chain i).map Binding.label

theorem labelsAt_congr (h : ∀ s, d'.side s = d.side s) (s : Side) (i : Nat) :
    d'.labelsAt s i = d.labelsAt s i := by
  rw [labelsAt, labelsAt, h]

/-- A handle is in use if it labels an entry of some bucket. -/
theorem mem_handles_iff_labelsAt {id : Nat} :
    id ∈ d.handles ↔ ∃ s i, ∃ x ∈ d.labelsAt s i, x.1 = id := by
  rw [handles, List.mem_map]
  constructor
  · rintro ⟨b, hb, rfl⟩
    obtain ⟨s, i, hi⟩ := mem_toList.mp hb
    exact ⟨s, i, b.label, List.mem_map_of_mem hi, rfl⟩
  · rintro ⟨s, i, x, hx, rfl⟩
    obtain ⟨b, hb, rfl⟩ := List.mem_map.mp hx
    exact ⟨b, mem_toList.mpr ⟨s, i, hb⟩, rfl⟩

theorem fst_mem_handles {s : Side} {i : Nat} {x : Nat × κ} (h : x ∈ d.labelsAt s i) :
    x.1 ∈ d.handles :=
  mem_handles_iff_labelsAt.mpr ⟨s, i, x, h, rfl⟩

/-- Handles in use were issued before. -/
theorem Shape.lt_of_mem_handles (hd : d.Shape) {id : Nat} (h : id ∈ d.handles) :
    id < d.nextId := by
  obtain ⟨b, hb, rfl⟩ := List.mem_map.mp h
  exact hd.issued b hb

/-! ## Entries that are left alone -/

/-- The entries stand as they stood. Values, sizes and the outbox may differ. -/
structure StandsAs (d d' : Dictionary κ ν) : Prop where
  nextId : d'.nextId = d.nextId
  labels : ∀ s i, d'.labelsAt s i = d.labelsAt s i
  /-- Some walk is still open. -/
  walks : d.walks ≠ 0 → d'.walks ≠ 0

namespace StandsAs

theorem refl (d : Dictionary κ ν) : StandsAs d d := ⟨rfl, fun _ _ => rfl, id⟩

theorem trans (h : StandsAs d d') (h' : StandsAs d' d'') : StandsAs d d'' :=
  ⟨h'.nextId.trans h.nextId, fun s i => (h'.labels s i).trans (h.labels s i),
    fun hw => h'.walks (h.walks hw)⟩

theorem mem_handles (h : StandsAs d d') {id : Nat} : id ∈ d'.handles ↔ id ∈ d.handles := by
  rw [mem_handles_iff_labelsAt, mem_handles_iff_labelsAt]
  simp only [h.labels]

end StandsAs

theorem standsAs_note (d : Dictionary κ ν) (n : Notice) : StandsAs d (d.note n) :=
  ⟨rfl, labelsAt_congr (side_note d n), id⟩

theorem standsAs_hand (d : Dictionary κ ν) (c : Custody κ ν) : StandsAs d (d.hand c) :=
  ⟨rfl, labelsAt_congr (side_hand d c), id⟩

theorem standsAs_handAll (cs : List (Custody κ ν)) : ∀ d : Dictionary κ ν,
    StandsAs d (d.handAll cs) := by
  induction cs with
  | nil => intro d; exact .refl d
  | cons c cs ih => intro d; exact (standsAs_hand d c).trans (ih _)

/-- Where only values of one array change, labels do not. -/
theorem standsAs_modifySide {s : Side} {f : Buckets κ ν → Buckets κ ν}
    (h : (d.side s).SameLabels (f (d.side s))) : StandsAs d (d.modifySide s f) := by
  refine ⟨by cases s <;> rfl, ?_, by cases s <;> exact id⟩
  intro s' i
  rw [labelsAt, labelsAt]
  by_cases hs : s' = s
  · rw [hs, side_modifySide_self]
    exact h.chain i
  · rw [side_modifySide_of_ne hs]

theorem standsAs_setAt (d : Dictionary κ ν) (p : Place) (f : Value ν → Value ν) :
    StandsAs d (d.setAt p f) :=
  standsAs_modifySide (Buckets.sameLabels_modifyValue _ _ _ _)

theorem standsAs_store (r : Rules κ ν) (d : Dictionary κ ν) (p : Place) (v : ν) :
    StandsAs d (d.store r p v) :=
  (standsAs_hand d _).trans (standsAs_setAt _ p _)

/-- Revising buckets changes values only, bucket by bucket. -/
theorem standsAs_reviseBuckets {τ : Type} (f : τ → κ → Value ν → Value ν × τ)
    (buckets : List Cursor.Bucket) : ∀ (before : List (List (Binding κ ν))) (s : τ)
      (d : Dictionary κ ν), StandsAs d (reviseBuckets f before buckets s d).2.2 := by
  induction buckets with
  | nil => intro before s d; exact .refl d
  | cons b buckets ih =>
    intro before s d
    rw [reviseBuckets]
    have hbucket : StandsAs d (d.modifySide b.1 fun t =>
        { t with chains := t.chains.modify b.2 fun _ => (reviseChain f s (d.chainAt b)).1 }) :=
      standsAs_modifySide (Buckets.sameLabels_modify _ _ _ (map_label_reviseChain f _ s))
    exact hbucket.trans (ih _ _ _)

/-- An array is allocated only where there was none, so that nothing gives way to it. -/
theorem standsAs_expand (hd : d.Shape) (size : Nat) : StandsAs d (d.expand size).2 := by
  rw [expand]
  by_cases hm : d.migrating = true
  · rw [if_pos hm]
    exact .refl d
  · have hsettled := hd.settled (migrating_eq_false.mp (by simpa using hm))
    rw [if_neg hm]
    dsimp only
    split_ifs with hrefused ha
    · exact .refl d
    · refine ⟨rfl, ?_, id⟩
      intro s i
      cases s with
      | main => rfl
      | target =>
        have hnone : d.labelsAt .target i = [] := by
          rw [labelsAt, side, hsettled, Buckets.chain_unallocated]
          rfl
        rw [hnone]
        exact congrArg (List.map Binding.label) (Buckets.chain_allocate _ _ i)
    · refine ⟨rfl, ?_, id⟩
      intro s i
      cases s with
      | target => rfl
      | main =>
        have hnone : d.labelsAt .main i = [] := by
          have hzero : d.main.size = 0 := by
            by_contra hne
            exact ha (isAllocated_eq_true.mpr hne)
          rw [labelsAt, side, Buckets.chain_eq_nil (by omega)]
          rfl
        rw [hnone]
        exact congrArg (List.map Binding.label) (Buckets.chain_allocate _ _ i)

/-- **The machinery leaves all entries alone** while a walk is open: nothing moves then. -/
theorem steady_standsAs (r : Rules κ ν) (d : Dictionary κ ν) :
    Steady r fun d' => d'.Shape ∧ d'.walks ≠ 0 ∧ StandsAs d d' where
  migrate := by
    rintro d' n ⟨hd, hw, h⟩
    have hself : (d'.migrate r n).2 = d' := by
      rcases hf : d'.frontier with _ | i
      · rw [migrate_of_frontier_none r hf]
      · rw [migrate_of_walks_pos r hf hw]
    rw [hself]
    exact ⟨hd, hw, h⟩
  expand := by
    rintro d' size ⟨hd, hw, h⟩
    have hexpand := standsAs_expand hd size
    have hshifts : Shifts r.hash d' (d'.expand size).2 := shifts_expand d' size
    exact ⟨hd.shifts hshifts, hexpand.walks hw, h.trans hexpand⟩
  note := by
    rintro d' n ⟨hd, hw, h⟩
    have hshifts : Shifts r.hash d' (d'.note n) := shifts_note d' n
    exact ⟨hd.shifts hshifts, hw, h.trans (standsAs_note d' n)⟩

/-! ## Entries that stay -/

/-- What an operation does while a walk is open: of the entries that were there before, those
that are left stand in their buckets in their order. -/
structure Stays (d d' : Dictionary κ ν) : Prop where
  issued : d.nextId ≤ d'.nextId
  order : ∀ s i, (d'.labelsAt s i).filter (·.1 < d.nextId) =
    (d.labelsAt s i).filter (·.1 ∈ d'.handles)
  /-- Either nothing is taken out, or nothing comes in. -/
  oneWay : d.handles ⊆ d'.handles ∨ d'.nextId = d.nextId
  walks : d.walks ≠ 0 → d'.walks ≠ 0

/-- Entries that are left alone stay, all of them: none is new, and none is gone. -/
theorem StandsAs.stays (h : StandsAs d d') (hd : d.Shape) : Stays d d' where
  issued := h.nextId.ge
  order s i := by
    have hold : ∀ x ∈ d.labelsAt s i, decide (x.1 < d.nextId) = true := fun x hx =>
      decide_eq_true (hd.lt_of_mem_handles (fst_mem_handles hx))
    have hleft : ∀ x ∈ d.labelsAt s i, decide (x.1 ∈ d'.handles) = true := fun x hx =>
      decide_eq_true (h.mem_handles.mpr (fst_mem_handles hx))
    rw [h.labels, List.filter_eq_self.mpr hold, List.filter_eq_self.mpr hleft]
  oneWay := .inr h.nextId
  walks := h.walks

/-- Nothing of account happens before the change. -/
theorem StandsAs.stays_trans (h : StandsAs d d') (h' : Stays d' d'') : Stays d d'' where
  issued := h.nextId ▸ h'.issued
  order s i := by rw [← h.nextId, h'.order, h.labels]
  oneWay := h'.oneWay.imp (fun hsub _ hid => hsub (h.mem_handles.mpr hid))
    fun he => he.trans h.nextId
  walks hw := h'.walks (h.walks hw)

/-- Nothing of account happens after the change. -/
theorem Stays.trans_standsAs (h : Stays d d') (h' : StandsAs d' d'') : Stays d d'' where
  issued := h'.nextId ▸ h.issued
  order s i := by
    rw [h'.labels, h.order]
    exact List.filter_congr fun x _ => decide_eq_decide.mpr h'.mem_handles.symm
  oneWay := h.oneWay.imp (fun hsub _ hid => h'.mem_handles.mpr (hsub hid)) h'.nextId.trans
  walks hw := h'.walks (h.walks hw)

/-- Linking puts one entry in front of one chain. -/
theorem stays_link (r : Rules κ ν) (hd : d.Shape) (k : κ) (hash : UInt64)
    (hroom : (d.side d.receiving).size ≠ 0) : Stays d (d.link r k hash).2 := by
  have hi := (hd.side d.receiving).index_lt hroom hash
  have hperm := (toList_link r hd k hash hroom).map (·.id)
  have hid : (d.link r k hash).2.nextId = d.nextId + 1 := by
    rw [link_eq]
    cases d.receiving <;> rfl
  have hsub : d.handles ⊆ (d.link r k hash).2.handles := fun id hmem =>
    hperm.mem_iff.mpr (List.mem_cons_of_mem _ hmem)
  have hlabels : ∀ s i, (d.link r k hash).2.labelsAt s i = d.labelsAt s i ∨
      (d.link r k hash).2.labelsAt s i = (d.blankFor r k).label :: d.labelsAt s i := by
    intro s i
    have hside : ({ d with nextId := d.nextId + 1 } : Dictionary κ ν).side s = d.side s := by
      cases s <;> rfl
    rw [link_eq, labelsAt]
    by_cases hs : s = d.receiving
    · subst hs
      rw [side_modifySide_self, side_hand, hside, Buckets.chain_push]
      split
      · rename_i h
        rw [labelsAt, ← h.1]
        exact .inr rfl
      · exact .inl rfl
    · rw [side_modifySide_of_ne hs, side_hand, hside]
      exact .inl rfl
  refine ⟨hid ▸ Nat.le_succ _, ?_, .inl hsub, ?_⟩
  · intro s i
    have hold : ∀ x ∈ d.labelsAt s i, decide (x.1 < d.nextId) = true := fun x hx =>
      decide_eq_true (hd.lt_of_mem_handles (fst_mem_handles hx))
    have hleft : ∀ x ∈ d.labelsAt s i,
        decide (x.1 ∈ (d.link r k hash).2.handles) = true := fun x hx =>
      decide_eq_true (hsub (fst_mem_handles hx))
    rw [List.filter_eq_self.mpr hleft]
    rcases hlabels s i with h | h
    · rw [h, List.filter_eq_self.mpr hold]
    · -- the handle of the new entry is the next one, so it is not among the old entries
      rw [h, List.filter_cons_of_neg (by simp [blankFor, Binding.label]),
        List.filter_eq_self.mpr hold]
  · rw [link_eq]
    cases d.receiving <;> exact id

/-- Where handles occur once, to erase one is to leave it out. -/
theorem eraseP_id_eq_filter {u : Nat} : ∀ {chain : List (Binding κ ν)},
    (chain.map (·.id)).Nodup → chain.eraseP (·.id = u) = chain.filter (·.id ≠ u) := by
  intro chain
  induction chain with
  | nil => intro _; rfl
  | cons x chain ih =>
    intro hnodup
    obtain ⟨hx, hnodup⟩ := List.nodup_cons.mp hnodup
    by_cases hu : x.id = u
    · rw [List.eraseP_cons_of_pos (by simp [hu]), List.filter_cons_of_neg (by simp [hu])]
      have hothers : ∀ b ∈ chain, b.id ≠ u := by
        intro b hb he
        exact hx (List.mem_map.mpr ⟨b, hb, he.trans hu.symm⟩)
      exact (List.filter_eq_self.mpr fun b hb => by simpa using hothers b hb).symm
    · rw [List.eraseP_cons_of_neg (by simp [hu]), List.filter_cons_of_pos (by simp [hu]),
        ih hnodup]

/-- Erasing leaves one entry out, wherever it was. -/
theorem labelsAt_erase (hd : d.Shape) {p : Place} {b : Binding κ ν} (h : d.entry? p = some b)
    (s : Side) (i : Nat) :
    (d.modifySide p.side fun t => t.erase p.index p.id).labelsAt s i =
      (d.labelsAt s i).filter (·.1 ≠ b.id) := by
  obtain ⟨hb, hid⟩ := mem_of_entryAt h
  have hfilter : (((d.side s).chain i).filter (·.id ≠ b.id)).map Binding.label =
      (d.labelsAt s i).filter (·.1 ≠ b.id) := by
    rw [labelsAt, List.filter_map]
    rfl
  rw [← hfilter, labelsAt]
  by_cases hplace : s = p.side ∧ i = p.index
  · obtain ⟨rfl, rfl⟩ := hplace
    rw [side_modifySide_self, Buckets.chain_erase,
      if_pos ⟨rfl, Buckets.lt_size_of_mem hb⟩, ← hid,
      eraseP_id_eq_filter (Buckets.nodup_chain (hd.nodup_side _) _)]
  · -- the entry is not in this bucket, and nothing happens to it
    have hself : ((d.side s).chain i).filter (·.id ≠ b.id) = (d.side s).chain i := by
      have hothers : ∀ x ∈ (d.side s).chain i, x.id ≠ b.id := fun x hx he =>
        hplace (hd.place_unique hx hb he)
      exact List.filter_eq_self.mpr fun x hx => by simpa using hothers x hx
    rw [hself]
    by_cases hs : s = p.side
    · subst hs
      rw [side_modifySide_self, Buckets.chain_erase, if_neg]
      rintro ⟨hi, -⟩
      exact hplace ⟨rfl, hi.symm⟩
    · rw [side_modifySide_of_ne hs]

/-- **Erasing** takes one entry out of its bucket, and the others close up in their order. -/
theorem stays_erase (hd : d.Shape) {p : Place} {b : Binding κ ν} (h : d.entry? p = some b) :
    Stays d (d.modifySide p.side fun t => t.erase p.index p.id) := by
  have hid : (d.modifySide p.side fun t => t.erase p.index p.id).nextId = d.nextId := by
    cases p.side <;> rfl
  have hperm := (toList_erase h).map (·.id)
  have hgone : b.id ∉ (d.modifySide p.side fun t => t.erase p.index p.id).handles :=
    (List.nodup_cons.mp (hperm.nodup_iff.mp hd.handles)).1
  refine ⟨hid.ge, ?_, .inr hid, by cases p.side <;> exact fun hw => hw⟩
  intro s i
  rw [labelsAt_erase hd h, List.filter_filter]
  refine List.filter_congr fun x hx => ?_
  have hmem := fst_mem_handles hx
  have hold := hd.lt_of_mem_handles hmem
  have hiff : x.1 ∈ (d.modifySide p.side fun t => t.erase p.index p.id).handles ↔
      x.1 ≠ b.id := by
    constructor
    · intro hin he
      exact hgone (he ▸ hin)
    · intro hne
      exact (List.mem_cons.mp (hperm.mem_iff.mp hmem)).resolve_left hne
  simp [hold, hiff]

/-- **Clearing** takes all entries out, also under an open walk, and so leaves none to be out of
order. -/
theorem stays_clear (d : Dictionary κ ν) : Stays d d.clear.2 := by
  obtain ⟨o, ho⟩ := d.clear_eq
  have hnone : d.clear.2.handles = [] := by
    rw [handles, toList_clear]
    rfl
  refine ⟨by rw [ho], ?_, .inr (by rw [ho]), by rw [ho]; exact id⟩
  intro s i
  have hempty : d.clear.2.labelsAt s i = [] := by
    rw [ho]
    cases s <;> rfl
  rw [hnone, hempty]
  exact (List.filter_eq_nil_iff.mpr fun x _ => by simp).symm

/-! ## Operations under an open walk -/

section Operations

variable (r : Rules κ ν)

/-- **A claim** may let the table grow, but nothing moves into the new array while a walk is open,
and the one entry that it may link is new. -/
theorem stays_claim (hd : d.Shape) (hw : d.walks ≠ 0) (k : κ) : Stays d (d.claim r k).2 := by
  have hP := steady_standsAs r d
  obtain ⟨hready, -, hstands⟩ := hP.growIfNeeded (hP.migrateStep ⟨hd, hw, .refl d⟩)
  have hroom := (shifts_ready (r := r) hd).2
  rw [claim]
  dsimp only
  split
  · exact hstands.stays hd
  · exact hstands.stays_trans (stays_link r hready k _ hroom)

theorem stays_add (hd : d.Shape) (hw : d.walks ≠ 0) (k : κ) (v : ν) :
    Stays d (d.add r k v).2 := by
  have h := stays_claim r hd hw k
  rw [add]
  revert h
  rcases d.claim r k with ⟨p | p, d'⟩
  · intro h
    exact h.trans_standsAs (standsAs_store r d' p v)
  · exact id

theorem stays_replace (hd : d.Shape) (hw : d.walks ≠ 0) (k : κ) (v : ν) :
    Stays d (d.replace r k v).2 := by
  have h := stays_claim r hd hw k
  rw [replace]
  revert h
  rcases d.claim r k with ⟨p | p, d'⟩
  · intro h
    exact h.trans_standsAs (standsAs_store r d' p v)
  · intro h
    have hstored := h.trans_standsAs (standsAs_store r d' p v)
    dsimp only
    rcases d'.entry? p with _ | old
    · exact hstored
    · exact hstored.trans_standsAs (standsAs_handAll _ _)

/-- **Unlinking** is a search, after which at most one entry is erased. -/
theorem stays_unlink (hd : d.Shape) (hw : d.walks ≠ 0) (k : κ) : Stays d (d.unlink r k).2 := by
  obtain ⟨hshape, -, hstands⟩ := (steady_standsAs r d).find k ⟨hd, hw, .refl d⟩
  rcases unlink_cases (r := r) d k with h | ⟨p, b, hb, h⟩
  · rw [h]
    exact hstands.stays hd
  · rw [h]
    exact hstands.stays_trans (stays_erase hshape hb)

theorem stays_delete (hd : d.Shape) (hw : d.walks ≠ 0) (k : κ) : Stays d (d.delete r k).2 := by
  have h := stays_unlink r hd hw k
  rw [delete]
  revert h
  rcases d.unlink r k with ⟨_ | b, d'⟩
  · exact id
  · intro h
    exact h.trans_standsAs (standsAs_handAll _ d')

end Operations

end Dictionary

/-- An operation that leaves an open walk of the dictionary open: it gives back no safe walk,
unless there is another one. -/
def Operation.Spares {κ ν : Type} (d : Dictionary κ ν) : Operation κ ν → Prop
  | .endWalk w => w.isSafe = true → 1 < d.walks
  | _ => True

namespace Situation

variable {κ ν σ : Type} (K : Keying κ ν) (g : WordSource σ)

open Dictionary

/-- **No operation moves an entry under an open walk.** -/
theorem stays_perform {s : Situation κ ν σ} (hs : s.dictionary.Shape)
    (hw : s.dictionary.walks ≠ 0) {op : Operation κ ν} (hop : op.Spares s.dictionary) :
    Stays s.dictionary (s.perform K g op).2.dictionary := by
  have hself : Stays s.dictionary s.dictionary := (StandsAs.refl _).stays hs
  have hP := steady_standsAs (s.rules K) s.dictionary
  have hopen := And.intro hs (And.intro hw (StandsAs.refl s.dictionary))
  cases op with
  | add k v => exact stays_add _ hs hw k v
  | claim k set => exact (stays_claim _ hs hw k).trans_standsAs (standsAs_setAt _ _ _)
  | replace k v => exact stays_replace _ hs hw k v
  | find k set =>
    have hfind := hP.find k hopen
    rw [perform]
    revert hfind
    rcases s.dictionary.find (s.rules K) k with ⟨_ | p, d⟩
    · intro hfind
      exact hfind.2.2.stays hs
    · intro hfind
      exact (hfind.2.2.trans (standsAs_setAt d p set)).stays hs
  | unlink k => exact stays_unlink _ hs hw k
  | delete k => exact stays_delete _ hs hw k
  | discard b => exact (standsAs_handAll _ _).stays hs
  | clear => exact stays_clear _
  | expand size => exact (hP.expand size hopen).2.2.stays hs
  | resizeTo size => exact (hP.resizeTo size hopen).2.2.stays hs
  | shrinkToFit => exact (hP.resizeTo _ hopen).2.2.stays hs
  | migrate n => exact (hP.migrate n hopen).2.2.stays hs
  | migrateFor rounds => exact (hP.migrateFor rounds hopen).2.2.stays hs
  | allowResizing allowed => exact (standsAs_note _ _).stays hs
  | pick => exact (hP.pick g s.words hopen).2.2.stays hs
  | pickFairly => exact (hP.pickFairly g s.words hopen).2.2.stays hs
  | sample count => exact (hP.sample g count s.words hopen).2.2.stays hs
  | scan cursor => exact hself
  | scanRevising f start cursor => exact (standsAs_reviseBuckets f _ _ _ _).stays hs
  | walk => exact hself
  | safeWalk =>
    have h : StandsAs s.dictionary s.dictionary.safeWalk.2 :=
      ⟨rfl, labelsAt_congr fun s => by cases s <;> rfl, fun _ => Nat.succ_ne_zero _⟩
    exact h.stays hs
  | advance w => exact hself
  | endWalk w =>
    refine StandsAs.stays ?_ hs
    change StandsAs _ (s.dictionary.endWalk w).2
    rw [endWalk]
    split_ifs with hsafe
    · have hmore : 1 < s.dictionary.walks := hop hsafe
      refine ⟨rfl, labelsAt_congr fun s => by cases s <;> rfl, fun _ => ?_⟩
      exact Nat.sub_ne_zero_of_lt hmore
    · exact .refl _
    · exact .refl _

end Situation

end TwinTable
