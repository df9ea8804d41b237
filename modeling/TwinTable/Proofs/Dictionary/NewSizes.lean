/-
A new size on request: when it is refused, and what it leads to when it is not.

The answer depends on four questions that are asked in order: whether resizing is allowed,
whether entries are moving, whether there are more of them than the size asked for, and whether
the table has that size already. A refusal at any of them leaves the dictionary as it was, and
without a refusal an array of that size is made.

What becomes of this array is told by its number. No number is given out twice, so while other
things happen it is the target, or the main array, or it is gone (`Dictionary.Keeps`). As a
target it is the one that entries move to, and it becomes the main array when they all have; its
size never changes. That the entries are then the same as before can be seen from the last handle
given out and from how many entries there are, since an insertion takes a new handle and a
removal makes them fewer (`Dictionary.Since`). So no operation has to be looked at: it is enough
that each is a row of changes.
-/
import TwinTable.Proofs.Dictionary.Filing
import TwinTable.Proofs.Dictionary.HeldLayout

set_option autoImplicit false

namespace TwinTable

variable {κ ν : Type}

/-! ## The size that is made -/

/-- The size that is made for so many entries is the least power of two that is large enough. -/
theorem Buckets.isLeast_sizeFor {size : Nat} (h : size ≤ 2 ^ 63) :
    IsLeast {m | (∃ n, m = 2 ^ n) ∧ max size leastSize ≤ m} (sizeFor size) := by
  obtain ⟨j, hj, he, hle, hlt⟩ := doubleUntil_eq size 61 leastSize
  have hsize : sizeFor size = 2 ^ (j + 2) := by
    rw [sizeFor, he, leastSize]
    ring
  have hfour : leastSize = 2 ^ 2 := rfl
  refine ⟨⟨⟨j + 2, hsize⟩, ?_⟩, ?_⟩
  · have hleast : leastSize ≤ 2 ^ (j + 2) := hfour ▸ Nat.pow_le_pow_right (by omega) (by omega)
    have henough := le_sizeFor h
    omega
  · rintro m ⟨⟨n, rfl⟩, hm⟩
    rw [hsize]
    refine Nat.pow_le_pow_right (by omega) ?_
    by_contra hless
    have h2 : 2 ≤ n := (Nat.pow_le_pow_iff_right (by omega)).mp (hfour ▸ (le_max_right _ _).trans hm)
    -- so many doublings were made since fewer were not enough
    have hbefore := hlt (n - 2) (by omega)
    have hsame : leastSize * 2 ^ (n - 2) = 2 ^ n := by
      rw [hfour, ← pow_add, Nat.add_sub_cancel' h2]
    have hmax := (le_max_left size leastSize).trans hm
    omega

namespace Dictionary

variable {d e e' : Dictionary κ ν}

/-! ## Refusals -/

/-- While nothing moves, the main array is all there is. -/
theorem Shape.size_of_settled (hd : d.Shape) (hf : d.frontier = none) :
    d.size = d.main.used ∧ d.slots = d.main.size := by
  rw [size, slots, hd.settled hf]
  exact ⟨rfl, rfl⟩

/-- A size that does not do: there are more entries, or the table has it already. -/
def Unfit (d : Dictionary κ ν) (size : Nat) : Prop :=
  size < d.size ∨ Buckets.sizeFor size = d.slots

theorem expand_of_migrating (h : d.migrating = true) (size : Nat) :
    d.expand size = (.error .migrating, d) := by
  rw [expand]
  dsimp only
  rw [if_pos h]

/-- The second question is the one that the code asks of the main array alone. -/
theorem Shape.unfit_iff (hd : d.Shape) (hf : d.frontier = none) (size : Nat) :
    (d.main.used > size || Buckets.sizeFor size = d.main.size) = true ↔ d.Unfit size := by
  obtain ⟨hsize, hslots⟩ := hd.size_of_settled hf
  rw [Unfit, hsize, hslots, Bool.or_eq_true, decide_eq_true_eq, decide_eq_true_eq]

theorem expand_of_unfit (hd : d.Shape) (hf : d.frontier = none) {size : Nat}
    (h : d.Unfit size) : d.expand size = (.error (.invalidSize size d.size), d) := by
  have hsettled : ¬ d.migrating = true := by simp [migrating, hf]
  rw [expand]
  dsimp only
  rw [if_neg hsettled, if_pos ((hd.unfit_iff hf size).mpr h), (hd.size_of_settled hf).1]

/-- The first array is in use at once. -/
theorem expand_of_fit_first (hd : d.Shape) (hf : d.frontier = none) (hm : d.main.size = 0)
    {size : Nat} (h : ¬ d.Unfit size) :
    d.expand size = (.ok (), { d with
      main := .allocate d.nextArray (Buckets.sizeFor size)
      nextArray := d.nextArray + 1 }.note (.firstTable (Buckets.sizeFor size))) := by
  have hsettled : ¬ d.migrating = true := by simp [migrating, hf]
  have hnone : ¬ d.main.isAllocated = true := fun ha => isAllocated_eq_true.mp ha hm
  rw [expand]
  dsimp only
  rw [if_neg hsettled, if_neg (fun hu => h ((hd.unfit_iff hf size).mp hu)), if_neg hnone]

/-- Any other is moved to, and nothing has moved yet. -/
theorem expand_of_fit (hd : d.Shape) (hf : d.frontier = none) (hm : d.main.size ≠ 0)
    {size : Nat} (h : ¬ d.Unfit size) :
    d.expand size = (.ok (), { d with
      target := .allocate d.nextArray (Buckets.sizeFor size)
      frontier := some 0
      nextArray := d.nextArray + 1 }.note
        (.migrationStarted d.main.size (Buckets.sizeFor size) d.main.used)) := by
  have hsettled : ¬ d.migrating = true := by simp [migrating, hf]
  rw [expand]
  dsimp only
  rw [if_neg hsettled, if_neg (fun hu => h ((hd.unfit_iff hf size).mp hu)),
    if_pos (isAllocated_eq_true.mpr hm)]

/-- **The answers to a request for a size**, each for one reason. -/
theorem expand_answers (hd : d.Shape) (size : Nat) :
    ((d.expand size).1 = .error .migrating ↔ d.migrating = true) ∧
    ((d.expand size).1 = .error (.invalidSize size d.size) ↔
      d.migrating = false ∧ d.Unfit size) ∧
    ((d.expand size).1 = .ok () ↔ d.migrating = false ∧ ¬ d.Unfit size) ∧
    ∀ fault, (d.expand size).1 = .error fault → (d.expand size).2 = d ∧ fault ≠ .resizeDisabled := by
  by_cases hm : d.migrating = true
  · rw [expand_of_migrating hm]
    simp [hm]
  · have hf : d.frontier = none := migrating_eq_false.mp (by simpa using hm)
    by_cases hu : d.Unfit size
    · rw [expand_of_unfit hd hf hu]
      simp [hm, hu]
    · by_cases hfirst : d.main.size = 0
      · rw [expand_of_fit_first hd hf hfirst hu]
        simp [hm, hu]
      · rw [expand_of_fit hd hf hfirst hu]
        simp [hm, hu]

/-- The question that is asked first is asked of `resizeTo` alone. -/
theorem resizeTo_answers (r : Rules κ ν) (hd : d.Shape) (size : Nat) :
    ((d.resizeTo r size).1 = .error .resizeDisabled ↔ r.settings.resizing = false) ∧
    (r.settings.resizing = true → d.resizeTo r size = d.expand size) ∧
    ∀ fault, (d.resizeTo r size).1 = .error fault → (d.resizeTo r size).2 = d := by
  have hfault := (expand_answers hd size).2.2.2
  rw [resizeTo]
  by_cases hon : r.settings.resizing = true
  · rw [if_pos hon, hon]
    exact ⟨⟨fun he => absurd rfl (hfault _ he).2, fun he => absurd he (by simp)⟩, fun _ => rfl,
      fun fault he => (hfault fault he).1⟩
  · rw [if_neg hon]
    exact ⟨⟨fun _ => by simpa using hon, fun _ => rfl⟩, fun h => absurd h hon, fun _ _ => rfl⟩

/-- What is asked for to shrink depends on what the main array counts. While entries move that is
not all of them, but then the size is of no account. -/
theorem shrinkToFit_eq (r : Rules κ ν) (hd : d.Shape) :
    d.shrinkToFit r = d.resizeTo r (max d.size Buckets.leastSize) := by
  rw [shrinkToFit]
  by_cases hm : d.migrating = true
  · rw [resizeTo, resizeTo, expand_of_migrating hm, expand_of_migrating hm]
  · rw [(hd.size_of_settled (migrating_eq_false.mp (by simpa using hm))).1]

/-- What is not refused has become a new size. -/
theorem resizeTo_of_ok {r : Rules κ ν} {size : Nat} (h : (d.resizeTo r size).1 = .ok ()) :
    d.resizeTo r size = d.expand size := by
  rw [resizeTo] at h ⊢
  split
  · rfl
  · rename_i hoff
    rw [if_neg hoff] at h
    exact absurd h (by simp)

/-! ## What a change does to the two arrays -/

/-- A change as it looks from outside the arrays. -/
inductive Turn (e e' : Dictionary κ ν) : Prop
  /-- Both arrays are the same ones as before, and entries move if they did. -/
  | stay (main : e.main.Same e'.main) (target : e.target.Same e'.target)
      (frontier : e'.frontier = none ↔ e.frontier = none) (made : e'.nextArray = e.nextArray)
  /-- The target has become the main array. -/
  | arrive (main : e.target.Same e'.main) (target : e'.target = .unallocated)
      (before : e.frontier ≠ none) (frontier : e'.frontier = none)
      (made : e'.nextArray = e.nextArray)
  /-- An array was made, to be the first one or a target. -/
  | make (main : e'.main = e.main ∨ e'.main.identity = e.nextArray)
      (target : e'.target = e.target ∨ e'.target.identity = e.nextArray)
      (made : e'.nextArray = e.nextArray + 1)
  /-- Both are gone. -/
  | clear (main : e'.main = .unallocated) (target : e'.target = .unallocated)
      (frontier : e'.frontier = none) (made : e'.nextArray = e.nextArray)

theorem Shift.turn {hash : κ → UInt64} (h : Shift hash e e') : Turn e e' := by
  cases h with
  | aside hm ht hf _ ha =>
    refine .stay ?_ ?_ (by rw [hf]) ha
    · rw [hm]
      exact .refl _
    · rw [ht]
      exact .refl _
  | pass _ hf => exact .stay (.refl _) (.refl _) (by simp [hf]) rfl
  | move _ hf =>
    exact .stay (Buckets.same_clearBucket _ _) (Passage.same_moveChain _ _ _) (by simp [hf]) rfl
  | moveLast _ hf => exact .arrive (Passage.same_moveChain _ _ _) rfl (by simp [hf]) rfl rfl
  | land _ hf => exact .arrive (.refl _) rfl (by simp [hf]) rfl rfl
  | first => exact .make (.inr rfl) (.inl rfl) rfl
  | begin => exact .make (.inl rfl) (.inr rfl) rfl

/-- One of the arrays changes in place. -/
theorem turn_modifySide (e : Dictionary κ ν) {s : Side} {f : Buckets κ ν → Buckets κ ν}
    (h : (e.side s).Same (f (e.side s))) : Turn e (e.modifySide s f) := by
  cases s with
  | main => exact .stay h (.refl _) Iff.rfl rfl
  | target => exact .stay (.refl _) h Iff.rfl rfl

theorem Change.turn {r : Rules κ ν} (h : Change r e e') : Turn e e' := by
  cases h with
  | shift h => exact h.turn
  | link =>
    rw [link_eq]
    rcases e.receiving with _ | _
    · exact .stay (Buckets.same_push _ _ _) (.refl _) Iff.rfl rfl
    · exact .stay (.refl _) (Buckets.same_push _ _ _) Iff.rfl rfl
  | erase => exact turn_modifySide e (Buckets.same_erase _ _ _)
  | revise hm ht hf _ ha => exact .stay hm.same ht.same (by rw [hf]) ha
  | clear =>
    obtain ⟨o, ho⟩ := e.clear_eq
    rw [ho]
    exact .clear rfl rfl rfl rfl

/-- The numbers of both arrays were given out. -/
structure Numbered (e : Dictionary κ ν) : Prop where
  main : e.main.identity < e.nextArray
  target : e.target.identity < e.nextArray

theorem Numbered.turn (h : e.Numbered) (hturn : Turn e e') : e'.Numbered := by
  have hmain := h.main
  have htarget := h.target
  rcases hturn with ⟨hm, ht, -, ha⟩ | ⟨hm, ht, -, -, ha⟩ | ⟨hm, ht, ha⟩ | ⟨hm, ht, -, ha⟩
  · exact ⟨by rw [hm.identity, ha]; exact hmain, by rw [ht.identity, ha]; exact htarget⟩
  · refine ⟨by rw [hm.identity, ha]; exact htarget, ?_⟩
    rw [ht, ha]
    exact Nat.zero_lt_of_lt hmain
  · refine ⟨?_, ?_⟩
    · rcases hm with he | he <;> rw [he] <;> omega
    · rcases ht with he | he <;> rw [he] <;> omega
  · have hpos : 0 < e'.nextArray := ha ▸ Nat.zero_lt_of_lt hmain
    exact ⟨hm ▸ hpos, ht ▸ hpos⟩

/-! ## What becomes of an array -/

/-- What can have become of the array with number `x`, which was made with `size` buckets: as
long as it is there, it has that many. And until another array is made, it is the one that
entries move to, or the main array, unless all was cleared. -/
structure Keeps (x size : Nat) (e : Dictionary κ ν) : Prop where
  made : x < e.nextArray
  main : e.main.identity = x → e.main.size = size
  target : e.target.identity = x → e.target.size = size
  only : e.nextArray = x + 1 → e.frontier ≠ none ∧ e.target.identity = x ∨
    e.frontier = none ∧ (e.main.identity = x ∨ e.main.size = 0)

theorem Keeps.turn {x size : Nat} (hx : x ≠ 0) (h : e.Keeps x size) (hturn : Turn e e') :
    e'.Keeps x size := by
  have hmade := h.made
  rcases hturn with ⟨hm, ht, hf, ha⟩ | ⟨hm, ht, hb, hf, ha⟩ | ⟨hm, ht, ha⟩ | ⟨hm, ht, hf, ha⟩
  · refine ⟨by omega, ?_, ?_, ?_⟩
    · rw [hm.identity, hm.size]
      exact h.main
    · rw [ht.identity, ht.size]
      exact h.target
    · rw [Ne, hf, ha, hm.identity, hm.size, ht.identity]
      exact h.only
  · -- the target has the other place, and its number with it
    have hzero : e'.target.identity ≠ x := by
      rw [ht]
      exact hx.symm
    refine ⟨by omega, ?_, fun he => absurd he hzero, ?_⟩
    · rw [hm.identity, hm.size]
      exact h.target
    · intro honly
      rcases h.only (ha ▸ honly) with ⟨-, hid⟩ | ⟨hnone, -⟩
      · exact .inr ⟨hf, .inl (hm.identity.trans hid)⟩
      · exact absurd hnone hb
  · refine ⟨by omega, ?_, ?_, fun honly => absurd honly (by omega)⟩
    · rcases hm with he | he
      · rw [he]
        exact h.main
      · exact fun hid => absurd (he.symm.trans hid) (by omega)
    · rcases ht with he | he
      · rw [he]
        exact h.target
      · exact fun hid => absurd (he.symm.trans hid) (by omega)
  · have hzero : (Buckets.unallocated : Buckets κ ν).identity ≠ x := hx.symm
    refine ⟨by omega, ?_, ?_, fun _ => .inr ⟨hf, .inr ?_⟩⟩
    · rw [hm]
      exact fun he => absurd he hzero
    · rw [ht]
      exact fun he => absurd he hzero
    · rw [hm]
      rfl

/-! ## What becomes of the entries -/

/-- What can be said of the entries some time later: if no handle was given out since, there
are no more of them, and if there are as many, they are the same. -/
structure Since (t e : Dictionary κ ν) : Prop where
  issued : t.nextId ≤ e.nextId
  fewer : e.nextId = t.nextId → e.toList.length ≤ t.toList.length
  same : e.nextId = t.nextId → e.toList.length = t.toList.length →
    (e.toList.map Binding.label).Perm (t.toList.map Binding.label)

variable {t : Dictionary κ ν}

theorem Since.refl (t : Dictionary κ ν) : Since t t :=
  ⟨le_refl _, fun _ => le_refl _, fun _ _ => .refl _⟩

/-- Entries that change their places and values are still the same ones. -/
theorem Since.of_perm (h : Since t e)
    (hp : (e'.toList.map Binding.label).Perm (e.toList.map Binding.label))
    (hid : e'.nextId = e.nextId) : Since t e' := by
  have hlen := hp.length_eq
  rw [List.length_map, List.length_map] at hlen
  refine ⟨hid.symm ▸ h.issued, ?_, ?_⟩
  · rw [hid, hlen]
    exact h.fewer
  · rw [hid, hlen]
    exact fun he hl => hp.trans (h.same he hl)

/-- **A change** keeps the entries, or takes a new handle, or makes them fewer. -/
theorem Since.change {r : Rules κ ν} (he : e.Shape) (h : Since t e) (hc : Change r e e') :
    Since t e' := by
  have hissued := h.issued
  cases hc with
  | shift hs => exact h.of_perm ((hs.toList_perm he).map _) hs.nextId
  | revise hm ht _ hid _ =>
    refine h.of_perm ?_ hid
    rw [label_toList hm ht]
  | @link k =>
    have hid : (e.link r k (r.hash k)).2.nextId = e.nextId + 1 := by
      rw [link_eq]
      rcases e.receiving <;> rfl
    exact ⟨by omega, fun hsame => absurd hsame (by omega), fun hsame => absurd hsame (by omega)⟩
  | @erase p b hfound =>
    have hlen := (toList_erase hfound).length_eq
    rw [List.length_cons] at hlen
    have hid : (e.modifySide p.side fun t => t.erase p.index p.id).nextId = e.nextId := by
      rcases p.side <;> rfl
    refine ⟨by omega, fun hsame => ?_, fun hsame hl => ?_⟩
    · have hfewer := h.fewer (hid ▸ hsame)
      omega
    · have hfewer := h.fewer (hid ▸ hsame)
      omega
  | clear =>
    obtain ⟨o, ho⟩ := e.clear_eq
    have hid : e.clear.2.nextId = e.nextId := by rw [ho]
    refine ⟨by omega, fun _ => ?_, fun _ hl => ?_⟩
    · rw [toList_clear]
      exact Nat.zero_le _
    · rw [toList_clear] at hl ⊢
      rw [List.eq_nil_of_length_eq_zero hl.symm]

/-! ### Rows of changes -/

section Changes

variable {r : Rules κ ν}

theorem Numbered.changes (h : e.Numbered) (hc : Changes r e e') : e'.Numbered := by
  induction hc with
  | refl => exact h
  | tail _ hstep ih => exact ih.turn hstep.turn

theorem Keeps.changes {x size : Nat} (hx : x ≠ 0) (h : e.Keeps x size) (hc : Changes r e e') :
    e'.Keeps x size := by
  induction hc with
  | refl => exact h
  | tail _ hstep ih => exact ih.turn hx hstep.turn

theorem Since.changes (he : e.Shape) (h : Since t e) (hc : Changes r e e') : Since t e' := by
  induction hc with
  | refl => exact h
  | tail hrun hstep ih => exact ih.change (he.changes hrun) hstep

end Changes

/-! ### Entries are found -/

/-- **What is there is found**, also while entries move. -/
theorem Sound.fetch_of_mem {r : Rules κ ν} (hK : r.keying.Lawful)
    (hd : d.Sound r.keying r.settings.seed) {b : Binding κ ν} (hb : b ∈ d.toList) :
    (d.fetch r b.key).1 = some b := by
  have hshifts := shifts_migrateStep (r := r) hd.shape
  have hstep := hd.of_shifts hK hshifts
  have hthere : b ∈ (d.migrateStep r).toList :=
    (hshifts.toList_perm hd.shape).1.mem_iff.mpr hb
  have hne : ¬ d.isEmpty = true := by
    rw [isEmpty, decide_eq_true_iff, hd.shape.size_eq, List.length_eq_zero_iff]
    exact List.ne_nil_of_mem hb
  have hself := hK.same_self b.key
  rw [fetch, find, if_neg hne]
  dsimp only
  rcases hfound : (d.migrateStep r).lookup r b.key (r.hash b.key) with _ | p
  · rw [hstep.same_eq_false_of_lookup hK hfound hthere] at hself
    exact absurd hself (by simp)
  · obtain ⟨x, hx, hentry, hsame⟩ := Sound.exists_mem_of_lookup hstep.shape hfound
    have heq : x = b := hK.eq_of_same Binding.key hstep.apart hx hthere hsame hself
    rw [← heq]
    exact hentry

end Dictionary

namespace Situation

variable {σ τ : Type} (K : Keying κ ν) (g : WordSource σ)

open Dictionary

theorem numbered_after (settings : Settings) (words : σ) (ops : List (Operation κ ν)) :
    ((start settings words).after K g ops).dictionary.Numbered :=
  (after_induction K g (P := fun s => s.dictionary.Numbered)
    (fun _ op hs h => h.changes (changes_perform K g hs op)) ops _ shape_empty
    ⟨Nat.zero_lt_one, Nat.zero_lt_one⟩).1

/-- What becomes of the target of a situation, if nothing is inserted and nothing removed: once
it is the main array, and no entries move, the table has so many buckets and all entries are in
it; and if no other size is begun, it is the main array as soon as no entries move, unless the
table was cleared. -/
def ArrivesAt (s : Situation κ ν σ) (size : Nat) : Prop :=
  ∀ ops : List (Operation κ ν),
    let e := (s.after K g ops).dictionary
    e.nextId = s.dictionary.nextId → e.size = s.dictionary.size →
      (e.main.identity = s.dictionary.target.identity → e.main.size = size ∧
        (e.migrating = false → e.slots = size ∧
          (e.main.toList.map Binding.label).Perm (s.dictionary.toList.map Binding.label))) ∧
      (e.nextArray = s.dictionary.nextArray → e.migrating = false → e.main.size ≠ 0 →
        e.main.identity = s.dictionary.target.identity)

/-- **A target arrives** with the size that it was made with. -/
theorem arrivesAt {s : Situation κ ν σ} (hs : s.dictionary.Shape) {size : Nat}
    (hkeeps : s.dictionary.Keeps s.dictionary.target.identity size)
    (hx : s.dictionary.target.identity ≠ 0)
    (hmade : s.dictionary.nextArray = s.dictionary.target.identity + 1) :
    ArrivesAt K g s size := by
  intro ops e hid hsize
  obtain ⟨⟨hafter, hsince⟩, he⟩ := after_induction K g
    (P := fun t => t.dictionary.Keeps s.dictionary.target.identity size ∧
      Since s.dictionary t.dictionary)
    (fun t op ht h => ⟨h.1.changes hx (changes_perform K g ht op),
      h.2.changes ht (changes_perform K g ht op)⟩) ops s hs ⟨hkeeps, .refl _⟩
  refine ⟨fun harrived => ⟨hafter.main harrived, fun hsettled => ?_⟩, ?_⟩
  · have hf : e.frontier = none := migrating_eq_false.mp hsettled
    have hlist : e.toList = e.main.toList := by
      rw [toList, he.settled hf, Buckets.toList_unallocated, List.append_nil]
    have hlen : e.toList.length = s.dictionary.toList.length := by
      rw [← he.size_eq, hsize, hs.size_eq]
    rw [(he.size_of_settled hf).2, ← hlist]
    exact ⟨hafter.main harrived, hsince.same hid hlen⟩
  · intro hnone hsettled hm
    rcases hafter.only (hnone.trans hmade) with ⟨hmoves, -⟩ | ⟨-, hmain | hgone⟩
    · exact absurd (migrating_eq_false.mp hsettled) hmoves
    · exact hmain
    · exact absurd hgone hm

/-- A new size that is begun gives a target that arrives. -/
theorem arrivesAt_expand {d : Dictionary κ ν} (hd : d.Shape) (hnumbered : d.Numbered) {size : Nat}
    (hm : d.main.size ≠ 0) (hok : (d.expand size).1 = .ok ()) (settings : Settings) (words : σ) :
    ArrivesAt K g ⟨(d.expand size).2, settings, words⟩ (Buckets.sizeFor size) := by
  obtain ⟨hsettled, hfit⟩ := (expand_answers hd size).2.2.1.mp hok
  have hexpand := expand_of_fit hd (migrating_eq_false.mp hsettled) hm hfit
  have hmain := hnumbered.main
  have hpos : d.nextArray ≠ 0 := by omega
  have hshifts : Shifts (K.hash settings.seed) d (d.expand size).2 := shifts_expand d size
  have hshape := hd.shifts hshifts
  rw [hexpand] at hshape ⊢
  refine arrivesAt K g hshape ⟨Nat.lt_succ_self _, ?_, ?_, ?_⟩ hpos rfl
  · exact fun he => absurd he (Nat.ne_of_lt hmain)
  · exact fun _ => Buckets.size_allocate _ _
  · exact fun _ => .inl ⟨by simp [note], rfl⟩

/-- **New sizes.** Take a dictionary with any history, a size that is not out of reach, and the
least power of two that is neither below the size nor below four.

`resizeTo` is refused while resizing is off, and else it is `expand`. `expand` is refused while
entries move, and else just if the size is below the number of entries or that power of two is
the number of buckets already. Whatever is refused leaves the dictionary as it was.

If the size is accepted, a dictionary without a table has a table of that many buckets. In one
with a table all entries are still found while they move, and when they have moved, with
nothing inserted and nothing removed meanwhile, the table has that many buckets and all entries
are in it. `shrinkToFit` asks for as many buckets as there are entries, or for four, so that
its table is the smallest that there can be for them. -/
theorem new_size_on_request (settings : Settings) (words : σ) (before : List (Operation κ ν))
    (h : WordSource τ) (words' : τ) (size : Nat) (hsize : size ≤ 2 ^ 63) :
    let s : Situation κ ν σ := (start settings words).after K g before
    let d := s.dictionary
    let r := s.rules K
    let P := Buckets.sizeFor size
    let d' := (d.expand size).2
    IsLeast {m | (∃ n, m = 2 ^ n) ∧ max size 4 ≤ m} P ∧
    (((d.resizeTo r size).1 = .error .resizeDisabled ↔ s.settings.resizing = false) ∧
      (s.settings.resizing = true → d.resizeTo r size = d.expand size)) ∧
    ((d.expand size).1 = .error .migrating ↔ d.migrating = true) ∧
    ((d.expand size).1 = .error (.invalidSize size d.size) ↔
      d.migrating = false ∧ (size < d.size ∨ P = d.slots)) ∧
    ((d.expand size).1 = .ok () ↔ d.migrating = false ∧ ¬ (size < d.size ∨ P = d.slots)) ∧
    (∀ fault, ((d.expand size).1 = .error fault → d' = d) ∧
      ((d.resizeTo r size).1 = .error fault → (d.resizeTo r size).2 = d) ∧
      ((d.shrinkToFit r).1 = .error fault → (d.shrinkToFit r).2 = d)) ∧
    ((d.expand size).1 = .ok () →
      (d.main.size = 0 → d'.migrating = false ∧ d'.slots = P) ∧
      (d.main.size ≠ 0 → d'.migrating = true ∧ d'.toList.Perm d.toList ∧
        (K.Lawful → ∀ b ∈ d.toList, (d'.fetch r b.key).1 = some b) ∧
        ArrivesAt K h ⟨d', s.settings, words'⟩ P)) ∧
    d.shrinkToFit r = d.resizeTo r (max d.size 4) ∧
    ((d.shrinkToFit r).1 = .ok () → d.size ≤ 2 ^ 63 → d.main.size ≠ 0 →
      ∃ Q, IsLeast {m | (∃ n, m = 2 ^ n) ∧ max d.size 4 ≤ m} Q ∧
        ArrivesAt K h ⟨(d.shrinkToFit r).2, s.settings, words'⟩ Q) := by
  intro s d r P d'
  have hd : d.Shape := shape_after K g settings words before
  have hnumbered : d.Numbered := numbered_after K g settings words before
  have hshifts : Shifts r.hash d d' := shifts_expand d size
  have hperm : d'.toList.Perm d.toList := (hshifts.toList_perm hd).1
  have hshrink : d.shrinkToFit r = d.resizeTo r (max d.size 4) := shrinkToFit_eq r hd
  obtain ⟨hmigrating, hunfit, hok, hfault⟩ := expand_answers hd size
  obtain ⟨hdisabled, hallowed, hresize⟩ := resizeTo_answers r hd size
  refine ⟨Buckets.isLeast_sizeFor hsize, ⟨hdisabled, hallowed⟩, hmigrating, hunfit, hok,
    fun fault => ⟨fun he => (hfault fault he).1, hresize fault, ?_⟩, fun hgood => ?_, hshrink,
    fun hgood hcount htable => ?_⟩
  · rw [hshrink]
    exact (resizeTo_answers r hd _).2.2 fault
  · obtain ⟨hsettled, hfit⟩ := hok.mp hgood
    have hf : d.frontier = none := migrating_eq_false.mp hsettled
    refine ⟨fun hfirst => ?_, fun htable => ⟨?_, hperm, fun hK b hb => ?_, ?_⟩⟩
    · have hexpand : d' = _ := congrArg Prod.snd (expand_of_fit_first hd hf hfirst hfit)
      rw [hexpand]
      refine ⟨hsettled, ?_⟩
      change (Buckets.allocate d.nextArray P : Buckets κ ν).size + d.target.size = P
      rw [Buckets.size_allocate, hd.settled hf]
      rfl
    · have hexpand : d' = _ := congrArg Prod.snd (expand_of_fit hd hf htable hfit)
      rw [hexpand]
      rfl
    · have hsound : d.Sound K s.settings.seed := by
        rw [show s.settings.seed = settings.seed from seed_after K g before _]
        exact sound_after g hK settings words before
      exact (hsound.of_shifts hK hshifts).fetch_of_mem (r := r) hK (hperm.mem_iff.mpr hb)
    · exact arrivesAt_expand K h hd hnumbered htable hgood s.settings words'
  · rw [hshrink] at hgood ⊢
    have hexpand := resizeTo_of_ok hgood
    rw [hexpand] at hgood ⊢
    have hleast := Buckets.isLeast_sizeFor (show max d.size 4 ≤ 2 ^ 63 by omega)
    have hfour : max (max d.size 4) Buckets.leastSize = max d.size 4 :=
      max_eq_left (le_max_right _ _)
    rw [hfour] at hleast
    exact ⟨_, hleast, arrivesAt_expand K h hd hnumbered htable hgood s.settings words'⟩

/-- Three entries and a table of thirty-two buckets for them, which is there once they have moved,
though one was looked for meanwhile and another one got a new value. -/
theorem three_arrive_in_thirty_two :
    let K := Keying.numbers String
    let g := WordSource.splitMix
    let s : Situation UInt64 String UInt64 :=
      (start .standard 0).after K g [.add 0 "a", .add 1 "b", .add 2 "c"]
    let t := (s.perform K g (.expand 20)).2
    let e := (t.after K g [.find 1 id, .replace 2 "x", .migrateFor 0]).dictionary
    20 ≤ 2 ^ 63 ∧ t.dictionary.outline = ⟨4, 32, some 0⟩ ∧ e.migrating = false ∧ e.slots = 32 ∧
      (e.main.toList.map Binding.label).Perm (t.dictionary.toList.map Binding.label) := by
  obtain ⟨-, -, -, -, -, -, hbegun, -⟩ := new_size_on_request (Keying.numbers String)
    WordSource.splitMix .standard 0 [.add 0 "a", .add 1 "b", .add 2 "c"] WordSource.splitMix 0 20
    (by decide)
  obtain ⟨-, htable⟩ := hbegun (by decide +kernel)
  obtain ⟨-, -, -, harrives⟩ := htable (by decide +kernel)
  obtain ⟨hthere, -⟩ := harrives [.find 1 id, .replace 2 "x", .migrateFor 0] (by decide +kernel)
    (by decide +kernel)
  obtain ⟨-, hslots⟩ := hthere (by decide +kernel)
  exact ⟨by decide, by decide +kernel, by decide +kernel, hslots (by decide +kernel)⟩

end Situation

end TwinTable
