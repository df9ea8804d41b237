/-
Keys are where they are looked for.

A search looks into at most two buckets: that of the hash in the main array, unless it has
moved already, and that of the hash in the target, if there is one. It misses nothing for
two reasons. Every binding lies in the bucket of its hash, in whichever array it is
(`Dictionary.Sound.filed`); and the buckets that are skipped are empty, which is part of a
sound layout. So a search finds the entry of a key if there is one
(`Sound.same_eq_false_of_lookup`, `Sound.exists_mem_of_lookup`).

What is needed of the keys is a `Keying.Lawful`: to be the same is an equivalence, keys
that are the same have the same hash, and the copy of a key is the same key.
-/
import TwinTable.Proofs.Dictionary.History

set_option autoImplicit false

namespace TwinTable

/-! ## Lawful keyings -/

/-- What a dictionary relies on. -/
structure Keying.Lawful {κ ν : Type} (K : Keying κ ν) : Prop where
  same_self : ∀ a, K.same a a = true
  same_symm : ∀ a b, K.same a b = true → K.same b a = true
  same_trans : ∀ a b c, K.same a b = true → K.same b c = true → K.same a c = true
  hash_same : ∀ seed a b, K.same a b = true → K.hash seed a = K.hash seed b
  same_copyKey : ∀ k, K.same k (K.copyKey k) = true

namespace Keying

/-- Keys that are the same only if they are equal leave nothing to ask for. -/
theorem lawful_of_eq {κ ν : Type} {K : Keying κ ν} (hsame : ∀ a b, K.same a b = true ↔ a = b)
    (hcopy : ∀ k, K.copyKey k = k) : K.Lawful where
  same_self a := (hsame a a).mpr rfl
  same_symm a b h := (hsame b a).mpr ((hsame a b).mp h).symm
  same_trans a b c h h' := (hsame a c).mpr (((hsame a b).mp h).trans ((hsame b c).mp h'))
  hash_same seed a b h := by rw [(hsame a b).mp h]
  same_copyKey k := (hsame _ _).mpr (hcopy k).symm

theorem lawful_strings (ν : Type) : (strings ν).Lawful :=
  lawful_of_eq (fun _ _ => beq_iff_eq) fun _ => rfl

theorem lawful_numbers (ν : Type) : (numbers ν).Lawful :=
  lawful_of_eq (fun _ _ => beq_iff_eq) fun _ => rfl

variable {κ ν : Type} {K : Keying κ ν}

/-- A key is compared like any other that is the same. -/
theorem Lawful.same_congr (hK : K.Lawful) {a b : κ} (h : K.same a b = true) (c : κ) :
    K.same a c = K.same b c := by
  rw [Bool.eq_iff_iff]
  exact ⟨hK.same_trans b a c (hK.same_symm a b h), hK.same_trans a b c h⟩

theorem Lawful.same_eq_false_symm (hK : K.Lawful) {a b : κ} (h : K.same a b = false) :
    K.same b a = false := by
  rw [Bool.eq_false_iff] at h ⊢
  exact fun hba => h (hK.same_symm _ _ hba)

/-- Of things whose keys are not the same, a key has one at most. -/
theorem Lawful.eq_of_same (hK : K.Lawful) {α : Type} (key : α → κ) {l : List α}
    (h : l.Pairwise fun a b => K.same (key a) (key b) = false) {k : κ} {a b : α} (ha : a ∈ l)
    (hb : b ∈ l) (hka : K.same k (key a) = true) (hkb : K.same k (key b) = true) : a = b := by
  -- that keys are not the same is symmetric, so it may be used in whichever order they come
  have hsymm : Std.Symm fun a b : α => K.same (key a) (key b) = false :=
    ⟨fun _ _ => hK.same_eq_false_symm⟩
  by_contra hne
  have hapart : K.same (key a) (key b) = false := h.forall ha hb hne
  rw [hK.same_trans _ k _ (hK.same_symm _ _ hka) hkb] at hapart
  exact absurd hapart (by simp)

/-- Two bindings whose keys are not the same. -/
def Apart (K : Keying κ ν) (a b : Binding κ ν) : Prop := K.same a.key b.key = false

theorem Lawful.apart_symm (hK : K.Lawful) {a b : Binding κ ν} (h : K.Apart a b) :
    K.Apart b a := hK.same_eq_false_symm h

end Keying

/-! ## Sound dictionaries -/

namespace Dictionary

variable {κ ν : Type}

/-- A dictionary as its operations leave it, under a keying and a seed. -/
structure Sound (K : Keying κ ν) (seed : Seed) (d : Dictionary κ ν) : Prop where
  shape : d.Shape
  /-- Each binding lies in the bucket of its hash. -/
  filed : ∀ s, (d.side s).Filed (K.hash seed)
  /-- No two bindings have the same key. -/
  apart : d.toList.Pairwise K.Apart

variable {K : Keying κ ν} {seed : Seed} {d d' : Dictionary κ ν}

theorem sound_empty (K : Keying κ ν) (seed : Seed) : (empty : Dictionary κ ν).Sound K seed where
  shape := shape_empty
  filed := fun s => by cases s <;> exact Buckets.filed_unallocated
  apart := .nil

/-! ## Searching -/

/-- A bucket with anything in it has not moved. -/
theorem Shape.hasMoved_eq_false (hd : d.Shape) {i : Nat} (h : d.main.chain i ≠ []) :
    d.hasMoved i = false := by
  rw [hasMoved]
  rcases hf : d.frontier with _ | next
  · rfl
  · refine decide_eq_false ?_
    intro hlt
    exact h (hd.behind next hf i hlt)

/-- If there is anything in the target, entries are moving. -/
theorem Shape.migrating_of_mem_target (hd : d.Shape) {i : Nat} {b : Binding κ ν}
    (h : b ∈ d.target.chain i) : d.migrating = true := by
  by_contra hm
  rw [hd.settled (migrating_eq_false.mp (by simpa using hm)), Buckets.chain_unallocated] at h
  exact List.not_mem_nil h

/-- **A search in vain** means that there is no such key. -/
theorem Sound.same_eq_false_of_lookup {r : Rules κ ν} (hK : r.keying.Lawful)
    (hd : d.Sound r.keying r.settings.seed) {k : κ} (h : d.lookup r k (r.hash k) = none)
    {b : Binding κ ν} (hb : b ∈ d.toList) : r.keying.same k b.key = false := by
  rw [Bool.eq_false_iff]
  intro hsame
  obtain ⟨s, i, hi⟩ := mem_toList.mp hb
  -- the hash of the key leads to the bucket in which the binding lies
  have hindex : (d.side s).index (r.hash k) = i := by
    have hf := hd.filed s i b hi
    rwa [← hK.hash_same _ _ _ hsame] at hf
  have hfind : d.lookupIn r s k (r.hash k) ≠ none := by
    rw [lookupIn, hindex, Ne, Option.map_eq_none_iff, Buckets.find?, List.find?_eq_none]
    intro hnone
    exact hnone b hi hsame
  cases s with
  | main =>
    have hstays : d.hasMoved (d.main.index (r.hash k)) = false :=
      hd.shape.hasMoved_eq_false (hindex.symm ▸ List.ne_nil_of_mem hi)
    obtain ⟨p, hp⟩ := Option.ne_none_iff_exists'.mp hfind
    rw [lookup, hstays] at h
    simp only [Bool.false_eq_true, if_false, hp] at h
    exact absurd h (by simp)
  | target =>
    rw [lookup, hd.shape.migrating_of_mem_target hi] at h
    simp only [if_true] at h
    split at h
    · exact absurd h (by simp)
    · exact hfind h

/-- **A search that finds a place** leads to the entry of the key. -/
theorem Sound.exists_mem_of_lookup {r : Rules κ ν} (hd : d.Shape) {k : κ} {hash : UInt64}
    {p : Place} (h : d.lookup r k hash = some p) :
    ∃ b, b ∈ d.toList ∧ d.entry? p = some b ∧ r.keying.same k b.key = true := by
  obtain ⟨-, b, hb, hsame, hid⟩ := exists_of_lookup r h
  refine ⟨b, mem_toList.mpr ⟨_, _, hb⟩, ?_, hsame⟩
  rw [show p = ⟨p.side, p.index, b.id⟩ by rw [hid]]
  exact entryAt_of_mem hd hb

/-! ## What each change keeps -/

theorem Sound.of_shift (hK : K.Lawful) (hd : d.Sound K seed)
    (h : Shift (K.hash seed) d d') : d'.Sound K seed := by
  have hapart := ((h.toList_perm hd.shape).pairwise_iff hK.apart_symm).mpr hd.apart
  refine ⟨hd.shape.shift h, ?_, hapart⟩
  -- the shape and the list are settled; that each array is filed is left, move by move
  have hmain := hd.filed .main
  have htarget := hd.filed .target
  intro s
  cases h with
  | aside hm ht _ _ _ =>
    cases s with
    | main =>
      change d'.main.Filed (K.hash seed)
      rw [hm]
      exact hmain
    | target =>
      change d'.target.Filed (K.hash seed)
      rw [ht]
      exact htarget
  | pass => exact hd.filed s
  | move _ _ _ _ =>
    cases s with
    | main => exact hmain.clearBucket _
    | target => exact Passage.filed_moveChain _ _ _ htarget
  | moveLast _ _ _ =>
    cases s with
    | main => exact Passage.filed_moveChain _ _ _ htarget
    | target => exact Buckets.filed_unallocated
  | land _ _ _ =>
    cases s with
    | main => exact htarget
    | target => exact Buckets.filed_unallocated
  | first _ _ _ =>
    cases s with
    | main => exact Buckets.filed_allocate _ _
    | target => exact htarget
  | begin _ _ _ _ _ =>
    cases s with
    | main => exact hmain
    | target => exact Buckets.filed_allocate _ _

theorem Sound.of_shifts (hK : K.Lawful) (hd : d.Sound K seed)
    (h : Shifts (K.hash seed) d d') : d'.Sound K seed := by
  induction h with
  | refl => exact hd
  | tail _ hstep ih => exact ih.of_shift hK hstep

/-- What is done to one array leaves the other filed. -/
theorem filed_modifySide {hash : κ → UInt64} {f : Buckets κ ν → Buckets κ ν} {s : Side}
    (hd : ∀ s, (d.side s).Filed hash) (h : (f (d.side s)).Filed hash) :
    ∀ s', ((d.modifySide s f).side s').Filed hash := by
  intro s'
  cases s <;> cases s'
  · exact h
  · exact hd .target
  · exact hd .main
  · exact h

/-- **A change keeps a dictionary sound.** A linked key lies in the bucket of its hash, as
the copy that is stored has the hash of the key that was looked for; and it is apart from
the others, as it was looked for in vain. -/
theorem Sound.of_change {r : Rules κ ν} (hK : r.keying.Lawful)
    (hd : d.Sound r.keying r.settings.seed) (h : Change r d d') :
    d'.Sound r.keying r.settings.seed := by
  have hshape := hd.shape.change h
  cases h with
  | shift h => exact hd.of_shift hK h
  | @link k ha hl =>
    have hcopy := hK.same_copyKey k
    refine ⟨hshape, ?_, ((toList_link r hd.shape _ _ ha).pairwise_iff hK.apart_symm).mpr ?_⟩
    · rw [link_eq]
      refine filed_modifySide (d := { d with nextId := d.nextId + 1 }.hand _) ?_ ?_
      · intro s
        cases s with
        | main => exact hd.filed .main
        | target => exact hd.filed .target
      · rw [side_hand]
        refine Buckets.Filed.push (t := d.side d.receiving) (hd.filed _) ?_
        change (d.side d.receiving).index (r.keying.hash r.settings.seed (r.keying.copyKey k)) = _
        rw [← hK.hash_same r.settings.seed _ _ hcopy]
        rfl
    · refine List.pairwise_cons.mpr ⟨?_, hd.apart⟩
      intro b hb
      have hk := hd.same_eq_false_of_lookup hK hl hb
      rwa [hK.same_congr hcopy] at hk
  | erase h =>
    have hperm := toList_erase h
    refine ⟨hshape, filed_modifySide hd.filed ((hd.filed _).erase _ _), ?_⟩
    exact (List.pairwise_cons.mp ((hperm.pairwise_iff hK.apart_symm).mp hd.apart)).2
  | revise hm ht hf hid ha =>
    refine ⟨hshape, ?_, ?_⟩
    · intro s
      cases s with
      | main => exact (hd.filed .main).of_sameLabels hm
      | target => exact (hd.filed .target).of_sameLabels ht
    · have hlabels := label_toList hm ht
      -- apart is said of keys, so it can be carried over the labels, which are the same
      have hold : (d.toList.map Binding.label).Pairwise
          fun a b => r.keying.same a.2 b.2 = false := List.pairwise_map.mpr hd.apart
      rw [← hlabels, List.pairwise_map] at hold
      exact hold
  | clear =>
    refine ⟨hshape, ?_, ?_⟩
    · obtain ⟨o, ho⟩ := d.clear_eq
      rw [ho]
      intro s
      cases s <;> exact Buckets.filed_unallocated
    · rw [toList_clear]
      exact .nil

theorem Sound.of_changes {r : Rules κ ν} (hK : r.keying.Lawful)
    (hd : d.Sound r.keying r.settings.seed) (h : Changes r d d') :
    d'.Sound r.keying r.settings.seed := by
  induction h with
  | refl => exact hd
  | tail _ hstep ih => exact ih.of_change hK hstep

end Dictionary

/-! ## Histories -/

namespace Situation

variable {κ ν σ : Type} {K : Keying κ ν} (g : WordSource σ)

open Dictionary

theorem sound_perform (hK : K.Lawful) {seed : Seed} {s : Situation κ ν σ}
    (hseed : s.settings.seed = seed) (hs : s.dictionary.Sound K seed) (op : Operation κ ν) :
    (s.perform K g op).2.dictionary.Sound K seed := by
  subst hseed
  exact hs.of_changes (r := s.rules K) hK (changes_perform K g hs.shape op)

theorem sound_after_of (hK : K.Lawful) (ops : List (Operation κ ν)) (s : Situation κ ν σ)
    (hs : s.dictionary.Sound K s.settings.seed) :
    (s.after K g ops).dictionary.Sound K s.settings.seed := by
  refine (after_induction K g
    (P := fun t => t.settings.seed = s.settings.seed ∧ t.dictionary.Sound K s.settings.seed)
    ?_ ops s hs.shape ⟨rfl, hs⟩).1.2
  intro t op _ ⟨hseed, ht⟩
  exact ⟨(seed_perform K g t op).trans hseed, sound_perform g hK hseed ht op⟩

/-- Every history of a new dictionary leaves it sound. -/
theorem sound_after (hK : K.Lawful) (settings : Settings) (words : σ)
    (ops : List (Operation κ ν)) :
    ((start settings words).after K g ops).dictionary.Sound K settings.seed :=
  sound_after_of g hK ops (start settings words) (sound_empty K settings.seed)

end Situation

end TwinTable
