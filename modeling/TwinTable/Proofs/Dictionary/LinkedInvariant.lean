/-
What the links of a dictionary are like in every state it can be in.

Two things are said of the slab and the arrays of heads alone, without a word about lists of
bindings. `Linked.Intact` asks nothing of the keys: sizes and masks; the frontier; chains of
handles that end, share nothing and hold all that is alive; the counts. `Linked.Invariant`
adds what a lawful keying gives: each entry in the bucket of its hash, and no key twice.
They follow from what the dictionary on lists is like (`Dictionary.Shape`,
`Dictionary.Sound`), read through `Linked.Represents`. Together with the fact that no
operation on links fails, this is the main result about the layout in memory
(`Linked.exists_after_start`).
-/
import TwinTable.Proofs.Dictionary.LinkedOperations

set_option autoImplicit false

namespace TwinTable

/-! ## Chains of handles -/

/-- From a handle on, the links lead through just these handles, and then nowhere. -/
def Slab.Path {κ ν : Type} (slab : Slab κ ν) : (current : Option Nat) → List Nat → Prop
  | current, [] => current = none
  | current, id :: ids => current = some id ∧
      ∃ cell, slab id = some cell ∧ Slab.Path slab cell.next ids

theorem Slab.Leads.path {κ ν : Type} {slab : Slab κ ν} {bs : List (Binding κ ν)} :
    ∀ {current : Option Nat}, Slab.Leads slab current bs →
      Slab.Path slab current (bs.map (·.id)) := by
  induction bs with
  | nil => intro current h; exact h
  | cons b bs ih =>
    rintro current ⟨rfl, next, hcell, hrest⟩
    exact ⟨rfl, _, hcell, ih hrest⟩

/-- There is one way to follow the links. -/
theorem Slab.Path.unique {κ ν : Type} {slab : Slab κ ν} {ids : List Nat} :
    ∀ {current : Option Nat} {ids' : List Nat}, Slab.Path slab current ids →
      Slab.Path slab current ids' → ids = ids' := by
  induction ids with
  | nil =>
    rintro current ids' rfl h'
    cases ids' with
    | nil => rfl
    | cons id' ids' => exact absurd h'.1 (by simp)
  | cons id ids ih =>
    rintro current ids' ⟨rfl, cell, hcell, hrest⟩ h'
    cases ids' with
    | nil => exact absurd h' (by simp [Slab.Path])
    | cons id' ids' =>
      obtain ⟨hid, cell', hcell', hrest'⟩ := h'
      obtain rfl : id = id' := Option.some.inj hid
      obtain rfl : cell = cell' := Option.some.inj (hcell.symm.trans hcell')
      rw [ih hrest hrest']

/-- An array that is not there at all, or has a power of two of buckets, at least four, and
the mask that goes with them. -/
def Heads.Sized (t : Heads) : Prop :=
  (t.size = 0 ∧ t.mask = 0 ∧ t.used = 0) ∨
    ∃ n, 2 ≤ n ∧ t.size = 2 ^ n ∧ t.mask.toNat = t.size - 1

namespace Linked

variable {κ ν : Type}

/-- All handles in chains of handles, array by array and bucket by bucket. -/
def allIn (l : Linked κ ν) (chain : Side → Nat → List Nat) : List Nat :=
  [Side.main, .target].flatMap fun s => (List.range (l.side s).size).flatMap (chain s)

/-- Chains of handles, one for each bucket, that the links go through. -/
structure Threads (l : Linked κ ν) (chain : Side → Nat → List Nat) : Prop where
  /-- From the head of a bucket the links lead through its chain and end. -/
  path : ∀ s i, i < (l.side s).size → Slab.Path l.slab ((l.side s).head i) (chain s i)
  /-- No handle occurs twice, neither in one chain nor in two. -/
  nodup : (l.allIn chain).Nodup
  /-- What is in the chains is what is alive in the slab. -/
  alive : ∀ id, l.slab id ≠ none ↔ id ∈ l.allIn chain
  /-- The count of an array is the lengths of its chains together. -/
  counted : ∀ s, (l.side s).used = ∑ i ∈ Finset.range (l.side s).size, (chain s i).length

/-- The links of a dictionary as its operations leave them, whatever its keys are like. -/
structure Intact (l : Linked κ ν) : Prop where
  sized : ∀ s, (l.side s).Sized
  /-- Entries are moving exactly while there is a target. -/
  moving : l.frontier.isSome ↔ l.target.size ≠ 0
  /-- Then there is a main array too, the frontier is one of its buckets, and those below it
  are empty. -/
  frontier : ∀ i, l.frontier = some i →
    l.main.size ≠ 0 ∧ i < l.main.size ∧ ∀ j, j < i → l.main.head j = none
  threads : ∃ chain, l.Threads chain

variable (K : Keying κ ν) (seed : Seed)

/-- The links of a dictionary whose keys are compared and hashed as they should be. -/
structure Invariant (l : Linked κ ν) : Prop extends l.Intact where
  /-- Each entry is in the bucket of the hash of its key. -/
  filed : ∀ s i ids, Slab.Path l.slab ((l.side s).head i) ids →
    ∀ id cell, id ∈ ids → l.slab id = some cell →
      (K.hash seed cell.key &&& (l.side s).mask).toNat = i
  /-- No two entries that are alive have the same key. -/
  apart : ∀ id id' cell cell', id ≠ id' → l.slab id = some cell → l.slab id' = some cell' →
    K.same cell.key cell'.key = false

variable {K} {seed} {l : Linked κ ν} {d : Dictionary κ ν} {st : Settings}

/-! ## Read off the lists -/

/-- What is alive under a handle is the binding that has it. -/
theorem Represents.exists_binding (h : Represents st l d) {id : Nat} {cell : Cell κ ν}
    (hcell : l.slab id = some cell) :
    ∃ b ∈ d.toList, b.id = id ∧ b.key = cell.key := by
  have hmem : id ∈ d.handles := by
    -- what is alive is in a chain, by what it means to represent
    by_contra hnot
    rw [(h.alive id).mpr hnot] at hcell
    exact absurd hcell (by simp)
  obtain ⟨b, hb, rfl⟩ := List.mem_map.mp hmem
  obtain ⟨s, i, hbi⟩ := Dictionary.mem_toList.mp hb
  obtain ⟨next, hb'⟩ := ((h.side s).leads i).exists_cell hbi
  obtain rfl : ⟨b.key, b.value, next⟩ = cell := Option.some.inj (hb'.symm.trans hcell)
  exact ⟨b, hb, rfl, rfl⟩

theorem Represents.sized (h : Represents st l d) (hd : d.Shape) (s : Side) :
    (l.side s).Sized := by
  have hs := h.side s
  rcases (hd.side s).sized with hnone | ⟨n, hn, hn', hsize⟩
  · refine .inl ⟨?_, ?_, ?_⟩
    · rw [hs.size, hnone]
      rfl
    · rw [hs.mask, hnone]
      rfl
    · rw [hs.used, hnone]
      rfl
  · refine .inr ⟨n, hn, ?_, ?_⟩
    · rw [hs.size, hsize]
    · rw [hs.mask, Buckets.toNat_mask hn' hsize, hs.size, hsize]

theorem Represents.threads (h : Represents st l d) (hd : d.Shape) :
    l.Threads fun s i => ((d.side s).chain i).map (·.id) := by
  have hall : l.allIn (fun s i => ((d.side s).chain i).map (·.id)) = d.handles := by
    rw [Dictionary.handles_eq, Buckets.handles_eq_flatMap, Buckets.handles_eq_flatMap,
      ← h.main.size, ← h.target.size]
    simp [allIn, Linked.side, Dictionary.side]
  refine ⟨?_, ?_, ?_, ?_⟩
  · intro s i _
    exact ((h.side s).leads i).path
  · rw [hall]
    exact hd.handles
  · intro id
    rw [hall, Ne, h.alive id, not_not]
  · intro s
    rw [(h.side s).used, (hd.side s).counted, Buckets.length_toList, (h.side s).size]
    simp

theorem Represents.intact (h : Represents st l d) (hd : d.Shape) : l.Intact where
  sized := h.sized hd
  moving := by
    rw [h.frontier, h.target.size]
    constructor
    · intro hsome
      obtain ⟨i, hi⟩ := Option.isSome_iff_exists.mp hsome
      exact (hd.moving i hi).2.1
    · intro hroom
      by_contra hnone
      rw [Option.not_isSome_iff_eq_none] at hnone
      rw [hd.settled hnone] at hroom
      exact hroom rfl
  frontier := by
    intro i hi
    rw [h.frontier] at hi
    have hlt := (hd.moving i hi).1
    refine ⟨?_, ?_, ?_⟩
    · rw [h.main.size]
      omega
    · rw [h.main.size]
      exact hlt
    · intro j hj
      exact (h.main.leads j).eq_none_iff.mpr (hd.behind i hi j hj)
  threads := ⟨_, h.threads hd⟩

/-- **The links of a sound dictionary** are as the invariant says. -/
theorem Represents.invariant (hK : K.Lawful) (h : Represents st l d) (hd : d.Sound K seed) :
    l.Invariant K seed where
  toIntact := h.intact hd.shape
  filed := by
    intro s i ids hpath id cell hid hcell
    rw [hpath.unique ((h.side s).leads i).path] at hid
    obtain ⟨b, hb, rfl⟩ := List.mem_map.mp hid
    obtain ⟨next, hb'⟩ := ((h.side s).leads i).exists_cell hb
    obtain rfl : ⟨b.key, b.value, next⟩ = cell := Option.some.inj (hb'.symm.trans hcell)
    have hfiled := hd.filed s i b hb
    rw [Buckets.index, ← (h.side s).mask] at hfiled
    exact hfiled
  apart := by
    intro id id' cell cell' hne hcell hcell'
    obtain ⟨b, hb, rfl, hkey⟩ := h.exists_binding hcell
    obtain ⟨b', hb', rfl, hkey'⟩ := h.exists_binding hcell'
    have hsymm : Std.Symm K.Apart := ⟨fun _ _ => hK.apart_symm⟩
    have hapart : K.Apart b b' := hd.apart.forall hb hb' fun he => hne (congrArg _ he)
    rw [← hkey, ← hkey']
    exact hapart

/-! ## Every history -/

/-- **Every history of a new dictionary goes through on links.** No bucket is looked for past
the end, no handle is followed to an entry that is gone, no count is taken down from zero and
no chain goes on for ever, whatever the keys are like. The links are intact afterwards, they
represent the dictionary that the same history leads to, and if the keying is lawful they are
as the invariant says. -/
theorem exists_after_start {σ : Type} (K : Keying κ ν) (g : WordSource σ) (settings : Settings)
    (words : σ) (ops : List (Operation κ ν)) :
    ∃ l, (start settings).after K ops = some l ∧ l.Intact ∧
      (K.Lawful → l.Invariant K settings.seed) ∧
      Represents ((Situation.start settings words).after K g ops).settings l
        ((Situation.start settings words).after K g ops).dictionary := by
  obtain ⟨l, hl, h⟩ := Represents.after K g ops
    (s := Situation.start settings words) (represents_start settings) Dictionary.shape_empty
  have hshape := Situation.shape_after K g settings words ops
  refine ⟨l, hl, h.intact hshape, ?_, h⟩
  intro hK
  exact h.invariant hK (Situation.sound_after g hK settings words ops)

/-- A history in which four buckets become too few, a chain of three keys moves and its middle
key is unlinked on the other side, and everything is cleared before the rest has moved. -/
theorem exists_after_start_numbers :
    (Keying.numbers String).Lawful ∧
      ∃ l, (start .standard).after (Keying.numbers String)
          [.add 0 "a", .add 4 "b", .add 8 "c", .add 1 "d", .add 2 "e", .unlink 4, .safeWalk,
            .replace 8 "f", .clear, .add 4 "g"] = some l ∧
        l.Invariant (Keying.numbers String) Settings.standard.seed := by
  have hK := Keying.lawful_numbers String
  obtain ⟨l, hl, -, hinvariant, -⟩ :=
    exists_after_start (Keying.numbers String) WordSource.splitMix .standard 0
      [.add 0 "a", .add 4 "b", .add 8 "c", .add 1 "d", .add 2 "e", .unlink 4, .safeWalk,
        .replace 8 "f", .clear, .add 4 "g"]
  exact ⟨hK, l, hl, hinvariant hK⟩

end Linked

end TwinTable
