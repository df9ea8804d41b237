/-
What can happen to the two arrays of a dictionary, said once.

The layout of a dictionary is sound (`Shape`) if both arrays are, the target is in use
exactly while there is a frontier, the buckets behind the frontier are empty, and no
handle was given out twice. A `Shift` is one move of the machinery that brings entries
from one array to the other or allocates an array; it changes where bindings are and not
which there are. A `Change` is a shift or one of the four things that callers can do:
link a binding, erase one, revise values, clear.

Every operation is a run of changes (`History`), so a fact about layouts has to be shown
for the constructors below and for nothing else.
-/
import TwinTable.Proofs.Dictionary.Arrays
import TwinTable.Dictionary.Entries

set_option autoImplicit false

namespace TwinTable

namespace Dictionary

variable {κ ν : Type}

/-! ## Sound layouts -/

/-- A layout as the operations leave it. -/
structure Shape (d : Dictionary κ ν) : Prop where
  /-- Both arrays are sound. -/
  main : d.main.Sound
  target : d.target.Sound
  /-- There is no target while nothing moves. -/
  settled : d.frontier = none → d.target = .unallocated
  /-- While entries move, the frontier is a bucket of the main array, and the target is
  an array of another size. -/
  moving : ∀ i, d.frontier = some i →
    i < d.main.size ∧ d.target.size ≠ 0 ∧ d.main.size ≠ d.target.size
  /-- What has moved has left nothing behind. -/
  behind : ∀ i, d.frontier = some i → ∀ j, j < i → d.main.chain j = []
  /-- No two bindings have one handle, and the next handle is new. -/
  handles : (d.toList.map (·.id)).Nodup
  issued : ∀ b ∈ d.toList, b.id < d.nextId

theorem shape_empty : (empty : Dictionary κ ν).Shape where
  main := Buckets.sound_unallocated
  target := Buckets.sound_unallocated
  settled := fun _ => rfl
  moving := fun i hi => by simp [empty] at hi
  behind := fun i hi => by simp [empty] at hi
  handles := List.nodup_nil
  issued := fun b hb => absurd hb List.not_mem_nil

/-- The handles of a sound layout stay apart and old when the bindings only change place. -/
theorem Shape.handles_of_perm {d d' : Dictionary κ ν} (hd : d.Shape)
    (hp : d'.toList.Perm d.toList) (hid : d'.nextId = d.nextId) :
    (d'.toList.map (·.id)).Nodup ∧ ∀ b ∈ d'.toList, b.id < d'.nextId := by
  refine ⟨((hp.map _).nodup_iff).mpr hd.handles, ?_⟩
  intro b hb
  rw [hid]
  exact hd.issued b (hp.mem_iff.mp hb)

theorem mem_toList {d : Dictionary κ ν} {b : Binding κ ν} :
    b ∈ d.toList ↔ ∃ s i, b ∈ (d.side s).chain i := by
  rw [toList, List.mem_append, Buckets.mem_toList, Buckets.mem_toList]
  constructor
  · rintro (⟨i, hb⟩ | ⟨i, hb⟩)
    · exact ⟨.main, i, hb⟩
    · exact ⟨.target, i, hb⟩
  · rintro ⟨s, i, hb⟩
    cases s with
    | main => exact .inl ⟨i, hb⟩
    | target => exact .inr ⟨i, hb⟩

theorem Shape.side {d : Dictionary κ ν} (hd : d.Shape) (s : Side) : (d.side s).Sound := by
  cases s with
  | main => exact hd.main
  | target => exact hd.target

/-- The number of entries is what the arrays count. -/
theorem Shape.size_eq {d : Dictionary κ ν} (hd : d.Shape) : d.size = d.toList.length := by
  rw [size, toList, List.length_append, hd.main.counted, hd.target.counted]

/-! ## Shifts -/

/-- A move of the machinery: the bindings stay, where they are may change. -/
inductive Shift (hash : κ → UInt64) : Dictionary κ ν → Dictionary κ ν → Prop
  /-- Nothing but the outbox or the count of walks changes. -/
  | aside {d d' : Dictionary κ ν} (main : d'.main = d.main) (target : d'.target = d.target)
      (frontier : d'.frontier = d.frontier) (nextId : d'.nextId = d.nextId)
      (nextArray : d'.nextArray = d.nextArray) : Shift hash d d'
  /-- The frontier passes an empty bucket. -/
  | pass {d : Dictionary κ ν} {i : Nat} (walks : d.walks = 0) (frontier : d.frontier = some i)
      (used : d.main.used ≠ 0) (chain : d.main.chain i = []) :
      Shift hash d { d with frontier := some (i + 1) }
  /-- The chain at the frontier moves, and there is more to move. -/
  | move {d : Dictionary κ ν} {i : Nat} (walks : d.walks = 0) (frontier : d.frontier = some i)
      (chain : d.main.chain i ≠ []) (used : (d.main.chain i).length < d.main.used) :
      Shift hash d { d with
        main := d.main.clearBucket i
        target := Passage.moveChain hash (d.main.chain i) d.target
        frontier := some (i + 1) }
  /-- The last chain moves, and the target takes the place of the main array. -/
  | moveLast {d : Dictionary κ ν} {i : Nat} (walks : d.walks = 0)
      (frontier : d.frontier = some i) (used : (d.main.chain i).length = d.main.used) :
      Shift hash d { d with
        main := Passage.moveChain hash (d.main.chain i) d.target
        target := .unallocated
        frontier := none }
  /-- Nothing is left to move, and the target takes the place of the main array. -/
  | land {d : Dictionary κ ν} {i : Nat} (walks : d.walks = 0) (frontier : d.frontier = some i)
      (used : d.main.used = 0) :
      Shift hash d { d with main := d.target, target := .unallocated, frontier := none }
  /-- The first array is allocated. -/
  | first {d : Dictionary κ ν} (size : Nat) (frontier : d.frontier = none)
      (main : d.main.size = 0) :
      Shift hash d { d with
        main := .allocate d.nextArray (Buckets.sizeFor size), nextArray := d.nextArray + 1 }
  /-- A target is allocated, and entries begin to move. -/
  | begin {d : Dictionary κ ν} (size : Nat) (frontier : d.frontier = none)
      (main : d.main.size ≠ 0) (used : d.main.used ≤ size)
      (other : Buckets.sizeFor size ≠ d.main.size) :
      Shift hash d { d with
        target := .allocate d.nextArray (Buckets.sizeFor size), frontier := some 0
        nextArray := d.nextArray + 1 }

/-- Any number of shifts. -/
abbrev Shifts (hash : κ → UInt64) : Dictionary κ ν → Dictionary κ ν → Prop :=
  Relation.ReflTransGen (Shift hash)

variable {hash : κ → UInt64}

theorem Shift.nextId {d d' : Dictionary κ ν} (h : Shift hash d d') : d'.nextId = d.nextId := by
  cases h with
  | aside _ _ _ hid _ => exact hid
  | pass | move | moveLast | land | first | begin => rfl

/-- **A shift keeps the bindings.** Only their order in the list changes, since a chain that
moves is taken out of one array and put into the other. -/
theorem Shift.toList_perm {d d' : Dictionary κ ν} (hd : d.Shape) (h : Shift hash d d') :
    d'.toList.Perm d.toList := by
  cases h with
  | aside hm ht _ _ _ => rw [toList, toList, hm, ht]
  | pass => exact List.Perm.refl _
  | @move i hw hf hc hu =>
    obtain ⟨hi, ht, -⟩ := hd.moving i hf
    exact Passage.toList_moveBucket hash (p := ⟨d.main, d.target, i⟩) hi hd.target ht
  | @moveLast i hw hf hu =>
    obtain ⟨hi, ht, -⟩ := hd.moving i hf
    have hmoved := Passage.toList_moveChain hash (d.main.chain i) d.target hd.target ht
    have hleft := Buckets.toList_clearBucket hi
    -- the chain that moves counts for all that is used, so the other chains are empty
    have hnone : (d.main.clearBucket i).toList = [] := by
      have hl := hleft.length_eq
      rw [List.length_append, hu, ← hd.main.counted] at hl
      exact List.eq_nil_of_length_eq_zero (by omega)
    rw [hnone, List.append_nil] at hleft
    rw [toList, Buckets.toList_unallocated, List.append_nil]
    exact hmoved.trans (hleft.symm.append_right _)
  | land hw hf hu =>
    rw [toList, toList, Buckets.toList_unallocated, hd.main.used_eq_zero.mp hu, List.append_nil,
      List.nil_append]
  | first size hf hm =>
    have hnone : d.main.toList = [] := by
      rw [Buckets.toList_eq_flatMap, hm]
      rfl
    rw [toList, toList, Buckets.toList_allocate, hnone]
  | begin size hf hm hu ho =>
    rw [toList, toList, Buckets.toList_allocate, hd.settled hf, Buckets.toList_unallocated]

/-- **A shift keeps the layout sound.** While the main array is not empty, something lies
at the frontier or beyond it; so a frontier that passes an empty bucket, or a bucket that
was not the last to hold anything, is still inside. -/
theorem Shape.shift {d d' : Dictionary κ ν} (hd : d.Shape) (h : Shift hash d d') : d'.Shape := by
  obtain ⟨hhandles, hissued⟩ := hd.handles_of_perm (h.toList_perm hd) h.nextId
  cases h with
  | aside hm ht hf hid ha =>
    refine ⟨hm ▸ hd.main, ht ▸ hd.target, ?_, ?_, ?_, hhandles, hissued⟩
    · intro h
      rw [ht]
      exact hd.settled (hf ▸ h)
    · intro i h
      rw [hm, ht]
      exact hd.moving i (hf ▸ h)
    · intro i h
      rw [hm]
      exact hd.behind i (hf ▸ h)
  | @pass i hw hf hu hc =>
    have hempty : ∀ j, j < i + 1 → d.main.chain j = [] := by
      intro j hj
      rcases Nat.lt_succ_iff_lt_or_eq.mp hj with hlt | rfl
      · exact hd.behind i hf j hlt
      · exact hc
    -- some chain is not empty, and it lies past the frontier: so the frontier is in range
    obtain ⟨j, hij, hj, -⟩ := hd.main.exists_chain_ne_nil hu hempty
    refine ⟨hd.main, hd.target, by simp, ?_, ?_, hhandles, hissued⟩
    · rintro _ ⟨⟩
      exact ⟨Nat.lt_of_le_of_lt hij hj, (hd.moving i hf).2⟩
    · rintro _ ⟨⟩
      exact hempty
  | @move i hw hf hc hu =>
    obtain ⟨hi, ht, hne⟩ := hd.moving i hf
    have hmain := hd.main.clearBucket hi
    have hempty : ∀ j, j < i + 1 → (d.main.clearBucket i).chain j = [] := by
      intro j hj
      rw [Buckets.chain_clearBucket]
      split
      · rfl
      · rename_i hij
        exact hd.behind i hf j (by omega)
    -- the chain was not the last one, so that again something is left ahead
    have hleft : (d.main.clearBucket i).used ≠ 0 := by
      change d.main.used - (d.main.chain i).length ≠ 0
      omega
    obtain ⟨j, hij, hj, -⟩ := hmain.exists_chain_ne_nil hleft hempty
    refine ⟨hmain, Passage.sound_moveChain hash _ _ hd.target ht, by simp, ?_, ?_, hhandles,
      hissued⟩
    · rintro _ ⟨⟩
      refine ⟨Nat.lt_of_le_of_lt hij hj, ?_⟩
      simp only [Passage.size_moveChain, Buckets.size_clearBucket]
      exact ⟨ht, hne⟩
    · rintro _ ⟨⟩
      exact hempty
  | @moveLast i hw hf hu =>
    obtain ⟨-, ht, -⟩ := hd.moving i hf
    exact ⟨Passage.sound_moveChain hash _ _ hd.target ht, Buckets.sound_unallocated,
      fun _ => rfl, by simp, by simp, hhandles, hissued⟩
  | land hw hf hu =>
    exact ⟨hd.target, Buckets.sound_unallocated, fun _ => rfl, by simp, by simp, hhandles,
      hissued⟩
  | first size hf hm =>
    refine ⟨Buckets.sound_allocate _ _, hd.target, hd.settled, ?_, ?_, hhandles, hissued⟩
    · intro i h
      rw [hf] at h
      exact absurd h (by simp)
    · intro i h
      rw [hf] at h
      exact absurd h (by simp)
  | begin size hf hm hu ho =>
    refine ⟨hd.main, Buckets.sound_allocate _ _, by simp, ?_, ?_, hhandles, hissued⟩
    · rintro _ ⟨⟩
      obtain ⟨n, -, -, hs⟩ := Buckets.sizeFor_eq size
      refine ⟨Nat.pos_of_ne_zero hm, ?_, ?_⟩
      · simp [hs]
      · rw [Buckets.size_allocate]
        exact ho.symm
    · rintro _ ⟨⟩
      intro j hj
      exact absurd hj (Nat.not_lt_zero j)

theorem Shape.shifts {d d' : Dictionary κ ν} (hd : d.Shape) (h : Shifts hash d d') :
    d'.Shape := by
  -- induction on the row of shifts, from its end
  induction h with
  | refl => exact hd
  | tail _ hstep ih => exact ih.shift hstep

/-- What any number of shifts keeps: the bindings, and the handle to come. -/
theorem Shifts.toList_perm {d d' : Dictionary κ ν} (hd : d.Shape) (h : Shifts hash d d') :
    d'.toList.Perm d.toList ∧ d'.nextId = d.nextId := by
  induction h with
  | refl => exact ⟨List.Perm.refl _, rfl⟩
  | tail hrun hstep ih =>
    exact ⟨(hstep.toList_perm (hd.shifts hrun)).trans ih.1, hstep.nextId.trans ih.2⟩

/-- So the number of entries is the same. -/
theorem size_of_shifts {d d' : Dictionary κ ν} (hd : d.Shape) (h : Shifts hash d d') :
    d'.size = d.size := by
  rw [(hd.shifts h).size_eq, hd.size_eq, (h.toList_perm hd).1.length_eq]

/-- Putting something into the outbox is no more than that. -/
theorem shifts_note (d : Dictionary κ ν) (n : Notice) : Shifts hash d (d.note n) :=
  .single (.aside rfl rfl rfl rfl rfl)

theorem shifts_hand (d : Dictionary κ ν) (c : Custody κ ν) : Shifts hash d (d.hand c) :=
  .single (.aside rfl rfl rfl rfl rfl)

theorem shifts_handAll (cs : List (Custody κ ν)) :
    ∀ d : Dictionary κ ν, Shifts hash d (d.handAll cs) := by
  induction cs with
  | nil => intro d; exact .refl
  | cons c cs ih => intro d; exact (shifts_hand d c).trans (ih _)

end Dictionary

end TwinTable
