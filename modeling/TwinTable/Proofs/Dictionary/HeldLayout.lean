/-
What an open safe walk holds still: the sizes of the two arrays, the frontier, and the buckets
of the entries that stay.

A property that moving entries keeps, and all else that operations are made of, is `Lasting`,
and every operation on keys keeps it. The number of open walks is such a property; and while a
walk is open and there is a table, so is the outline of the layout, since nothing moves then and
the growth before an insertion waits.

A new size on request does not wait. `expand`, and what is made of it, allocates a target under
an open walk, and the frontier is at bucket zero from then on. It is the only thing that
changes an outline under a walk, and it can do so only once: what it begins is not carried on
before the walk is over.
-/
import TwinTable.Proofs.Dictionary.Makings
import TwinTable.Proofs.Dictionary.SafeWalks

set_option autoImplicit false

namespace TwinTable

namespace Dictionary

variable {κ ν : Type}

/-! ## What operations are made of -/

/-- What all keep that an operation on keys is made of. The arrays are changed in place, so
that their sizes stay. -/
structure Lasting (r : Rules κ ν) (P : Dictionary κ ν → Prop) : Prop extends Steadfast r P where
  growIfNeeded : ∀ {d : Dictionary κ ν}, P d → P (d.growIfNeeded r)
  hand : ∀ {d : Dictionary κ ν} (c : Custody κ ν), P d → P (d.hand c)
  issue : ∀ {d : Dictionary κ ν}, P d → P { d with nextId := d.nextId + 1 }
  modify : ∀ {d : Dictionary κ ν} (s : Side) {f : Buckets κ ν → Buckets κ ν},
    (∀ t, (f t).size = t.size) → P d → P (d.modifySide s f)

namespace Lasting

variable {r : Rules κ ν} {P : Dictionary κ ν → Prop} (hP : Lasting r P) {d : Dictionary κ ν}
include hP

/-- Sizes stay with whatever is done in place. -/
theorem toLocal : Local r P where
  note := hP.note
  hand := hP.hand
  issue := hP.issue
  growIfNeeded := hP.growIfNeeded
  push i b := hP.modify _ fun t => t.size_push i b
  erase p := hP.modify p.side fun t => t.size_erase p.index p.id
  revise s _ hsize _ := hP.modify s hsize

theorem handAll (cs : List (Custody κ ν)) (h : P d) : P (d.handAll cs) :=
  hP.toLocal.handAll cs h

theorem setAt (p : Place) (f : Value ν → Value ν) (h : P d) : P (d.setAt p f) :=
  hP.toLocal.setAt p f h

theorem claim (k : κ) (h : P d) : P (d.claim r k).2 :=
  hP.toLocal.claim k (hP.migrateStep h)

theorem add (k : κ) (v : ν) (h : P d) : P (d.add r k v).2 :=
  hP.toLocal.add k v (hP.migrateStep h)

theorem replace (k : κ) (v : ν) (h : P d) : P (d.replace r k v).2 :=
  hP.toLocal.replace k v (hP.migrateStep h)

theorem unlink (k : κ) (h : P d) : P (d.unlink r k).2 :=
  hP.toLocal.unlink k h (hP.migrateStep h)

theorem delete (k : κ) (h : P d) : P (d.delete r k).2 :=
  hP.toLocal.delete k h (hP.migrateStep h)

theorem reviseBuckets {τ : Type} (f : τ → κ → Value ν → Value ν × τ)
    (buckets : List Cursor.Bucket) (before : List (List (Binding κ ν))) (s : τ) (h : P d) :
    P (reviseBuckets f before buckets s d).2.2 :=
  hP.toLocal.reviseBuckets f buckets before s h

end Lasting

/-- A property that new sizes keep too is kept by the growth before an insertion. -/
theorem Steady.lasting {r : Rules κ ν} {P : Dictionary κ ν → Prop} (hP : Steady r P)
    (hand : ∀ {d : Dictionary κ ν} (c : Custody κ ν), P d → P (d.hand c))
    (issue : ∀ {d : Dictionary κ ν}, P d → P { d with nextId := d.nextId + 1 })
    (modify : ∀ {d : Dictionary κ ν} (s : Side) {f : Buckets κ ν → Buckets κ ν},
      (∀ t, (f t).size = t.size) → P d → P (d.modifySide s f)) : Lasting r P :=
  ⟨hP.toSteadfast, hP.growIfNeeded, hand, issue, modify⟩

@[simp] theorem walks_modifySide (d : Dictionary κ ν) (s : Side)
    (f : Buckets κ ν → Buckets κ ν) : (d.modifySide s f).walks = d.walks := by
  cases s <;> rfl

@[simp] theorem walks_land (d : Dictionary κ ν) (p : Passage κ ν) :
    (d.land p).2.walks = d.walks := by
  rw [land]
  split <;> rfl

@[simp] theorem walks_migrate (r : Rules κ ν) (d : Dictionary κ ν) (n : Nat) :
    (d.migrate r n).2.walks = d.walks := by
  rw [migrate]
  split
  · rfl
  · split
    · rfl
    · exact walks_land _ _

@[simp] theorem walks_expand (d : Dictionary κ ν) (size : Nat) :
    (d.expand size).2.walks = d.walks := by
  rw [expand]
  split_ifs <;> rfl

/-- Only walks that are begun or taken back change how many are open. -/
theorem lasting_walks (r : Rules κ ν) (n : Nat) :
    Steady r (fun d => d.walks = n) ∧ Lasting r fun d => d.walks = n := by
  have hsteady : Steady r fun d => d.walks = n :=
    ⟨⟨fun m h => (walks_migrate r _ m).trans h, fun _ h => h⟩,
      fun size h => (walks_expand _ size).trans h⟩
  exact ⟨hsteady, hsteady.lasting (fun _ h => h) (fun h => h)
    fun s _ _ h => (walks_modifySide _ s _).trans h⟩

/-! ## The outline of a layout -/

/-- How many buckets the two arrays have, and the next bucket to move. -/
structure Outline where
  main : Nat
  target : Nat
  frontier : Option Nat
deriving DecidableEq, Repr

/-- The outline of a dictionary. -/
def outline (d : Dictionary κ ν) : Outline := ⟨d.main.size, d.target.size, d.frontier⟩

theorem outline_modifySide (d : Dictionary κ ν) (s : Side) {f : Buckets κ ν → Buckets κ ν}
    (h : ∀ t, (f t).size = t.size) : (d.modifySide s f).outline = d.outline := by
  cases s with
  | main => exact congrArg (Outline.mk · d.target.size d.frontier) (h d.main)
  | target => exact congrArg (Outline.mk d.main.size · d.frontier) (h d.target)

/-- Growth waits for the walk. -/
theorem growIfNeeded_of_walks_pos (r : Rules κ ν) {d : Dictionary κ ν} (hw : d.walks ≠ 0)
    (hm : d.main.size ≠ 0) :
    d.growIfNeeded r = d ∨ d.growIfNeeded r = d.note (.growthPaused d.walks) := by
  have hallocated : ¬ (!d.main.isAllocated) = true := by
    rw [isAllocated_eq_true.mpr hm]
    decide
  rw [growIfNeeded, if_neg hallocated]
  by_cases hmoving : d.migrating = true
  · rw [if_pos hmoving]
    exact .inl rfl
  · rw [if_neg hmoving]
    by_cases hroom : d.main.used < d.main.size
    · rw [if_pos hroom]
      exact .inl rfl
    · rw [if_neg hroom, if_pos (Nat.pos_of_ne_zero hw)]
      exact .inr rfl

/-- **A walk holds the outline still** against everything but new sizes on request. -/
theorem lasting_outline (r : Rules κ ν) {d : Dictionary κ ν} (hw : d.walks ≠ 0)
    (hm : d.main.size ≠ 0) :
    Lasting r fun d' => d'.walks = d.walks ∧ d'.outline = d.outline where
  migrate := by
    rintro d' n ⟨hw', ho⟩
    have hself : (d'.migrate r n).2 = d' := by
      rcases hf : d'.frontier with _ | i
      · rw [migrate_of_frontier_none r hf]
      · rw [migrate_of_walks_pos r hf (hw' ▸ hw)]
    rw [hself]
    exact ⟨hw', ho⟩
  note _ h := h
  growIfNeeded := by
    rintro d' ⟨hw', ho⟩
    have hm' : d'.main.size ≠ 0 := fun h => hm ((congrArg Outline.main ho).symm.trans h)
    rcases growIfNeeded_of_walks_pos r (hw' ▸ hw) hm' with h | h
    · rw [h]
      exact ⟨hw', ho⟩
    · rw [h]
      exact ⟨hw', ho⟩
  hand _ h := h
  issue h := h
  modify s _ hf h := ⟨(walks_modifySide _ s _).trans h.1, (outline_modifySide _ s hf).trans h.2⟩

/-- **What a new size does to a table**: nothing, or a target is allocated and entries begin to
move. It asks neither for walks nor for anything but the fill and the size of the table. -/
theorem outline_expand {d : Dictionary κ ν} (hm : d.main.size ≠ 0) (size : Nat) :
    (d.expand size).2.outline = d.outline ∨
      d.frontier = none ∧
        (d.expand size).2.outline = ⟨d.main.size, Buckets.sizeFor size, some 0⟩ := by
  rw [expand]
  by_cases hmoving : d.migrating = true
  · rw [if_pos hmoving]
    exact .inl rfl
  · rw [if_neg hmoving]
    dsimp only
    by_cases hrefused : (d.main.used > size || Buckets.sizeFor size = d.main.size) = true
    · rw [if_pos hrefused]
      exact .inl rfl
    · rw [if_neg hrefused, if_pos (isAllocated_eq_true.mpr hm)]
      refine .inr ⟨migrating_eq_false.mp (by simpa using hmoving), ?_⟩
      exact congrArg (Outline.mk d.main.size · (some 0)) (Buckets.size_allocate _ _)

theorem outline_resizeTo (r : Rules κ ν) {d : Dictionary κ ν} (hm : d.main.size ≠ 0)
    (size : Nat) :
    (d.resizeTo r size).2.outline = d.outline ∨
      d.frontier = none ∧
        (d.resizeTo r size).2.outline = ⟨d.main.size, Buckets.sizeFor size, some 0⟩ := by
  rw [resizeTo]
  split
  · exact outline_expand hm size
  · exact .inl rfl

end Dictionary

/-! ## Operations under a walk -/

namespace Operation

variable {κ ν : Type}

/-- The operations that ask for a table of another size. -/
def AsksForSize : Operation κ ν → Prop
  | .expand _ | .resizeTo _ | .shrinkToFit => True
  | _ => False

/-- The operation that takes both arrays away. -/
def IsClear : Operation κ ν → Prop
  | .clear => True
  | _ => False

end Operation

namespace Situation

variable {κ ν σ : Type} (K : Keying κ ν) (g : WordSource σ)

open Dictionary

/-- **One operation under a walk** leaves the outline, unless it asks for a new size and
entries begin to move. -/
theorem outline_perform {s : Situation κ ν σ} (hw : s.dictionary.walks ≠ 0)
    (hm : s.dictionary.main.size ≠ 0) {op : Operation κ ν} (hop : ¬ op.IsClear) :
    (s.perform K g op).2.dictionary.outline = s.dictionary.outline ∨
      op.AsksForSize ∧ s.dictionary.frontier = none ∧
        ∃ size, (s.perform K g op).2.dictionary.outline =
          ⟨s.dictionary.main.size, Buckets.sizeFor size, some 0⟩ := by
  have hP := lasting_outline (s.rules K) hw hm
  have hstart : s.dictionary.walks = s.dictionary.walks ∧
      s.dictionary.outline = s.dictionary.outline := ⟨rfl, rfl⟩
  cases op with
  | add k v => exact .inl (hP.add k v hstart).2
  | claim k set => exact .inl (hP.setAt _ _ (hP.claim k hstart)).2
  | replace k v => exact .inl (hP.replace k v hstart).2
  | find k set =>
    left
    have hfind := hP.find k hstart
    rw [perform]
    revert hfind
    rcases s.dictionary.find (s.rules K) k with ⟨_ | p, d⟩
    · exact And.right
    · exact fun h => (hP.setAt p set h).2
  | unlink k => exact .inl (hP.unlink k hstart).2
  | delete k => exact .inl (hP.delete k hstart).2
  | discard b => exact .inl (hP.handAll _ hstart).2
  | clear => exact absurd trivial hop
  | expand size => exact (outline_expand hm size).imp_right fun h => ⟨trivial, h.1, size, h.2⟩
  | resizeTo size =>
    exact (outline_resizeTo (s.rules K) hm size).imp_right fun h => ⟨trivial, h.1, size, h.2⟩
  | shrinkToFit =>
    exact (outline_resizeTo (s.rules K) hm _).imp_right fun h => ⟨trivial, h.1, _, h.2⟩
  | migrate n => exact .inl (hP.migrate n hstart).2
  | migrateFor rounds => exact .inl (hP.migrateFor rounds hstart).2
  | pick => exact .inl (hP.pick g s.words hstart).2
  | pickFairly => exact .inl (hP.pickFairly g s.words hstart).2
  | sample count => exact .inl (hP.sample g count s.words hstart).2
  | scanRevising f start cursor => exact .inl (hP.reviseBuckets f _ _ _ hstart).2
  | allowResizing | scan | walk | safeWalk | advance => exact .inl rfl
  | endWalk w =>
    left
    change (s.dictionary.endWalk w).2.outline = _
    rw [endWalk]
    split_ifs <;> rfl

/-- Who leaves a walk open takes back no walk but another one. -/
theorem spares_of_walks {s : Situation κ ν σ} {op : Operation κ ν}
    (h : (s.perform K g op).2.dictionary.walks ≠ 0) : op.Spares s.dictionary := by
  cases op with
  | endWalk w =>
    intro hsafe
    change (s.dictionary.endWalk w).2.walks ≠ 0 at h
    rw [endWalk, if_pos hsafe] at h
    change s.dictionary.walks - 1 ≠ 0 at h
    omega
  | _ => trivial

end Situation

/-! ## A whole row of operations -/

namespace Dictionary

variable {κ ν : Type} {d d' d'' : Dictionary κ ν}

/-- The entries of an earlier dictionary that are still there lie where they lay. -/
structure Rests (d d' : Dictionary κ ν) : Prop where
  issued : d.nextId ≤ d'.nextId
  old : ∀ {s i} {x : Nat × κ}, x ∈ d'.labelsAt s i → x.1 < d.nextId → x ∈ d.labelsAt s i

theorem Rests.refl (d : Dictionary κ ν) : Rests d d := ⟨le_refl _, fun h _ => h⟩

theorem Rests.trans (h : Rests d d') (h' : Rests d' d'') : Rests d d'' :=
  ⟨h.issued.trans h'.issued, fun hx hold =>
    h.old (h'.old hx (Nat.lt_of_lt_of_le hold h.issued)) hold⟩

theorem Stays.rests (h : Stays d d') : Rests d d' := ⟨h.issued, h.mem_labelsAt_of_old⟩

/-- Handles are given out once, so an entry that stays cannot lie in another bucket either. -/
theorem Rests.mem_labelsAt (h : Rests d d') (hd : d.Shape) {s : Side} {i : Nat} {x : Nat × κ}
    (hx : x ∈ d.labelsAt s i) (hleft : x.1 ∈ d'.handles) : x ∈ d'.labelsAt s i := by
  obtain ⟨s', i', y, hy, hid⟩ := mem_handles_iff_labelsAt.mp hleft
  have hold := h.old hy (hid ▸ hd.lt_of_mem_handles (fst_mem_handles hx))
  obtain ⟨b, hb, rfl⟩ := List.mem_map.mp hx
  obtain ⟨c, hc, rfl⟩ := List.mem_map.mp hold
  obtain ⟨rfl, rfl⟩ := hd.place_unique hc hb hid
  have hsame : c = b := List.inj_on_of_nodup_map hd.handles
    (mem_toList.mpr ⟨_, _, hc⟩) (mem_toList.mpr ⟨_, _, hb⟩) hid
  rwa [hsame] at hy

end Dictionary

namespace Situation

variable {κ ν σ : Type} (K : Keying κ ν) (g : WordSource σ)

open Dictionary

theorem mem_passed (s : Situation κ ν σ) (ops : List (Operation κ ν)) :
    s ∈ s.passed K g ops := by
  cases ops with
  | nil => exact List.mem_singleton_self s
  | cons op ops => exact List.mem_cons_self

/-- What a row of operations under a walk does: entries that stay rest, and the outline is as
it was, unless a new size was asked for while nothing moved. -/
theorem rests_after (ops : List (Operation κ ν)) : ∀ {s : Situation κ ν σ},
    s.dictionary.Shape → s.dictionary.main.size ≠ 0 → (∀ op ∈ ops, ¬ op.IsClear) →
    (∀ t ∈ s.passed K g ops, t.dictionary.walks ≠ 0) →
      Rests s.dictionary (s.after K g ops).dictionary ∧
        ((s.after K g ops).dictionary.outline = s.dictionary.outline ∨
          (∃ op ∈ ops, op.AsksForSize) ∧ s.dictionary.frontier = none ∧
            ∃ size, (s.after K g ops).dictionary.outline =
              ⟨s.dictionary.main.size, Buckets.sizeFor size, some 0⟩) := by
  -- induction on the row, from the front: what was begun once is not begun again
  induction ops with
  | nil => intro s _ _ _ _; exact ⟨.refl _, .inl rfl⟩
  | cons op ops ih =>
    intro s hs hm hops hw
    have hwalks : s.dictionary.walks ≠ 0 := hw s List.mem_cons_self
    have hrest : ∀ t ∈ (s.perform K g op).2.passed K g ops, t.dictionary.walks ≠ 0 :=
      fun t ht => hw t (List.mem_cons_of_mem _ ht)
    have hspares := spares_of_walks K g (hrest _ (mem_passed K g _ ops))
    have hstep := (stays_perform K g hs hwalks hspares).rests
    have hshape := hs.changes (changes_perform K g hs op)
    have houtline := outline_perform K g hwalks hm (hops op List.mem_cons_self)
    have hmain : (s.perform K g op).2.dictionary.main.size = s.dictionary.main.size := by
      rcases houtline with h | ⟨-, -, size, h⟩
      · exact congrArg Outline.main h
      · exact congrArg Outline.main h
    obtain ⟨hmore, hafter⟩ := ih hshape (hmain ▸ hm)
      (fun op' hop' => hops op' (List.mem_cons_of_mem _ hop')) hrest
    refine ⟨hstep.trans hmore, ?_⟩
    rw [after_cons]
    rcases houtline with h | ⟨hasks, hnone, size, h⟩
    · rcases hafter with hafter | ⟨⟨op', hop', hasks⟩, hnone, size, hafter⟩
      · exact .inl (hafter.trans h)
      · refine .inr ⟨⟨op', List.mem_cons_of_mem _ hop', hasks⟩, ?_, size, ?_⟩
        · exact (congrArg Outline.frontier h).symm.trans hnone
        · rw [hafter, hmain]
    · rcases hafter with hafter | ⟨-, hnone', -⟩
      · exact .inr ⟨⟨op, List.mem_cons_self, hasks⟩, hnone, size, hafter.trans h⟩
      · -- entries move already, so that this cannot be the second beginning
        exact absurd ((congrArg Outline.frontier h).symm.trans hnone') (by simp)

/-- **An open walk holds the layout still**, as long as nobody asks for a new size. Whatever is
done to a dictionary with a table while safe walks are open, clearing apart, an entry that stays
keeps its array and its bucket. Both arrays keep their sizes and the frontier its bucket, with
one exception: where nothing moved and an operation asked for another size, a target may have
been allocated, with the frontier at bucket zero. -/
theorem open_walk_holds_layout (settings : Settings) (words : σ)
    (before ops : List (Operation κ ν)) :
    let s : Situation κ ν σ := (start settings words).after K g before
    let s' := s.after K g ops
    s.dictionary.main.size ≠ 0 → (∀ op ∈ ops, ¬ op.IsClear) →
    (∀ t ∈ s.passed K g ops, t.dictionary.walks ≠ 0) →
      s'.dictionary.main.size = s.dictionary.main.size ∧
      (s'.dictionary.target.size = s.dictionary.target.size ∧
          s'.dictionary.frontier = s.dictionary.frontier ∨
        (∃ op ∈ ops, op.AsksForSize) ∧ s.dictionary.frontier = none ∧
          s'.dictionary.frontier = some 0) ∧
      ∀ side i, ∀ b ∈ (s.dictionary.side side).chain i, b.id ∈ s'.dictionary.handles →
        ∃ b' ∈ (s'.dictionary.side side).chain i, b'.id = b.id ∧ b'.key = b.key := by
  intro s s' hm hops hw
  have hs : s.dictionary.Shape := shape_after K g settings words before
  obtain ⟨hrests, houtline⟩ := rests_after K g ops hs hm hops hw
  refine ⟨?_, ?_, ?_⟩
  · rcases houtline with h | ⟨-, -, size, h⟩ <;> exact congrArg Outline.main h
  · rcases houtline with h | ⟨hasks, hnone, size, h⟩
    · exact .inl ⟨congrArg Outline.target h, congrArg Outline.frontier h⟩
    · exact .inr ⟨hasks, hnone, congrArg Outline.frontier h⟩
  · intro side i b hb hleft
    obtain ⟨b', hb', hlabel⟩ := List.mem_map.mp
      (hrests.mem_labelsAt hs (List.mem_map_of_mem hb) hleft)
    exact ⟨b', hb', congrArg Prod.fst hlabel, congrArg Prod.snd hlabel⟩

/-- Five entries in four buckets and on their way to eight, a second walk that comes and goes,
and in between what would move them: the table stays as it is. -/
theorem open_walk_holds_five_on_the_move :
    let before := [.add 0 "a", .add 1 "b", .add 2 "c", .add 3 "d", .add 4 "e", .safeWalk]
    let ops := [.add 5 "f", .safeWalk, .migrate 9, .delete 2, .migrateFor 9,
      .endWalk ⟨.main, 0, none, true, 0⟩, .resizeTo 64]
    let s := (start .standard 0).after (Keying.numbers String) WordSource.splitMix before
    let d := (s.after (Keying.numbers String) WordSource.splitMix ops).dictionary
    s.dictionary.outline = ⟨4, 8, some 0⟩ ∧ d.main.size = s.dictionary.main.size ∧
      d.handles = [0, 1, 3, 4, 5] := by
  refine ⟨by decide +kernel, (open_walk_holds_layout (Keying.numbers String) WordSource.splitMix
    .standard 0 _ _ (by decide +kernel) ?_ ?_).1, by decide +kernel⟩
  · simp [Operation.IsClear]
  · exact List.forall_mem_map (f := fun t : Situation UInt64 String UInt64 =>
      t.dictionary.walks) (P := (· ≠ 0)).mp (by decide +kernel)

/-- **A new size on request does not wait for the walk.** One entry and an open walk, and a
target of sixteen buckets is there at once, with entries about to move. -/
theorem expand_under_open_walk :
    let K := Keying.numbers String
    let g := WordSource.splitMix
    let s : Situation UInt64 String UInt64 :=
      (start .standard 0).after K g [.add 0 "a", .safeWalk]
    s.dictionary.walks = 1 ∧ s.dictionary.outline = ⟨4, 0, none⟩ ∧
      (s.perform K g (.expand 16)).2.dictionary.walks = 1 ∧
      (s.perform K g (.expand 16)).2.dictionary.outline = ⟨4, 16, some 0⟩ := by
  decide +kernel

end Situation

end TwinTable
