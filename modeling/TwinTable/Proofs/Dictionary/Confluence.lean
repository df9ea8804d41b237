/-
However a migration is cut into pieces, it ends in the same table.

Entries move chain by chain and each chain from its head, so what the target will hold in the
end is settled at every moment: it is what it holds now, with the bindings of the main array
from the frontier on pushed onto it in the order in which they lie (`Dictionary.destined`).
Each shift takes a piece off the front of that list and pushes just this piece, or moves the
frontier over nothing, so that the destined array stays the same (`Shift.destined`). Where a
run stops, whether at a chain, inside a row of empty buckets, or between two pieces, is no
part of this; it is enough that the frontier is saved where the run stopped.

A schedule is any row of calls that bring no entry in and take none out (`Operation.Idles`).
Such calls do nothing to a dictionary but move entries and put notices into the outbox. So two
schedules that come to the end of the migration leave the same dictionary, notices apart, and
whatever is read from it afterwards is the same.
-/
import TwinTable.Proofs.Dictionary.HeldLayout
import TwinTable.Proofs.Dictionary.WalkOrder

set_option autoImplicit false

namespace TwinTable

variable {κ ν : Type}

/-! ## Bindings still to come -/

theorem Passage.moveChain_append (hash : κ → UInt64) (c c' : List (Binding κ ν))
    (t : Buckets κ ν) : moveChain hash (c ++ c') t = moveChain hash c' (moveChain hash c t) :=
  List.foldl_append

namespace Buckets

/-- Buckets from one on are the same where their chains are. -/
theorem listFrom_congr {t t' : Buckets κ ν} {i : Nat} (hs : t'.size = t.size)
    (h : ∀ j, i ≤ j → t'.chain j = t.chain j) : t'.listFrom i = t.listFrom i := by
  rw [listFrom, listFrom, hs]
  refine List.flatMap_congr ?_
  intro j hj
  exact h j (List.mem_range'_1.mp hj).1

/-- A bucket that is emptied is no part of those behind it. -/
theorem listFrom_clearBucket (t : Buckets κ ν) (i : Nat) :
    (t.clearBucket i).listFrom (i + 1) = t.listFrom (i + 1) := by
  refine listFrom_congr (size_clearBucket t i) ?_
  intro j hj
  rw [chain_clearBucket, if_neg (by omega)]

/-- If a chain counts for all that is used, the buckets behind it are empty. -/
theorem Sound.listFrom_of_length_eq {t : Buckets κ ν} (ht : t.Sound) {i : Nat}
    (h : (t.chain i).length = t.used) : t.listFrom (i + 1) = [] := by
  obtain ⟨front, hfront⟩ := t.exists_append_listFrom i
  have hlen := congrArg List.length hfront
  rw [listFrom_eq, List.length_append, List.length_append, ← ht.counted] at hlen
  exact List.eq_nil_of_length_eq_zero (by omega)

theorem Sound.listFrom_of_used_eq_zero {t : Buckets κ ν} (ht : t.Sound) (h : t.used = 0)
    (i : Nat) : t.listFrom i = [] := by
  obtain ⟨front, hfront⟩ := t.exists_append_listFrom i
  rw [ht.used_eq_zero.mp h] at hfront
  exact (List.append_eq_nil_iff.mp hfront.symm).2

end Buckets

namespace Dictionary

/-! ## The array to come -/

/-- The main array as it will be when no more entries move. -/
def destined (hash : κ → UInt64) (d : Dictionary κ ν) : Buckets κ ν :=
  match d.frontier with
  | none => d.main
  | some i => Passage.moveChain hash (d.main.listFrom i) d.target

variable {hash : κ → UInt64} {d d' : Dictionary κ ν}

theorem destined_of_frontier_none (h : d.frontier = none) : d.destined hash = d.main := by
  rw [destined, h]

theorem destined_of_frontier_some {i : Nat} (h : d.frontier = some i) :
    d.destined hash = Passage.moveChain hash (d.main.listFrom i) d.target := by
  rw [destined, h]

/-- No shift takes the number of an array back. -/
theorem Shift.nextArray_le (h : Shift hash d d') : d.nextArray ≤ d'.nextArray := by
  cases h with
  | aside _ _ _ _ ha => exact ha.ge
  | pass | move | moveLast | land => exact le_refl _
  | first | begin => exact Nat.le_succ _

/-- **A shift leaves the destined array as it is**, unless it allocates a new one. -/
theorem Shift.destined (hd : d.Shape) (h : Shift hash d d') (ha : d'.nextArray = d.nextArray) :
    d'.destined hash = d.destined hash := by
  cases h with
  | aside hm ht hf _ _ => rw [Dictionary.destined, Dictionary.destined, hm, ht, hf]
  | @pass i hw hf hu hc =>
    rw [destined_of_frontier_some hf, d.main.listFrom_eq i, hc]
    rfl
  | @move i hw hf hc hu =>
    rw [destined_of_frontier_some hf, d.main.listFrom_eq i, Passage.moveChain_append,
      ← Buckets.listFrom_clearBucket]
    rfl
  | @moveLast i hw hf hu =>
    -- nothing is behind the last chain, so it alone makes up the list
    rw [destined_of_frontier_some hf, d.main.listFrom_eq i, hd.main.listFrom_of_length_eq hu,
      List.append_nil]
    rfl
  | @land i hw hf hu =>
    rw [destined_of_frontier_some hf, hd.main.listFrom_of_used_eq_zero hu i]
    rfl
  | first | begin => exact absurd ha (Nat.succ_ne_self _)

theorem Shifts.nextArray_le (h : Shifts hash d d') : d.nextArray ≤ d'.nextArray := by
  induction h with
  | refl => exact le_refl _
  | tail _ hstep ih => exact ih.trans hstep.nextArray_le

theorem Shifts.destined (hd : d.Shape) (h : Shifts hash d d') (ha : d'.nextArray = d.nextArray) :
    d'.destined hash = d.destined hash := by
  -- induction on the row, from its end: numbers of arrays only go up, so that with the same
  -- number at both ends no shift of the row allocates one
  induction h with
  | refl => rfl
  | @tail e e' hrun hstep ih =>
    have hup := Shifts.nextArray_le hrun
    have hlast := hstep.nextArray_le
    rw [hstep.destined (hd.shifts hrun) (by omega), ih (by omega)]

/-! ## What calls on the side keep -/

theorem nextArray_migrate (r : Rules κ ν) (d : Dictionary κ ν) (n : Nat) :
    (d.migrate r n).2.nextArray = d.nextArray := by
  rcases hf : d.frontier with _ | i
  · rw [migrate_of_frontier_none r hf]
  · by_cases hw : d.walks = 0
    · rw [migrate_of_frontier_some r hf hw, land]
      split <;> rfl
    · rw [migrate_of_walks_pos r hf hw]

/-- A dictionary in which the same entries are on their way to the same array. -/
structure Bound (hash : κ → UInt64) (d d' : Dictionary κ ν) : Prop where
  shape : d'.Shape
  entries : d'.toList.Perm d.toList
  destined : d'.destined hash = d.destined hash
  walks : d'.walks = d.walks
  nextId : d'.nextId = d.nextId
  nextArray : d'.nextArray = d.nextArray

theorem Bound.refl (hd : d.Shape) : Bound hash d d := ⟨hd, .refl _, rfl, rfl, rfl, rfl⟩

/-- **Moving entries brings them nowhere else.** -/
theorem steadfast_bound (r : Rules κ ν) (d : Dictionary κ ν) :
    Steadfast r (Bound r.hash d) where
  migrate {d'} n h := by
    have hshifts := shifts_migrate r h.shape n
    have hperm := hshifts.toList_perm h.shape
    have harray := nextArray_migrate r d' n
    exact ⟨h.shape.shifts hshifts, hperm.1.trans h.entries,
      (hshifts.destined h.shape harray).trans h.destined, (walks_migrate r _ n).trans h.walks,
      hperm.2.trans h.nextId, harray.trans h.nextArray⟩
  note {d'} n h := by
    have hshifts : Shifts r.hash d' (d'.note n) := shifts_note d' n
    exact ⟨h.shape.shifts hshifts, h.entries, h.destined, h.walks, h.nextId, h.nextArray⟩

/-- A value that is stored as it was changes nothing. -/
theorem setAt_id (d : Dictionary κ ν) (p : Place) : d.setAt p id = d := by
  have hsame : ∀ t : Buckets κ ν, t.modifyValue p.index p.id id = t := by
    intro t
    have hchains : (t.chains.modify p.index fun chain => chain) = t.chains := by
      refine Array.ext (Array.size_modify ..) ?_
      intro i _ _
      rw [Array.getElem_modify, ite_self]
    rw [Buckets.modifyValue]
    simp only [id, ite_self, List.map_id', hchains]
  rcases p with ⟨_ | _, i, id⟩
  · exact congrArg (fun t => { d with main := t }) (hsame d.main)
  · exact congrArg (fun t => { d with target := t }) (hsame d.target)

end Dictionary

/-! ## Calls that bring nothing in and take nothing out -/

/-- Whether what was looked for was not there. -/
def Answer.inVain : Answer κ ν → Bool
  | .entry none | .outcome (.error _) => true
  | _ => false

/-- Calls that leave the entries of a dictionary alone: entries are moved, read, drawn, or
looked for in vain in order to be removed. -/
def Operation.Idles : Operation κ ν → Answer κ ν → Prop
  | .migrate _, _ | .migrateFor _, _ | .pick, _ | .pickFairly, _ | .sample _, _ => True
  | .scan _, _ | .walk, _ | .advance _, _ => True
  | .find _ set, _ => set = id
  | .unlink _, answer | .delete _, answer => answer.inVain
  | _, _ => False

namespace Situation

variable {σ : Type} (K : Keying κ ν) (g : WordSource σ)

open Dictionary

/-- A row of such calls. -/
def Idles (K : Keying κ ν) (g : WordSource σ) : Situation κ ν σ → List (Operation κ ν) → Prop
  | _, [] => True
  | s, op :: ops => op.Idles (s.perform K g op).1 ∧ Idles K g (s.perform K g op).2 ops

variable {K g} {P : Dictionary κ ν → Prop}

/-- **What moving entries keeps, such a call keeps**, and the settings stay. -/
theorem idle_perform {s : Situation κ ν σ} (hP : Steadfast (s.rules K) P) (h : P s.dictionary)
    {op : Operation κ ν} (hop : op.Idles (s.perform K g op).1) :
    P (s.perform K g op).2.dictionary ∧ (s.perform K g op).2.settings = s.settings := by
  cases op with
  | migrate n => exact ⟨hP.migrate n h, rfl⟩
  | migrateFor rounds => exact ⟨hP.migrateFor rounds h, rfl⟩
  | pick => exact ⟨hP.pick g s.words h, rfl⟩
  | pickFairly => exact ⟨hP.pickFairly g s.words h, rfl⟩
  | sample count => exact ⟨hP.sample g count s.words h, rfl⟩
  | scan | walk | advance => exact ⟨h, rfl⟩
  | find k set =>
    obtain rfl : set = id := hop
    have hfind := hP.find k h
    rw [perform]
    revert hfind
    rcases s.dictionary.find (s.rules K) k with ⟨_ | p, d⟩
    · exact fun h => ⟨h, rfl⟩
    · intro h
      dsimp only
      rw [setAt_id]
      exact ⟨h, rfl⟩
  | unlink k =>
    -- an answer without an entry tells that nothing was found
    change (Answer.entry (s.dictionary.unlink (s.rules K) k).1).inVain = true at hop
    change P (s.dictionary.unlink (s.rules K) k).2 ∧ _
    rcases unlink_cases (r := s.rules K) s.dictionary k with hnone | ⟨p, b, -, hsome⟩
    · rw [hnone]
      exact ⟨hP.find k h, rfl⟩
    · rw [hsome] at hop
      exact absurd hop (by simp [Answer.inVain])
  | delete k =>
    change (Answer.outcome (s.dictionary.delete (s.rules K) k).1).inVain = true at hop
    change P (s.dictionary.delete (s.rules K) k).2 ∧ _
    rw [delete] at hop ⊢
    rcases unlink_cases (r := s.rules K) s.dictionary k with hnone | ⟨p, b, -, hsome⟩
    · rw [hnone]
      exact ⟨hP.find k h, rfl⟩
    · rw [hsome] at hop
      exact absurd hop (by simp [Answer.inVain])
  | add | claim | replace | discard | clear | expand | resizeTo | shrinkToFit | allowResizing
  | scanRevising | safeWalk | endWalk => exact absurd hop id

/-- So a row of such calls keeps it. -/
theorem idle_after (ops : List (Operation κ ν)) : ∀ {s : Situation κ ν σ},
    Steadfast (s.rules K) P → P s.dictionary → s.Idles K g ops →
      P (s.after K g ops).dictionary := by
  induction ops with
  | nil => intro s _ h _; exact h
  | cons op ops ih =>
    rintro s hP h ⟨hop, hops⟩
    obtain ⟨hstep, hsettings⟩ := idle_perform hP h hop
    refine ih ?_ hstep hops
    rwa [rules, hsettings]

end Situation

namespace Dictionary

/-! ## Reading after a migration

No reader looks into the outbox. -/

theorem main_collect (d : Dictionary κ ν) : d.collect.2.main = d.main := rfl

theorem scan_collect (d : Dictionary κ ν) (cursor : UInt64) :
    d.collect.2.scan cursor = d.scan cursor := rfl

theorem next_collect (d : Dictionary κ ν) (w : Walk) : w.next d.collect.2 = w.next d := rfl

theorem take_collect (d : Dictionary κ ν) : ∀ n (w : Walk),
    w.take d.collect.2 n = w.take d n := by
  intro n
  induction n with
  | zero => intro w; rfl
  | succ n ih =>
    intro w
    rw [Walk.take, Walk.take, next_collect]
    rcases w.next d with ⟨_ | b, w'⟩
    · rfl
    · dsimp only
      rw [ih]

/-- A migration that has ended leaves the destined array and nothing else. -/
theorem Bound.collect_eq {hash : κ → UInt64} {d e : Dictionary κ ν} (h : Bound hash d e)
    (hdone : e.migrating = false) :
    e.collect.2 = { d with
      main := d.destined hash, target := .unallocated, frontier := none, outbox := .empty } := by
  have hf : e.frontier = none := migrating_eq_false.mp hdone
  have hmain : e.main = d.destined hash := by
    rw [← h.destined, destined_of_frontier_none hf]
  rw [collect, hmain, h.shape.settled hf, hf, h.walks, h.nextId, h.nextArray]

end Dictionary

namespace Situation

variable {σ σ₁ σ₂ : Type} (K : Keying κ ν) (g : WordSource σ) (g₁ : WordSource σ₁)
  (g₂ : WordSource σ₂)

open Dictionary

/-- **Migrations are confluent.** Two rows of calls that neither bring entries in nor take any
out, made to the same dictionary, which may have any history, and with whatever words: if both
come to the end of the migration, they leave the same main array, chain by chain, with all
entries in it. All else is the same too, but for what was put into the outbox; so scans and
walks go the same way from there. -/
theorem migration_confluent (settings : Settings) (words : σ) (words₁ : σ₁) (words₂ : σ₂)
    (before ops₁ ops₂ : List (Operation κ ν)) :
    let s : Situation κ ν σ := (start settings words).after K g before
    let s₁ : Situation κ ν σ₁ := ⟨s.dictionary, s.settings, words₁⟩
    let s₂ : Situation κ ν σ₂ := ⟨s.dictionary, s.settings, words₂⟩
    let d₁ := (s₁.after K g₁ ops₁).dictionary
    let d₂ := (s₂.after K g₂ ops₂).dictionary
    s₁.Idles K g₁ ops₁ → s₂.Idles K g₂ ops₂ →
    d₁.migrating = false → d₂.migrating = false →
      d₁.main = d₂.main ∧ d₁.target = .unallocated ∧ d₁.toList.Perm s.dictionary.toList ∧
      d₁.collect.2 = d₂.collect.2 ∧ (∀ cursor, d₁.scan cursor = d₂.scan cursor) ∧
      ∀ n (w : Walk), w.take d₁ n = w.take d₂ n := by
  intro s s₁ s₂ d₁ d₂ hops₁ hops₂ hdone₁ hdone₂
  have hs : s.dictionary.Shape := shape_after K g settings words before
  have hbound := steadfast_bound (s.rules K) s.dictionary
  have h₁ : Bound _ s.dictionary d₁ := idle_after (s := s₁) ops₁ hbound (.refl hs) hops₁
  have h₂ : Bound _ s.dictionary d₂ := idle_after (s := s₂) ops₂ hbound (.refl hs) hops₂
  have hsame : d₁.collect.2 = d₂.collect.2 :=
    (h₁.collect_eq hdone₁).trans (h₂.collect_eq hdone₂).symm
  refine ⟨?_, h₁.shape.settled (migrating_eq_false.mp hdone₁), h₁.entries, hsame,
    fun cursor => ?_, fun n w => ?_⟩
  · rw [← main_collect, hsame, main_collect]
  · rw [← scan_collect, hsame, scan_collect]
  · rw [← take_collect, hsame, take_collect]

/-- Five entries on their way from four buckets to sixteen: at once, or bit by bit while keys
are looked for and entries are drawn. -/
theorem five_arrive_either_way :
    let K := Keying.numbers String
    let g := WordSource.splitMix
    let before : List (Operation UInt64 String) :=
      [.add 0 "a", .add 4 "b", .add 8 "c", .add 3 "d", .expand 16]
    let s : Situation UInt64 String UInt64 := (start .standard 0).after K g before
    let bits : List (Operation UInt64 String) :=
      [.find 8 id, .delete 7, .pick, .sample 2, .migrate 1]
    s.dictionary.migrating = true ∧
      (s.after K g [.migrateFor 0]).dictionary.main = (s.after K g bits).dictionary.main := by
  refine ⟨by decide +kernel, ?_⟩
  exact (migration_confluent (Keying.numbers String) WordSource.splitMix WordSource.splitMix
    WordSource.splitMix .standard 0 0 0
    [.add 0 "a", .add 4 "b", .add 8 "c", .add 3 "d", .expand 16] [.migrateFor 0]
    [.find 8 id, .delete 7, .pick, .sample 2, .migrate 1] ⟨trivial, trivial⟩
    ⟨rfl, by change Answer.inVain _ = true; decide +kernel, trivial, trivial, trivial, trivial⟩
    (by decide +kernel) (by decide +kernel)).1

end Situation

end TwinTable
