/-
The upkeep settles: after three runs at most there is nothing left for it to do.

A run does one of three things. While entries are on their way it moves them, all of them if it
has the time. While nothing moves and the table is sparse it begins to shrink it, which is
never refused: a sparse table has far more buckets than are made for its entries. Otherwise it
does nothing, and then every later run does nothing either.

A table that was made by shrinking is not sparse. For it has the least size, or less than
twice as many buckets as entries (`Buckets.sizeFor_lt`). So the longest way is to end the moves
that are under way, to begin to shrink, and to end the moves of that.

How much time a run has is counted in rounds. A run has time if the clock is not what ends it
(`Store.HasTime`); that the moves come to an end then has to be shown, and it takes no more
rounds than the main array has buckets.
-/
import TwinTable.Proofs.Dictionary.HeldLayout
import TwinTable.Proofs.Service.Contents

set_option autoImplicit false

namespace TwinTable

/-- No more buckets are made than there have to be. -/
theorem Buckets.sizeFor_lt (size : Nat) :
    sizeFor size = leastSize ∨ sizeFor size < 2 * size := by
  obtain ⟨j, -, he, -, hlt⟩ := doubleUntil_eq size 61 leastSize
  rw [sizeFor, he]
  cases j with
  | zero => exact .inl (by simp)
  | succ j =>
    -- with one doubling less there would not have been enough
    have hbefore := hlt j (Nat.lt_succ_self j)
    right
    calc leastSize * 2 ^ (j + 1) = 2 * (leastSize * 2 ^ j) := by ring
      _ < 2 * size := by omega

/-! ## Moves under a clock -/

namespace Dictionary

variable {κ ν : Type} (r : Rules κ ν)

/-- What a round of moves does: it is the last one, or it gets further by a bucket and leaves
the rest to the next. -/
theorem migrate_round {d : Dictionary κ ν} {i : Nat} (hd : d.Shape) (hw : d.walks = 0)
    (hf : d.frontier = some i) :
    (∃ d', d.migrate r bucketsPerRound = (false, d') ∧ d'.frontier = none ∧
        d'.main.size = d.target.size) ∨
      ∃ d' j, d.migrate r bucketsPerRound = (true, d') ∧ d'.Shape ∧ d'.walks = 0 ∧
        d'.frontier = some j ∧ i < j ∧ d'.main.size = d.main.size ∧
        d'.target.size = d.target.size := by
  obtain ⟨hwalks, -, hcase⟩ := migrate_cases r hd hw hf bucketsPerRound
  have hshape := hd.shifts (shifts_migrate r hd bucketsPerRound)
  have hmore := migrate_fst r d bucketsPerRound
  rcases hcase with ⟨hnone, hsize⟩ | ⟨j, hj, -, hlt, hsize, htarget⟩
  · left
    rw [migrating_eq_false.mpr hnone] at hmore
    exact ⟨_, Prod.ext hmore rfl, hnone, hsize⟩
  · right
    rw [migrating_eq_true.mpr ⟨j, hj⟩] at hmore
    exact ⟨_, j, Prod.ext hmore rfl, hshape, hwalks, hj, hlt (by decide), hsize, htarget⟩

/-- **Moves come to an end.** Each round gets further by a bucket, so it takes no more rounds
than there are buckets ahead, the one that is always made included. -/
theorem migrateRounds_ends : ∀ (rounds moved : Nat) {d : Dictionary κ ν} {i : Nat}, d.Shape →
    d.walks = 0 → d.frontier = some i → d.main.size ≤ i + rounds + 1 →
      (d.migrateRounds r rounds moved).1 = false ∧
        (d.migrateRounds r rounds moved).2.frontier = none ∧
        (d.migrateRounds r rounds moved).2.main.size = d.target.size := by
  intro rounds
  -- induction on the rounds, with the frontier going up as they go down
  induction rounds with
  | zero =>
    intro moved d i hd hw hf hle
    rcases migrate_round r hd hw hf with
      ⟨d', hlast, hnone, hsize⟩ | ⟨d', j, -, hshape, -, hj, hon, hsize, -⟩
    · rw [migrateRounds, hlast]
      exact ⟨rfl, hnone, hsize⟩
    · -- the frontier would be behind the last bucket
      have hin := (hshape.moving j hj).1
      omega
  | succ rounds ih =>
    intro moved d i hd hw hf hle
    rcases migrate_round r hd hw hf with
      ⟨d', hlast, hnone, hsize⟩ | ⟨d', j, hmore, hshape, hwalks, hj, hon, hsize, htarget⟩
    · rw [migrateRounds, hlast]
      exact ⟨rfl, hnone, hsize⟩
    · rw [migrateRounds, hmore, ← htarget]
      exact ih _ hshape hwalks hj (by omega)

/-- Rounds that were enough are as good as more. -/
theorem migrateRounds_of_le : ∀ {rounds more moved : Nat} {d : Dictionary κ ν},
    (d.migrateRounds r rounds moved).1 = false → rounds ≤ more →
      d.migrateRounds r more moved = d.migrateRounds r rounds moved := by
  intro rounds
  induction rounds with
  | zero =>
    intro more moved d hends hle
    cases more with
    | zero => rfl
    | succ more =>
      rw [migrateRounds] at hends
      rw [migrateRounds, migrateRounds]
      revert hends
      rcases d.migrate r bucketsPerRound with ⟨_ | _, d'⟩
      · intro _; rfl
      · intro hends; exact absurd hends (by simp)
  | succ rounds ih =>
    intro more moved d hends hle
    obtain ⟨more, rfl⟩ : ∃ m, more = m + 1 := ⟨more - 1, by omega⟩
    rw [migrateRounds] at hends
    rw [migrateRounds, migrateRounds]
    revert hends
    rcases d.migrate r bucketsPerRound with ⟨_ | _, d'⟩
    · intro _; rfl
    · intro hends; exact ih hends (by omega)

/-- A new size is not refused if it has room for the entries and is another one. -/
theorem expand_of_room {d : Dictionary κ ν} {size : Nat} (hf : d.frontier = none)
    (hm : d.main.size ≠ 0) (hroom : d.main.used ≤ size)
    (hother : Buckets.sizeFor size ≠ d.main.size) :
    (d.expand size).1 = .ok () ∧ (d.expand size).2.frontier = some 0 ∧
      (d.expand size).2.target.size = Buckets.sizeFor size := by
  have hsettled : ¬ d.migrating = true := by
    rw [migrating_eq_false.mpr hf]
    decide
  have hallowed : ¬ (d.main.used > size || Buckets.sizeFor size = d.main.size) = true := by
    simp only [Bool.or_eq_true, decide_eq_true_eq, not_or, not_lt]
    exact ⟨hroom, hother⟩
  rw [expand, if_neg hsettled]
  dsimp only
  rw [if_neg hallowed, if_pos (isAllocated_eq_true.mpr hm)]
  exact ⟨rfl, rfl, Buckets.size_allocate _ _⟩

/-- So shrinking is begun, unless the table has that size already. -/
theorem shrinkToFit_of_other {d : Dictionary κ ν} (hr : r.settings.resizing = true)
    (hf : d.frontier = none) (hm : d.main.size ≠ 0)
    (hother : Buckets.sizeFor (max d.main.used Buckets.leastSize) ≠ d.main.size) :
    (d.shrinkToFit r).1 = .ok () ∧ (d.shrinkToFit r).2.frontier = some 0 ∧
      (d.shrinkToFit r).2.target.size =
        Buckets.sizeFor (max d.main.used Buckets.leastSize) := by
  rw [shrinkToFit, resizeTo, if_pos hr]
  exact expand_of_room hf hm (le_max_left _ _) hother

end Dictionary

namespace Service

namespace Store

open Dictionary

variable {σ : Type} {s : Store σ}

/-! ## Stores as events leave them -/

/-- The layout is sound and no walk is open. -/
structure Fit (s : Store σ) : Prop where
  shape : s.dictionary.Shape
  walks : s.dictionary.walks = 0

theorem fit_empty (settings : Settings) (rounds : Nat) (g : WordSource σ) (words : σ) :
    (empty settings rounds g words).Fit :=
  ⟨shape_empty, rfl⟩

/-- What changes a dictionary and keeps its count of walks leaves a store fit. -/
theorem Fit.of_changes (h : s.Fit) {s' : Store σ}
    (hchanges : Changes s.rules s.dictionary s'.dictionary) (hwalks : s'.dictionary.walks = 0) :
    s'.Fit :=
  ⟨h.shape.changes hchanges, hwalks⟩

theorem Fit.delete (h : s.Fit) (key : String) : (s.delete key).2.Fit := by
  have hchanges := changes_unlink (r := s.rules) h.shape key
  have hwalks := (lasting_walks s.rules 0).2.unlink key h.walks
  rw [Store.delete, withDictionary]
  revert hchanges hwalks
  rcases s.dictionary.unlink s.rules key with ⟨_ | b, d⟩
  · intro hchanges hwalks
    exact h.of_changes hchanges hwalks
  · intro hchanges hwalks
    exact h.of_changes (hchanges.trans (changes_handAll d _))
      ((lasting_walks s.rules 0).2.handAll _ hwalks)

theorem Fit.answer (h : s.Fit) (arguments : List String) : (s.answer arguments).2.Fit := by
  have hwalks := (lasting_walks s.rules 0).2
  rw [Store.answer]
  split
  · rename_i c _
    cases c with
    | get key => exact h.of_changes (.of_shifts (shifts_find h.shape key)) (hwalks.find key h.walks)
    | delete key => exact h.delete key
    | set key value =>
      exact h.of_changes (changes_replace h.shape key value) (hwalks.replace key value h.walks)
    | randomKey =>
      exact h.of_changes (.of_shifts (shifts_pick h.shape s.source s.words))
        (hwalks.pick s.source s.words h.walks)
    | size | report | scan => exact h
  · exact h

/-- What moves, new sizes and notices keep, a run of the upkeep keeps. -/
theorem steady_upkeep {P : Dictionary String String → Prop} (hP : Steady s.rules P)
    (h : P s.dictionary) : P s.upkeep.2.dictionary := by
  have hshrink : P (shrink s.rules s.dictionary) := by
    have hresized := hP.resizeTo (max (s.dictionary.note
      (.shrinking s.dictionary.size s.dictionary.slots)).main.used Buckets.leastSize)
      (hP.note (.shrinking s.dictionary.size s.dictionary.slots) h)
    rw [shrink, shrinkToFit]
    revert hresized
    rcases (s.dictionary.note _).resizeTo s.rules _ with ⟨_ | _, d'⟩
    · exact hP.note _
    · exact id
  rw [upkeep, withDictionary]
  dsimp only
  split
  · exact hP.note _ (hP.migrateFor s.rounds h)
  · dsimp only
    split
    · exact hshrink
    · exact h

theorem Fit.upkeep (h : s.Fit) : s.upkeep.2.Fit :=
  ⟨(steady_upkeep (steady_shifts s.rules s.dictionary) ⟨h.shape, .refl⟩).1,
    steady_upkeep (lasting_walks s.rules 0).1 h.walks⟩

theorem Fit.meet (h : s.Fit) (e : Event) : (s.meet e).Fit := by
  cases e with
  | request arguments => exact h.answer arguments
  | upkeep rounds => exact Fit.upkeep (s := { s with rounds := rounds }) ⟨h.shape, h.walks⟩
  | allowResizing allowed => exact h.of_changes (.of_shifts (shifts_note _ _)) h.walks
  | collect => exact h.of_changes (.of_shifts (.single (.aside rfl rfl rfl rfl rfl))) h.walks

theorem Fit.after (h : s.Fit) (events : List Event) : (s.after events).Fit := by
  induction events generalizing s with
  | nil => exact h
  | cons e events ih => exact ih (h.meet e)

/-- The number of entries stays in a run of the upkeep. -/
theorem Fit.size_upkeep (h : s.Fit) : s.upkeep.2.dictionary.size = s.dictionary.size :=
  size_of_shifts h.shape (steady_upkeep (steady_shifts s.rules s.dictionary) ⟨h.shape, .refl⟩).2

/-! ## Having time -/

/-- A run of moves has time if more of it would make no difference. -/
def HasTime (s : Store σ) (rounds : Nat) : Prop :=
  ∀ more, rounds ≤ more →
    s.dictionary.migrateFor s.rules more = s.dictionary.migrateFor s.rules rounds

theorem Fit.migrateFor_eq (h : s.Fit) (rounds : Nat) :
    s.dictionary.migrateFor s.rules rounds = s.dictionary.migrateRounds s.rules rounds 0 := by
  rw [migrateFor, if_neg (by simp [h.walks])]

/-- **A run that has time moves all that there is to move.** -/
theorem Fit.migrateFor_ends (h : s.Fit) {rounds : Nat} (ht : s.HasTime rounds) {i : Nat}
    (hf : s.dictionary.frontier = some i) :
    (s.dictionary.migrateFor s.rules rounds).2.frontier = none ∧
      (s.dictionary.migrateFor s.rules rounds).2.main.size = s.dictionary.target.size := by
  rw [← ht (max rounds s.dictionary.main.size) (le_max_left _ _), h.migrateFor_eq]
  have hle := le_max_right rounds s.dictionary.main.size
  exact (migrateRounds_ends s.rules _ 0 h.shape h.walks hf (by omega)).2

/-- As many rounds as the main array has buckets are time enough. -/
theorem Fit.hasTime (h : s.Fit) {rounds : Nat} (hle : s.dictionary.main.size ≤ rounds) :
    s.HasTime rounds := by
  intro more hmore
  rw [h.migrateFor_eq, h.migrateFor_eq]
  rcases hf : s.dictionary.frontier with _ | i
  · have hnothing : s.dictionary.migrateRounds s.rules rounds 0 = (false, s.dictionary) := by
      cases rounds <;> rw [migrateRounds, migrate_of_frontier_none _ hf]
    exact migrateRounds_of_le _ (by rw [hnothing]) hmore
  · exact migrateRounds_of_le _
      (migrateRounds_ends s.rules _ 0 h.shape h.walks hf (by omega)).1 hmore

/-! ## Filling -/

/-- Nothing is left to do: nothing moves, and the table is of the least size or filled. -/
structure Settled (s : Store σ) : Prop where
  still : s.dictionary.migrating = false
  filled : s.dictionary.slots ≤ Buckets.leastSize ∨
    leastFill ≤ s.dictionary.size * 100 / s.dictionary.slots

theorem settled_iff : s.Settled ↔
    s.dictionary.migrating = false ∧ isSparse s.dictionary = false := by
  have hsparse : isSparse s.dictionary = false ↔ s.dictionary.slots ≤ Buckets.leastSize ∨
      leastFill ≤ s.dictionary.size * 100 / s.dictionary.slots := by
    rw [isSparse, ← Bool.not_eq_true, Bool.and_eq_true, decide_eq_true_iff, decide_eq_true_iff]
    omega
  rw [hsparse]
  exact ⟨fun h => ⟨h.still, h.filled⟩, fun h => ⟨h.1, h.2⟩⟩

/-- While nothing moves the main array is all there is. -/
theorem Fit.size_eq_used (h : s.Fit) (hf : s.dictionary.frontier = none) :
    s.dictionary.size = s.dictionary.main.used ∧ s.dictionary.slots = s.dictionary.main.size := by
  have hnone := h.shape.settled hf
  rw [Dictionary.size, slots, hnone]
  exact ⟨rfl, rfl⟩

/-- **A table that was made for its entries is not sparse.** -/
theorem Fit.settled_of_size (h : s.Fit) (hf : s.dictionary.frontier = none)
    (hsize : s.dictionary.main.size =
      Buckets.sizeFor (max s.dictionary.size Buckets.leastSize)) : s.Settled := by
  obtain ⟨-, hslots⟩ := h.size_eq_used hf
  refine ⟨migrating_eq_false.mpr hf, ?_⟩
  rw [hslots, hsize]
  by_cases hfew : s.dictionary.size ≤ Buckets.leastSize
  · left
    rw [max_eq_right hfew]
    decide
  · rw [max_eq_left (by omega)]
    refine (Buckets.sizeFor_lt s.dictionary.size).imp Nat.le_of_eq fun hlt => ?_
    obtain ⟨n, -, -, hpower⟩ := Buckets.sizeFor_eq s.dictionary.size
    have hpos : 0 < Buckets.sizeFor s.dictionary.size := hpower ▸ Nat.two_pow_pos n
    rw [Nat.le_div_iff_mul_le hpos, leastFill]
    omega

/-! ## One run -/

theorem upkeep_of_settled (h : s.Settled) : s.upkeep = (false, s) := by
  obtain ⟨hstill, hfilled⟩ := settled_iff.mp h
  rw [upkeep, withDictionary]
  simp only [hstill, hfilled, Bool.false_eq_true, if_false]

/-- While entries are on their way, a run that has time brings all of them to the target. -/
theorem Fit.upkeep_of_migrating (h : s.Fit) (ht : s.HasTime s.rounds) {i : Nat}
    (hf : s.dictionary.frontier = some i) :
    s.upkeep.2.dictionary.frontier = none ∧
      s.upkeep.2.dictionary.main.size = s.dictionary.target.size := by
  have hends := h.migrateFor_ends ht hf
  rw [Store.upkeep, withDictionary]
  dsimp only
  rw [if_pos (migrating_eq_true.mpr ⟨i, hf⟩)]
  exact hends

/-- **The upkeep is not refused** the new size that it asks for, and so it begins to move
entries to an array that is made for them. -/
theorem Fit.upkeep_of_sparse (h : s.Fit) (hr : s.settings.resizing = true)
    (hf : s.dictionary.frontier = none) (hs : isSparse s.dictionary = true) :
    ((s.dictionary.note (.shrinking s.dictionary.size s.dictionary.slots)).shrinkToFit
        s.rules).1 = .ok () ∧
      s.upkeep.2.dictionary.frontier = some 0 ∧
      s.upkeep.2.dictionary.target.size =
        Buckets.sizeFor (max s.dictionary.size Buckets.leastSize) := by
  obtain ⟨hused, hslots⟩ := h.size_eq_used hf
  have hsparse : ¬ s.Settled := fun hsettled =>
    absurd (settled_iff.mp hsettled).2 (by simp [hs])
  have hm : s.dictionary.main.size ≠ 0 := by
    intro hzero
    refine hsparse ⟨migrating_eq_false.mpr hf, .inl ?_⟩
    rw [hslots, hzero]
    exact Nat.zero_le _
  have hother : Buckets.sizeFor (max s.dictionary.main.used Buckets.leastSize) ≠
      s.dictionary.main.size := by
    intro he
    exact hsparse (h.settled_of_size hf (hused ▸ he.symm))
  have hshrink := shrinkToFit_of_other s.rules
    (d := s.dictionary.note (.shrinking s.dictionary.size s.dictionary.slots)) hr hf hm hother
  refine ⟨hshrink.1, ?_⟩
  rw [Store.upkeep, withDictionary]
  dsimp only
  rw [if_neg (by simp [migrating_eq_false.mpr hf]), if_pos hs, shrink]
  have hcount : s.dictionary.size =
      (s.dictionary.note (.shrinking s.dictionary.size s.dictionary.slots)).main.used := hused
  rw [← hcount] at hshrink
  revert hshrink
  rcases (s.dictionary.note _).shrinkToFit s.rules with ⟨_ | _, d⟩
  · rintro ⟨hok, -⟩
    exact absurd hok (by simp)
  · exact And.right

/-! ## A row of runs -/

/-- The store after so many runs of the upkeep, of which run `n` has time for `time n`
rounds. -/
def upkeeps (s : Store σ) (time : Nat → Nat) : Nat → Store σ
  | 0 => s
  | n + 1 => (upkeeps s time n).meet (.upkeep (time n))

theorem Fit.upkeeps (h : s.Fit) (time : Nat → Nat) (n : Nat) : (s.upkeeps time n).Fit := by
  induction n with
  | zero => exact h
  | succ n ih => exact ih.meet _

theorem settings_upkeeps (s : Store σ) (time : Nat → Nat) (n : Nat) :
    (s.upkeeps time n).settings = s.settings := by
  induction n with
  | zero => rfl
  | succ n ih => exact ih

/-- No run adds or removes an entry or changes its value. -/
theorem Fit.perm_upkeeps (h : s.Fit) (time : Nat → Nat) (n : Nat) :
    (s.upkeeps time n).dictionary.toList.Perm s.dictionary.toList := by
  induction n with
  | zero => exact .refl _
  | succ n ih =>
    have hfit := h.upkeeps time n
    have hshifts := (steady_upkeep (s := { s.upkeeps time n with rounds := time n })
      (steady_shifts _ (s.upkeeps time n).dictionary) ⟨hfit.shape, .refl⟩).2
    exact (Shifts.toList_perm hfit.shape hshifts).1.trans ih

/-- A store in which nothing moves is settled now or two runs later. -/
theorem Fit.settled_of_still (h : s.Fit) (hr : s.settings.resizing = true) (t t' : Nat)
    (ht : (s.meet (.upkeep t)).HasTime t') (hf : s.dictionary.frontier = none) :
    s.Settled ∨ ((s.meet (.upkeep t)).meet (.upkeep t')).Settled := by
  by_cases hs : isSparse s.dictionary = true
  · right
    have hfit : ({ s with rounds := t } : Store σ).Fit := ⟨h.shape, h.walks⟩
    obtain ⟨-, hbegun, htarget⟩ := hfit.upkeep_of_sparse hr hf hs
    have hnext : ({ s.meet (.upkeep t) with rounds := t' } : Store σ).Fit :=
      ⟨hfit.upkeep.shape, hfit.upkeep.walks⟩
    obtain ⟨hnone, hmain⟩ := hnext.upkeep_of_migrating ht hbegun
    refine hnext.upkeep.settled_of_size hnone ?_
    rw [hnext.size_upkeep]
    exact (hmain.trans htarget).trans (congrArg (fun n => Buckets.sizeFor (max n _))
      hfit.size_upkeep.symm)
  · exact .inl (settled_iff.mpr ⟨migrating_eq_false.mpr hf, by simpa using hs⟩)

/-- What is settled stays so, and so does the rest of the store. -/
theorem upkeeps_of_settled {time : Nat → Nat} {n m : Nat} (h : (s.upkeeps time n).Settled)
    (hle : n ≤ m) : ∃ t, s.upkeeps time m = { s.upkeeps time n with rounds := t } := by
  -- induction on the runs after the store was settled
  induction m, hle using Nat.le_induction with
  | base => exact ⟨(s.upkeeps time n).rounds, rfl⟩
  | succ m hle ih =>
    obtain ⟨t, ht⟩ := ih
    have hidle : ({ s.upkeeps time n with rounds := time m } : Store σ).upkeep =
        (false, { s.upkeeps time n with rounds := time m }) :=
      upkeep_of_settled ⟨h.still, h.filled⟩
    refine ⟨time m, ?_⟩
    rw [Store.upkeeps, Store.meet, ht]
    exact congrArg Prod.snd hidle

/-- **The upkeep settles.** Take any store that events have made of a new one, with resizing
allowed, and let the upkeep run again and again, at first with as much time as it needs. After
three runs at most nothing moves, and the table has the least size or is filled to ten percent.
From then on every run, whatever its time, says that there is no more to move and changes
nothing. The new size that a run asks for is never refused. All along the entries are the same,
with their values. -/
theorem upkeep_settles (settings : Settings) (rounds : Nat) (g : WordSource σ) (words : σ)
    (events : List Event) (time : Nat → Nat) :
    let s := (empty settings rounds g words).after events
    s.settings.resizing = true → (∀ n < 3, (s.upkeeps time n).HasTime (time n)) →
      (∃ n ≤ 3, (s.upkeeps time n).Settled ∧ ∀ m, n ≤ m → ∀ t,
        ({ s.upkeeps time m with rounds := t } : Store σ).upkeep =
          (false, { s.upkeeps time n with rounds := t })) ∧
      ∀ n, (s.upkeeps time n).dictionary.toList.Perm s.dictionary.toList ∧
        let d := (s.upkeeps time n).dictionary
        d.migrating = false → isSparse d = true →
          ((d.note (.shrinking d.size d.slots)).shrinkToFit s.rules).1 = .ok () := by
  intro s hr ht
  have hfit : s.Fit := (fit_empty settings rounds g words).after events
  have hsettles : ∃ n ≤ 3, (s.upkeeps time n).Settled := by
    rcases hf : s.dictionary.frontier with _ | i
    · rcases hfit.settled_of_still hr (time 0) (time 1) (ht 1 (by decide)) hf with h | h
      · exact ⟨0, by decide, h⟩
      · exact ⟨2, by decide, h⟩
    · -- the first run ends the moves that are under way
      have hfirst : ({ s with rounds := time 0 } : Store σ).Fit := ⟨hfit.shape, hfit.walks⟩
      have hnone := (hfirst.upkeep_of_migrating (ht 0 (by decide)) hf).1
      rcases (hfit.upkeeps time 1).settled_of_still hr (time 1) (time 2) (ht 2 (by decide)) hnone
        with h | h
      · exact ⟨1, by decide, h⟩
      · exact ⟨3, by decide, h⟩
  obtain ⟨n, hn, hsettled⟩ := hsettles
  refine ⟨⟨n, hn, hsettled, ?_⟩, fun n => ⟨hfit.perm_upkeeps time n, ?_⟩⟩
  · intro m hle t
    obtain ⟨t', ht'⟩ := upkeeps_of_settled hsettled hle
    rw [ht']
    exact upkeep_of_settled ⟨hsettled.still, hsettled.filled⟩
  · intro d hstill hsparse
    have hsettings := s.settings_upkeeps time n
    have hrules : (s.upkeeps time n).rules = s.rules := by rw [rules, rules, hsettings]
    have hasked := (hfit.upkeeps time n).upkeep_of_sparse (hsettings ▸ hr)
      (migrating_eq_false.mp hstill) hsparse
    rw [hrules] at hasked
    exact hasked.1

/-- Five keys made the table grow to eight buckets, and then they were removed again. One run
begins to shrink the table, and the next one brings it back to four buckets. -/
theorem upkeep_settles_after_five_removals :
    let s := (empty .standard 1 WordSource.splitMix 7).after
      [.request ["set", "a", "1"], .request ["set", "b", "2"], .request ["set", "c", "3"],
        .request ["set", "d", "4"], .request ["set", "e", "5"], .request ["del", "a"],
        .request ["del", "b"], .request ["del", "c"], .request ["del", "d"],
        .request ["del", "e"]]
    s.dictionary.outline = ⟨8, 0, none⟩ ∧
      (s.upkeeps (fun _ => 8) 1).dictionary.outline = ⟨8, 4, some 0⟩ ∧
      (s.upkeeps (fun _ => 8) 2).dictionary.outline = ⟨4, 0, none⟩ ∧
      ∃ n ≤ 3, (s.upkeeps (fun _ => 8) n).Settled := by
  intro s
  have hfit : s.Fit := (fit_empty .standard 1 WordSource.splitMix 7).after _
  have hsize : ∀ n < 3, (s.upkeeps (fun _ => 8) n).dictionary.main.size ≤ 8 := by
    decide +kernel
  obtain ⟨⟨n, hn, hsettled, -⟩, -⟩ := upkeep_settles .standard 1 WordSource.splitMix 7
    _ (fun _ => 8) (by decide +kernel) fun n hn => (hfit.upkeeps _ n).hasTime (hsize n hn)
  exact ⟨by decide +kernel, by decide +kernel, by decide +kernel, n, hn, hsettled⟩

end Store

end Service

end TwinTable
