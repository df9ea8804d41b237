/-
The machinery is made of shifts.

`run` is a loop over buckets with two budgets. Seen from the dictionary it is a row of
shifts: passes over empty buckets, then a chain that moves, and so on, and a landing if
the main array has become empty (`shifts_run`). The induction is on the number of buckets
asked for; what it carries is that the layout is sound, since that is what keeps the next
bucket to move inside the array. Everything else that the dictionary does on its own, one
bucket on the side, rounds under a clock, a new size on request or before an insertion, is
put together from `migrate`, `expand` and notices. So what these three keep all of it keeps
(`Steady`), and that all of it is shifts is one instance. What `expand` does not keep is still
kept by all that is put together from the other two (`Steadfast`).
-/
import TwinTable.Dictionary.Pick
import TwinTable.Proofs.Dictionary.Layout

set_option autoImplicit false

namespace TwinTable

/-! ## One run of moves -/

namespace Passage

variable {κ ν : Type} {hash : κ → UInt64}

/-- Where passing over empty buckets ends: so many buckets further as the allowance shrank,
with nothing in between, and at a chain unless the allowance ran out. -/
theorem passEmpty_spec (t : Buckets κ ν) : ∀ allowance next,
    (passEmpty t allowance next).1 + (passEmpty t allowance next).2 = next + allowance ∧
    next ≤ (passEmpty t allowance next).1 ∧
    (∀ j, next ≤ j → j < (passEmpty t allowance next).1 → t.chain j = []) ∧
    ((passEmpty t allowance next).2 ≠ 0 → t.chain (passEmpty t allowance next).1 ≠ []) := by
  intro allowance
  -- induction on the allowance, which goes down as the bucket goes up: their sum stays
  induction allowance with
  | zero =>
    intro next
    exact ⟨rfl, le_refl _, fun j h₁ h₂ => absurd h₂ (by simp only [passEmpty]; omega),
      fun h => absurd rfl h⟩
  | succ allowance ih =>
    intro next
    rw [passEmpty]
    by_cases hc : (t.chain next).isEmpty
    · rw [if_pos hc]
      obtain ⟨hsum, hle, hbetween, hstop⟩ := ih (next + 1)
      refine ⟨by omega, by omega, ?_, hstop⟩
      intro j h₁ h₂
      rcases Nat.eq_or_lt_of_le h₁ with rfl | hlt
      · exact List.isEmpty_iff.mp hc
      · exact hbetween j hlt h₂
    · rw [if_neg hc]
      refine ⟨rfl, le_refl _, fun j h₁ h₂ => absurd h₂ (by dsimp only; omega), fun _ => ?_⟩
      intro hnil
      exact hc (List.isEmpty_iff.mpr hnil)

/-- A run ends as soon as the main array is empty. -/
theorem run_of_used_eq_zero {p : Passage κ ν} (h : p.source.used = 0) (n allowance : Nat) :
    run hash n allowance p = p := by
  cases n with
  | zero => rfl
  | succ n => rw [run, if_pos h]

/-- A run leaves the sizes of both arrays, and goes on by a bucket at least if there is
something to move and it may move at all. -/
theorem run_spec (hash : κ → UInt64) : ∀ (n allowance : Nat) (p : Passage κ ν),
    (run hash n allowance p).source.size = p.source.size ∧
      (run hash n allowance p).target.size = p.target.size ∧
      p.next ≤ (run hash n allowance p).next ∧
      (n ≠ 0 → allowance ≠ 0 → p.source.used ≠ 0 → p.next < (run hash n allowance p).next) := by
  intro n
  -- induction on the buckets asked for: before each there may be empty ones, after each there
  -- is one that moved
  induction n with
  | zero => exact fun _ p => ⟨rfl, rfl, le_refl _, fun h => absurd rfl h⟩
  | succ n ih =>
    intro allowance p
    by_cases hu : p.source.used = 0
    · rw [run_of_used_eq_zero hu]
      exact ⟨rfl, rfl, le_refl _, fun _ _ h => absurd hu h⟩
    · obtain ⟨hsum, hle, -, -⟩ := passEmpty_spec p.source allowance p.next
      rw [run, if_neg hu]
      revert hsum hle
      rcases passEmpty p.source allowance p.next with ⟨next, left⟩
      intro hsum hle
      dsimp only at hsum hle
      cases left with
      | zero => exact ⟨rfl, rfl, hle, fun _ ha _ => by dsimp only; omega⟩
      | succ left =>
        obtain ⟨hsource, htarget, hnext, -⟩ :=
          ih (left + 1) (moveBucket hash ⟨p.source, p.target, next⟩)
        have hpast : p.next < (run hash n (left + 1)
            (moveBucket hash ⟨p.source, p.target, next⟩)).next :=
          Nat.lt_of_lt_of_le (Nat.lt_succ_of_le hle) hnext
        exact ⟨hsource.trans (Buckets.size_clearBucket _ _), htarget.trans (size_moveChain _ _ _),
          Nat.le_of_lt hpast, fun _ _ _ => hpast⟩

end Passage

namespace Dictionary

variable {κ ν : Type}

/-- The dictionary with a passage that is under way. -/
def under (d : Dictionary κ ν) (p : Passage κ ν) : Dictionary κ ν :=
  { d with main := p.source, target := p.target, frontier := some p.next }

/-- Passing over empty buckets, one shift for each. -/
theorem shifts_passEmpty {hash : κ → UInt64} : ∀ (allowance : Nat) (d : Dictionary κ ν)
    (next : Nat), d.walks = 0 → d.frontier = some next → d.main.used ≠ 0 →
    Shifts hash d
      { d with frontier := some (Passage.passEmpty d.main allowance next).1 } := by
  intro allowance
  induction allowance with
  | zero =>
    intro d next _ hf _
    rw [Passage.passEmpty, ← hf]
  | succ allowance ih =>
    intro d next hw hf hu
    rw [Passage.passEmpty]
    by_cases hc : (d.main.chain next).isEmpty
    · rw [if_pos hc]
      have hpass : Shift hash d { d with frontier := some (next + 1) } :=
        .pass hw hf hu (List.isEmpty_iff.mp hc)
      exact .head hpass (ih { d with frontier := some (next + 1) } (next + 1) hw rfl hu)
    · rw [if_neg hc, ← hf]

/-- Landing with the main array empty puts the target in its place. -/
theorem land_of_used_eq_zero (d : Dictionary κ ν) {p : Passage κ ν} (h : p.source.used = 0) :
    d.land p = (false, { d with
      main := p.target, target := .unallocated, frontier := none }.note
        (.migrationFinished p.target.size p.target.used)) := by
  rw [land, if_pos h]

/-- Landing with entries left in the main array leaves the frontier where the run has come to. -/
theorem land_of_used_ne_zero (d : Dictionary κ ν) {p : Passage κ ν} (h : p.source.used ≠ 0) :
    d.land p = (true, d.under p) := by
  rw [land, if_neg h]
  rfl

/-- A passage that goes no further is taken in by shifts. -/
theorem shifts_land {hash : κ → UInt64} {d : Dictionary κ ν} (hw : d.walks = 0)
    (p : Passage κ ν) : Shifts hash (d.under p) (d.land p).2 := by
  by_cases hu : p.source.used = 0
  · rw [land_of_used_eq_zero d hu]
    exact .head (.land (i := p.next) hw rfl hu) (shifts_note _ _)
  · rw [land_of_used_ne_zero d hu]

/-- **A run is a row of shifts.** -/
theorem shifts_run {hash : κ → UInt64} {d : Dictionary κ ν} (hw : d.walks = 0) :
    ∀ (n allowance : Nat) (p : Passage κ ν), (d.under p).Shape →
      Shifts hash (d.under p) (d.land (Passage.run hash n allowance p)).2 := by
  intro n
  -- induction on the buckets asked for, with a sound layout before each of them
  induction n with
  | zero =>
    intro allowance p _
    rw [Passage.run]
    exact shifts_land hw p
  | succ n ih =>
    intro allowance p hp
    by_cases hu : p.source.used = 0
    · rw [Passage.run_of_used_eq_zero hu]
      exact shifts_land hw p
    · rw [Passage.run, if_neg hu]
      have hpass : Shifts hash (d.under p)
          (d.under { p with next := (Passage.passEmpty p.source allowance p.next).1 }) :=
        shifts_passEmpty allowance (d.under p) p.next hw rfl hu
      have hstop := (Passage.passEmpty_spec p.source allowance p.next).2.2.2
      revert hpass hstop
      rcases Passage.passEmpty p.source allowance p.next with ⟨next, left⟩
      intro hpass hstop
      -- the run ends here if the allowance ran out, and else moves the chain it stopped at
      cases left with
      | zero =>
        exact hpass.trans (shifts_land hw _)
      | succ left =>
        have hnext := hp.shifts hpass
        have hle : (p.source.chain next).length ≤ p.source.used := hnext.main.length_chain_le next
        refine hpass.trans ?_
        by_cases hlast : (p.source.chain next).length = p.source.used
        · -- the chain was the last one: the run ends, and landing takes it in
          have hempty : (Passage.moveBucket hash { p with next := next }).source.used = 0 := by
            change p.source.used - (p.source.chain next).length = 0
            omega
          dsimp only
          rw [Passage.run_of_used_eq_zero hempty, land_of_used_eq_zero d hempty]
          exact .head (.moveLast (i := next) hw rfl hlast) (shifts_note _ _)
        · have hmove : Shift hash (d.under { p with next := next })
              (d.under (Passage.moveBucket hash { p with next := next })) :=
            .move (i := next) hw rfl (hstop (Nat.succ_ne_zero left))
              (Nat.lt_of_le_of_ne hle hlast)
          exact .head hmove (ih (left + 1) _ (hnext.shift hmove))

/-! ## Moving on request and on the side -/

variable (r : Rules κ ν)

/-- There is nothing to move if nothing is on the move. -/
theorem migrate_of_frontier_none {d : Dictionary κ ν} (h : d.frontier = none) (n : Nat) :
    d.migrate r n = (false, d) := by
  rw [migrate, h]

/-- Open safe walks hold moving back, and it says that there is more to do. -/
theorem migrate_of_walks_pos {d : Dictionary κ ν} {i : Nat} (h : d.frontier = some i)
    (hw : d.walks ≠ 0) (n : Nat) : d.migrate r n = (true, d) := by
  rw [migrate, h]
  exact if_pos (Nat.pos_of_ne_zero hw)

/-- While nothing holds it back, moving is one run and its landing. -/
theorem migrate_of_frontier_some {d : Dictionary κ ν} {i : Nat} (h : d.frontier = some i)
    (hw : d.walks = 0) (n : Nat) :
    d.migrate r n =
      d.land (Passage.run r.hash n (emptyPerBucket * n) ⟨d.main, d.target, i⟩) := by
  rw [migrate, h]
  simp only [hw, gt_iff_lt, Nat.lt_irrefl, if_false]
  by_cases hu : (Passage.run r.hash n (emptyPerBucket * n) ⟨d.main, d.target, i⟩).source.used = 0
  · rw [land_of_used_eq_zero _ hu, land_of_used_eq_zero _ hu]
    simp only [hw]
  · rw [land_of_used_ne_zero _ hu, land_of_used_ne_zero _ hu]
    simp only [under, hw]

/-- What moving answers is whether there is more to move. -/
theorem migrate_fst (d : Dictionary κ ν) (n : Nat) :
    (d.migrate r n).1 = (d.migrate r n).2.migrating := by
  rcases hf : d.frontier with _ | i
  · rw [migrate_of_frontier_none r hf, migrating, hf]
    rfl
  · by_cases hw : d.walks = 0
    · rw [migrate_of_frontier_some r hf hw]
      -- however far the run came, landing says whether anything is left
      generalize Passage.run r.hash n _ _ = p
      by_cases hu : p.source.used = 0
      · rw [land_of_used_eq_zero d hu]
        rfl
      · rw [land_of_used_ne_zero d hu]
        rfl
    · rw [migrate_of_walks_pos r hf hw, migrating, hf]
      rfl

/-- **Moving is a row of shifts**, one for each bucket that is passed or moved, and a landing if
nothing is left. -/
theorem shifts_migrate {d : Dictionary κ ν} (hd : d.Shape) (n : Nat) :
    Shifts r.hash d (d.migrate r n).2 := by
  rcases hf : d.frontier with _ | i
  · rw [migrate_of_frontier_none r hf]
  · by_cases hw : d.walks = 0
    · have hself : d.under ⟨d.main, d.target, i⟩ = d := by
        rw [under, ← hf]
      rw [migrate_of_frontier_some r hf hw]
      have hrun : Shifts r.hash (d.under ⟨d.main, d.target, i⟩) _ :=
        shifts_run hw n (emptyPerBucket * n) ⟨d.main, d.target, i⟩ (hself.symm ▸ hd)
      rwa [hself] at hrun
    · rw [migrate_of_walks_pos r hf hw]

/-- **What moving does.** No entry comes or goes. Either all have moved, and the target has
become the main array, or the frontier has gone on, by a bucket at least if any were asked
for. -/
theorem migrate_cases {d : Dictionary κ ν} (hd : d.Shape) (hw : d.walks = 0) {i : Nat}
    (hf : d.frontier = some i) (n : Nat) :
    (d.migrate r n).2.walks = 0 ∧ (d.migrate r n).2.size = d.size ∧
      ((d.migrate r n).2.frontier = none ∧ (d.migrate r n).2.main.size = d.target.size ∨
        ∃ j, (d.migrate r n).2.frontier = some j ∧ i ≤ j ∧ (n ≠ 0 → i < j) ∧
          (d.migrate r n).2.main.size = d.main.size ∧
          (d.migrate r n).2.target.size = d.target.size) := by
  have hsize := size_of_shifts hd (shifts_migrate r hd n)
  obtain ⟨hsource, htarget, hle, hlt⟩ :=
    Passage.run_spec r.hash n (emptyPerBucket * n) ⟨d.main, d.target, i⟩
  rw [migrate_of_frontier_some r hf hw] at hsize ⊢
  by_cases hu : (Passage.run r.hash n (emptyPerBucket * n) ⟨d.main, d.target, i⟩).source.used = 0
  · rw [land_of_used_eq_zero d hu] at hsize ⊢
    exact ⟨hw, hsize, .inl ⟨rfl, htarget⟩⟩
  · rw [land_of_used_ne_zero d hu] at hsize ⊢
    refine ⟨hw, hsize, .inr ⟨_, rfl, hle, fun hn => ?_, hsource, htarget⟩⟩
    -- had there been nothing to move, the run would have left it so
    have hfirst : d.main.used ≠ 0 := by
      intro hzero
      rw [Passage.run_of_used_eq_zero (by exact hzero)] at hu
      exact hu hzero
    exact hlt hn (Nat.mul_ne_zero (by decide) hn) hfirst

/-! ## New sizes -/

theorem migrating_eq_false {d : Dictionary κ ν} : d.migrating = false ↔ d.frontier = none := by
  rw [migrating, Option.isSome_eq_false_iff, Option.isNone_iff_eq_none]

theorem migrating_eq_true {d : Dictionary κ ν} :
    d.migrating = true ↔ ∃ i, d.frontier = some i := by
  rw [migrating, Option.isSome_iff_exists]

theorem isAllocated_eq_true {t : Buckets κ ν} : t.isAllocated = true ↔ t.size ≠ 0 := by
  rw [Buckets.isAllocated, decide_eq_true_iff]

/-- A new size either is refused, and nothing changes, or is a shift and a notice. -/
theorem shifts_expand {hash : κ → UInt64} (d : Dictionary κ ν) (size : Nat) :
    Shifts hash d (d.expand size).2 := by
  rw [expand]
  by_cases hm : d.migrating = true
  · rw [if_pos hm]
  · have hf : d.frontier = none := migrating_eq_false.mp (by simpa using hm)
    rw [if_neg hm]
    by_cases hrefused : (d.main.used > size || Buckets.sizeFor size = d.main.size) = true
    · rw [if_pos hrefused]
    · rw [if_neg hrefused]
      simp only [Bool.or_eq_true, decide_eq_true_eq, not_or, not_lt] at hrefused
      obtain ⟨hused, hother⟩ := hrefused
      by_cases ha : d.main.isAllocated = true
      · rw [if_pos ha]
        exact .head (.begin size hf (isAllocated_eq_true.mp ha) hused hother) (shifts_note _ _)
      · rw [if_neg ha]
        have hsize : d.main.size = 0 := by
          by_contra hne
          exact ha (isAllocated_eq_true.mpr hne)
        exact .head (.first size hf hsize) (shifts_note _ _)

/-- A new size leaves an allocated main array as it is. -/
theorem main_expand {d : Dictionary κ ν} (h : d.main.size ≠ 0) (size : Nat) :
    (d.expand size).2.main = d.main := by
  rw [expand]
  split_ifs with hm hrefused ha
  · rfl
  · rfl
  · rfl
  · exact absurd (isAllocated_eq_true.mpr h) ha

/-- Nothing has moved yet when entries begin to. -/
theorem frontier_expand (d : Dictionary κ ν) (size : Nat) :
    (d.expand size).2.frontier = d.frontier ∨
      d.frontier = none ∧ (d.expand size).2.frontier = some 0 := by
  rw [expand]
  split_ifs with hm hrefused ha
  · exact .inl rfl
  · exact .inl rfl
  · exact .inr ⟨migrating_eq_false.mp (by simpa using hm), rfl⟩
  · exact .inl rfl

/-- What notices and new sizes keep, the growth before an insertion keeps. -/
theorem growIfNeeded_of {P : Dictionary κ ν → Prop}
    (hnote : ∀ {d : Dictionary κ ν} (n : Notice), P d → P (d.note n))
    (hnew : ∀ {d : Dictionary κ ν} (size : Nat), P d → P (d.expand size).2)
    {d : Dictionary κ ν} (h : P d) : P (d.growIfNeeded r) := by
  have hexpand : ∀ (size : Nat) (result : Except Fault Unit) (d' : Dictionary κ ν),
      d.expand size = (result, d') → P d' := by
    intro size result d' he
    have h' := hnew size h
    rwa [he] at h'
  rw [growIfNeeded]
  split_ifs
  · exact h
  · split
    · exact hexpand _ _ _ ‹_›
    · exact hnote _ (hexpand _ _ _ ‹_›)
  · exact h
  · exact hnote _ h
  · split
    · exact hexpand _ _ _ ‹_›
    · exact hnote _ (hexpand _ _ _ ‹_›)
  · exact hnote _ h

/-! ## What the machinery keeps -/

/-- What moving entries and a notice keep: all that a dictionary does on the side. -/
structure Steadfast (r : Rules κ ν) (P : Dictionary κ ν → Prop) : Prop where
  migrate : ∀ {d : Dictionary κ ν} (n : Nat), P d → P (d.migrate r n).2
  note : ∀ {d : Dictionary κ ν} (n : Notice), P d → P (d.note n)

/-- What new sizes keep besides. All that a dictionary does on its own, beside what it was
asked for, is made of these three. -/
structure Steady (r : Rules κ ν) (P : Dictionary κ ν → Prop) : Prop extends Steadfast r P where
  expand : ∀ {d : Dictionary κ ν} (size : Nat), P d → P (d.expand size).2

namespace Steadfast

variable {r : Rules κ ν} {P : Dictionary κ ν → Prop} (hP : Steadfast r P) {d : Dictionary κ ν}
include hP

theorem migrateStep (h : P d) : P (d.migrateStep r) := by
  rw [Dictionary.migrateStep]
  split
  · exact hP.migrate 1 h
  · exact h

theorem migrateSteps : ∀ (n : Nat) {d : Dictionary κ ν}, P d → P (d.migrateSteps r n) := by
  intro n
  induction n with
  | zero => intro d h; exact h
  | succ n ih =>
    intro d h
    rw [Dictionary.migrateSteps]
    split
    · exact ih (hP.migrateStep h)
    · exact h

/-- Each round moves a number of buckets; the last one may be followed by a notice. -/
theorem migrateRounds : ∀ (rounds moved : Nat) {d : Dictionary κ ν}, P d →
    P (d.migrateRounds r rounds moved).2 := by
  intro rounds
  induction rounds with
  | zero =>
    intro moved d h
    have hround := hP.migrate bucketsPerRound h
    rw [Dictionary.migrateRounds]
    revert hround
    rcases d.migrate r bucketsPerRound with ⟨more, d'⟩
    intro hround
    cases more with
    | false => exact hround
    | true => exact hP.note _ hround
  | succ rounds ih =>
    intro moved d h
    have hround := hP.migrate bucketsPerRound h
    rw [Dictionary.migrateRounds]
    revert hround
    rcases d.migrate r bucketsPerRound with ⟨more, d'⟩
    intro hround
    cases more with
    | false => exact hround
    | true => exact ih _ hround

theorem migrateFor (rounds : Nat) (h : P d) : P (d.migrateFor r rounds).2 := by
  rw [Dictionary.migrateFor]
  split
  · exact h
  · exact hP.migrateRounds rounds 0 h

theorem find (k : κ) (h : P d) : P (d.find r k).2 := by
  rw [Dictionary.find]
  split
  · exact h
  · exact hP.migrateStep h

variable {σ : Type} (g : WordSource σ)

/-- Of a draw only the move in front of it changes anything. -/
theorem pick (words : σ) (h : P d) : P (d.pick g r words).2.2 := by
  rw [Dictionary.pick]
  split
  · exact h
  · dsimp only
    split <;> exact hP.migrateStep h

theorem pickFairly (words : σ) (h : P d) : P (d.pickFairly g r words).2.2 := by
  rw [Dictionary.pickFairly]
  split
  · exact h
  · dsimp only
    split <;> exact hP.migrateStep h

/-- A sample moves as many buckets along as it is to take entries. -/
theorem sample (count : Nat) (words : σ) (h : P d) : P (d.sample g r count words).2.2 := by
  rw [Dictionary.sample]
  dsimp only
  split
  · exact h
  · exact hP.migrateSteps _ h

end Steadfast

namespace Steady

variable {r : Rules κ ν} {P : Dictionary κ ν → Prop} (hP : Steady r P) {d : Dictionary κ ν}
include hP

theorem resizeTo (size : Nat) (h : P d) : P (d.resizeTo r size).2 := by
  rw [Dictionary.resizeTo]
  split
  · exact hP.expand size h
  · exact h

theorem growIfNeeded (h : P d) : P (d.growIfNeeded r) :=
  growIfNeeded_of r hP.note hP.expand h

end Steady

/-! ## All of it is shifts -/

/-- The machinery goes from a sound layout to another by shifts. -/
theorem steady_shifts (d : Dictionary κ ν) :
    Steady r fun d' => d'.Shape ∧ Shifts r.hash d d' := by
  have htrans : ∀ {d' d'' : Dictionary κ ν}, Shifts r.hash d' d'' →
      d'.Shape ∧ Shifts r.hash d d' → d''.Shape ∧ Shifts r.hash d d'' :=
    fun hmore h => ⟨h.1.shifts hmore, h.2.trans hmore⟩
  refine ⟨⟨?_, ?_⟩, ?_⟩
  · intro d' n h
    exact htrans (shifts_migrate r h.1 n) h
  · intro d' n h
    exact htrans (shifts_note d' n) h
  · intro d' size h
    exact htrans (shifts_expand d' size) h

section Shifts

variable {r} {d : Dictionary κ ν} (hd : d.Shape)
include hd

theorem shifts_migrateStep : Shifts r.hash d (d.migrateStep r) :=
  ((steady_shifts r d).migrateStep ⟨hd, .refl⟩).2

theorem shifts_migrateFor (rounds : Nat) : Shifts r.hash d (d.migrateFor r rounds).2 :=
  ((steady_shifts r d).migrateFor rounds ⟨hd, .refl⟩).2

theorem shifts_resizeTo (size : Nat) : Shifts r.hash d (d.resizeTo r size).2 :=
  ((steady_shifts r d).resizeTo size ⟨hd, .refl⟩).2

theorem shifts_growIfNeeded : Shifts r.hash d (d.growIfNeeded r) :=
  ((steady_shifts r d).growIfNeeded ⟨hd, .refl⟩).2

theorem shifts_find (k : κ) : Shifts r.hash d (d.find r k).2 :=
  ((steady_shifts r d).find k ⟨hd, .refl⟩).2

variable {σ : Type} (g : WordSource σ)

theorem shifts_pick (words : σ) : Shifts r.hash d (d.pick g r words).2.2 :=
  ((steady_shifts r d).pick g words ⟨hd, .refl⟩).2

theorem shifts_pickFairly (words : σ) : Shifts r.hash d (d.pickFairly g r words).2.2 :=
  ((steady_shifts r d).pickFairly g words ⟨hd, .refl⟩).2

theorem shifts_sample (count : Nat) (words : σ) :
    Shifts r.hash d (d.sample g r count words).2.2 :=
  ((steady_shifts r d).sample g count words ⟨hd, .refl⟩).2

end Shifts

end Dictionary

end TwinTable
