/-
How far entries move at a time.

A run of moves has two budgets: how many chains it may move, and how many empty buckets it may
pass. Both are used up from the front of the main array, so what a run does is to cross a row
of buckets, from the frontier to where it stops (`Passage.Crosses`). Crossings put end to end
are a crossing, and their budgets add up; so one bucket that is passed or moved gives the whole
run by induction.

From this it follows what `migrate n` does to a dictionary (`Dictionary.migrate_crosses`): it
ends the migration, or it crosses `n` buckets at least and fewer than `11 * n`, all of them
empty from then on. As for operations that are not about moving, each moves on by one crossing
of budget one before it turns to its key, and all else that it does leaves the frontier where
it is, or begins a migration of its own (`Dictionary.Advanced`).
-/
import TwinTable.Proofs.Dictionary.LinkedInvariant
import TwinTable.Proofs.Dictionary.HeldLayout

set_option autoImplicit false

namespace TwinTable

variable {κ ν : Type}

/-! ## Rows of buckets -/

namespace Buckets

/-- How many buckets of a row, from one up to another, hold something. -/
def filled (t : Buckets κ ν) (i j : Nat) : Nat :=
  (List.range' i (j - i)).countP fun b => !(t.chain b).isEmpty

theorem filled_self (t : Buckets κ ν) (i : Nat) : t.filled i i = 0 := by
  rw [filled, Nat.sub_self]
  rfl

theorem filled_add (t : Buckets κ ν) {i j k : Nat} (hij : i ≤ j) (hjk : j ≤ k) :
    t.filled i k = t.filled i j + t.filled j k := by
  have hrow := List.range'_append_1 (s := i) (m := j - i) (n := k - j)
  rw [Nat.add_sub_cancel' hij] at hrow
  rw [filled, filled, filled, ← List.countP_append, hrow, show j - i + (k - j) = k - i by omega]

theorem filled_congr {t t' : Buckets κ ν} {i j : Nat}
    (h : ∀ b, i ≤ b → b < j → t'.chain b = t.chain b) : t'.filled i j = t.filled i j := by
  rw [filled, filled]
  refine List.countP_congr ?_
  intro b hb
  rw [List.mem_range'_1] at hb
  rw [h b hb.1 (by omega)]

theorem filled_eq_zero {t : Buckets κ ν} {i j : Nat}
    (h : ∀ b, i ≤ b → b < j → t.chain b = []) : t.filled i j = 0 := by
  rw [filled, List.countP_eq_zero]
  intro b hb
  rw [List.mem_range'_1] at hb
  rw [h b hb.1 (by omega)]
  simp

theorem filled_succ_le (t : Buckets κ ν) (i : Nat) : t.filled i (i + 1) ≤ 1 := by
  rw [filled, Nat.add_sub_cancel_left]
  exact List.countP_le_length

/-- There is nothing to empty past the end. -/
theorem clearBucket_of_size_le {t : Buckets κ ν} {i : Nat} (h : t.size ≤ i) :
    t.clearBucket i = t := by
  have hchains : t.chains.modify i (fun _ => []) = t.chains := by
    refine Array.ext (Array.size_modify ..) ?_
    intro j _ hj
    have hne : i ≠ j := by
      have hle : t.chains.size ≤ i := h
      omega
    rw [Array.getElem_modify, if_neg hne]
  rw [clearBucket, chain_eq_nil h]
  simp only [hchains, List.length_nil, Nat.sub_zero]

end Buckets

/-! ## Crossings -/

namespace Passage

open Buckets

variable {hash : κ → UInt64} {p q q' : Passage κ ν} {chains buckets chains' buckets' : Nat}

/-- From one passage to another a row of buckets is crossed, of which so many at most held
something; they are empty then, and no other bucket of the source has changed. -/
structure Crosses (chains buckets : Nat) (p q : Passage κ ν) : Prop where
  onward : p.next ≤ q.next
  near : q.next ≤ p.next + buckets
  spent : p.source.filled p.next q.next ≤ chains
  crossed : ∀ b, p.next ≤ b → b < q.next → q.source.chain b = []
  rest : ∀ b, b < p.next ∨ q.next ≤ b → q.source.chain b = p.source.chain b
  source : p.source.Same q.source
  target : p.target.Same q.target
  sound : p.source.Sound → q.source.Sound

theorem Crosses.refl (chains buckets : Nat) (p : Passage κ ν) : Crosses chains buckets p p where
  onward := le_refl _
  near := Nat.le_add_right _ _
  spent := by
    rw [filled_self]
    exact Nat.zero_le _
  crossed b hle hlt := absurd hlt (by omega)
  rest _ _ := rfl
  source := .refl _
  target := .refl _
  sound := id

theorem Crosses.mono (h : Crosses chains buckets p q) (hc : chains ≤ chains')
    (hb : buckets ≤ buckets') : Crosses chains' buckets' p q where
  onward := h.onward
  near := h.near.trans (Nat.add_le_add_left hb _)
  spent := h.spent.trans hc
  crossed := h.crossed
  rest := h.rest
  source := h.source
  target := h.target
  sound := h.sound

/-- **Crossings put end to end are a crossing**, and the budgets add up. -/
theorem Crosses.trans (h : Crosses chains buckets p q) (h' : Crosses chains' buckets' q q') :
    Crosses (chains + chains') (buckets + buckets') p q' where
  onward := h.onward.trans h'.onward
  near := by
    have := h.near
    have := h'.near
    omega
  spent := by
    rw [p.source.filled_add h.onward h'.onward]
    have hsecond : p.source.filled q.next q'.next = q.source.filled q.next q'.next :=
      filled_congr fun b hle _ => (h.rest b (.inr hle)).symm
    rw [hsecond]
    exact Nat.add_le_add h.spent h'.spent
  crossed := by
    intro b hle hlt
    by_cases hb : b < q.next
    · rw [h'.rest b (.inl hb)]
      exact h.crossed b hle hb
    · exact h'.crossed b (by omega) hlt
  rest := by
    intro b hb
    have := h.onward
    have := h'.onward
    rw [h'.rest b (by omega), h.rest b (by omega)]
  source := h.source.trans h'.source
  target := h.target.trans h'.target
  sound := h'.sound ∘ h.sound

/-- Passing over empty buckets. -/
theorem crosses_passEmpty (p : Passage κ ν) (allowance : Nat) :
    Crosses 0 (allowance - (passEmpty p.source allowance p.next).2) p
      { p with next := (passEmpty p.source allowance p.next).1 } := by
  obtain ⟨hsum, hle, hbetween, -⟩ := passEmpty_spec p.source allowance p.next
  refine ⟨hle, ?_, (filled_eq_zero hbetween).le, hbetween, fun _ _ => rfl, .refl _, .refl _, id⟩
  dsimp only
  omega

/-- Moving one bucket. -/
theorem crosses_moveBucket (p : Passage κ ν) : Crosses 1 1 p (moveBucket hash p) where
  onward := Nat.le_succ _
  near := le_refl _
  spent := filled_succ_le _ _
  crossed := by
    intro b hle hlt
    obtain rfl : p.next = b := Nat.le_antisymm hle (Nat.lt_succ_iff.mp hlt)
    change (p.source.clearBucket p.next).chain p.next = []
    rw [chain_clearBucket]
    split
    · rfl
    · rename_i hpast
      exact chain_eq_nil (by omega)
  rest := by
    intro b hb
    change (p.source.clearBucket p.next).chain b = _
    have hne : p.next ≠ b := by
      change b < p.next ∨ p.next + 1 ≤ b at hb
      omega
    rw [chain_clearBucket, if_neg (fun h => hne h.1)]
  source := same_clearBucket _ _
  target := same_moveChain hash _ _
  sound := by
    intro hsound
    change (p.source.clearBucket p.next).Sound
    by_cases hnext : p.next < p.source.size
    · exact hsound.clearBucket hnext
    · rwa [clearBucket_of_size_le (by omega)]

/-- **A run is a crossing.** It moves `n` chains at most, and an allowance that is not used up
has a bucket left at least. If it leaves something behind, it has crossed `n` buckets, or spent
the allowance. -/
theorem crosses_run (hash : κ → UInt64) : ∀ (n allowance : Nat) (p : Passage κ ν), allowance ≠ 0 →
    Crosses n (n + allowance - 1) p (run hash n allowance p) ∧
      ((run hash n allowance p).source.used ≠ 0 →
        p.next + min n allowance ≤ (run hash n allowance p).next) := by
  intro n
  -- induction on the chains that may be moved: empty buckets are passed before each of them
  induction n with
  | zero => exact fun allowance p _ => ⟨.refl _ _ p, fun _ => by rw [Nat.zero_min]; rfl⟩
  | succ n ih =>
    intro allowance p ha
    by_cases hu : p.source.used = 0
    · rw [run_of_used_eq_zero hu]
      exact ⟨.refl _ _ p, fun h => absurd hu h⟩
    · rw [run, if_neg hu]
      have hpass := crosses_passEmpty p allowance
      have hsum := (passEmpty_spec p.source allowance p.next).1
      revert hpass hsum
      rcases passEmpty p.source allowance p.next with ⟨next, left⟩
      intro hpass hsum
      have hle : p.next ≤ next := hpass.onward
      dsimp only at hpass hsum
      cases left with
      | zero => exact ⟨hpass.mono (by omega) (by omega), fun _ => by dsimp only; omega⟩
      | succ left =>
        dsimp only
        obtain ⟨hrun, hfar⟩ := ih (left + 1) (moveBucket hash { p with next := next })
          (Nat.succ_ne_zero left)
        refine ⟨((hpass.trans (crosses_moveBucket _)).trans hrun).mono (by omega) (by omega), ?_⟩
        intro hleft
        have hnext := hfar hleft
        change next + 1 + min n (left + 1) ≤ _ at hnext
        omega

end Passage

namespace Dictionary

/-! ## One call -/

variable {r : Rules κ ν} {d d' d'' : Dictionary κ ν} {chains buckets chains' buckets' : Nat}

/-- **What a call to move `n` buckets does.** It crosses a row from the frontier on, of fewer
than `11 * n` buckets with `n` chains at most. Either nothing was left behind the row, and the
target has become the main array; or the frontier stands where the row ends, at least `n`
buckets further on, and what is behind it lies as it lay. -/
theorem migrate_crosses (r : Rules κ ν) (hd : d.Shape) (hw : d.walks = 0) {i n : Nat}
    (hf : d.frontier = some i) (hn : 1 ≤ n) :
    ∃ j, i ≤ j ∧ j ≤ i + (11 * n - 1) ∧ d.main.filled i j ≤ n ∧
      ((d.migrate r n).1 = false ∧ (d.migrate r n).2.frontier = none ∧
          (d.migrate r n).2.target = .unallocated ∧ d.target.Same (d.migrate r n).2.main ∧
          (∀ b, j ≤ b → d.main.chain b = []) ∨
        (d.migrate r n).1 = true ∧ (d.migrate r n).2.frontier = some j ∧ i + n ≤ j ∧
          d.main.Same (d.migrate r n).2.main ∧ d.target.Same (d.migrate r n).2.target ∧
          ∀ b, j ≤ b → (d.migrate r n).2.main.chain b = d.main.chain b) := by
  obtain ⟨hcross, hfar⟩ := Passage.crosses_run r.hash n (emptyPerBucket * n)
    ⟨d.main, d.target, i⟩ (Nat.mul_ne_zero (by decide) (by omega))
  have hshape := hd.shifts (shifts_migrate r hd n)
  rw [migrate_of_frontier_some r hf hw] at hshape ⊢
  revert hcross hfar hshape
  generalize Passage.run r.hash n (emptyPerBucket * n) ⟨d.main, d.target, i⟩ = q
  intro hcross hfar hshape
  have hnear := hcross.near
  dsimp only [emptyPerBucket] at hnear hfar
  refine ⟨q.next, hcross.onward, by omega, hcross.spent, ?_⟩
  by_cases hu : q.source.used = 0
  · rw [land_of_used_eq_zero d hu]
    refine .inl ⟨rfl, rfl, rfl, hcross.target, ?_⟩
    intro b hb
    rw [← hcross.rest b (.inr hb)]
    have hlen := (hcross.sound hd.main).length_chain_le b
    rw [hu] at hlen
    exact List.eq_nil_of_length_eq_zero (Nat.le_zero.mp hlen)
  · rw [land_of_used_ne_zero d hu]
    have hthere := hfar hu
    exact .inr ⟨rfl, rfl, by omega, hcross.source, hcross.target,
      fun b hb => hcross.rest b (.inr hb)⟩

/-! ## One operation -/

/-- How far entries have moved from one dictionary to another. If none were moving, none have
moved, though they may be about to. If they were, a row of buckets was crossed, of which so many
at most held something. Then either the main array is still the same one, the frontier stands
where the row ends, and no bucket behind it has got anything; or nothing was left behind the
row, the target has become the main array, and none have moved since. -/
structure Advanced (chains buckets : Nat) (d d' : Dictionary κ ν) : Prop where
  settled : d.frontier = none → d.main.size ≠ 0 →
    d.main.Same d'.main ∧ (d'.frontier = none ∨ d'.frontier = some 0)
  moving : ∀ i, d.frontier = some i → ∃ j, i ≤ j ∧ j ≤ i + buckets ∧ d.main.filled i j ≤ chains ∧
    (d.main.Same d'.main ∧ d'.frontier = some j ∧
        (∀ b, j ≤ b → ((d'.main.chain b).map Binding.label).Sublist
          ((d.main.chain b).map Binding.label)) ∨
      d.target.Same d'.main ∧ (d'.frontier = none ∨ d'.frontier = some 0) ∧
        ∀ b, j ≤ b → d.main.chain b = [])

theorem Advanced.refl (chains buckets : Nat) (d : Dictionary κ ν) :
    Advanced chains buckets d d where
  settled hf _ := ⟨.refl _, .inl hf⟩
  moving i hf := ⟨i, le_refl _, Nat.le_add_right _ _, by
    rw [Buckets.filled_self]
    exact Nat.zero_le _, .inl ⟨.refl _, hf, fun _ _ => List.Sublist.refl _⟩⟩

theorem Advanced.mono (h : Advanced chains buckets d d') (hc : chains ≤ chains')
    (hb : buckets ≤ buckets') : Advanced chains' buckets' d d' where
  settled := h.settled
  moving := by
    intro i hf
    obtain ⟨j, hij, hj, hfilled, hend⟩ := h.moving i hf
    exact ⟨j, hij, hj.trans (Nat.add_le_add_left hb i), hfilled.trans hc, hend⟩

/-- What leaves the main array and the frontier, or begins to move entries, moves none. While
entries move it may take some out of the main array, and put none in. -/
theorem Advanced.tail (hd : d.Shape) (h : Advanced chains buckets d d')
    (hmain : d'.main.size ≠ 0 → d'.main.Same d''.main)
    (hfrontier : d''.frontier = d'.frontier ∨ d'.frontier = none ∧ d''.frontier = some 0)
    (hlabels : d'.migrating = true → ∀ b, ((d''.main.chain b).map Binding.label).Sublist
      ((d'.main.chain b).map Binding.label)) : Advanced chains buckets d d'' where
  settled := by
    intro hf hm
    obtain ⟨hsame, hzero⟩ := h.settled hf hm
    refine ⟨hsame.trans (hmain (hsame.size ▸ hm)), ?_⟩
    rcases hfrontier with he | ⟨-, he⟩
    · rwa [he]
    · exact .inr he
  moving := by
    intro i hf
    obtain ⟨j, hij, hj, hfilled, hend⟩ := h.moving i hf
    obtain ⟨hi, ht, -⟩ := hd.moving i hf
    refine ⟨j, hij, hj, hfilled, ?_⟩
    rcases hend with ⟨hsame, hj', hrest⟩ | ⟨hsame, hzero, hrest⟩
    · refine .inl ⟨hsame.trans (hmain ?_), ?_, ?_⟩
      · rw [hsame.size]
        omega
      · rcases hfrontier with he | ⟨hnone, -⟩
        · rw [he, hj']
        · rw [hj'] at hnone
          exact absurd hnone (by simp)
      · intro b hb
        exact (hlabels (migrating_eq_true.mpr ⟨j, hj'⟩) b).trans (hrest b hb)
    · refine .inr ⟨hsame.trans (hmain (hsame.size ▸ ht)), ?_, hrest⟩
      rcases hfrontier with he | ⟨-, he⟩
      · rwa [he]
      · exact .inr he

/-- With a change of one of the arrays in place that adds no label to a chain of the main array
while entries move, they are where they were. -/
theorem Advanced.modifySide (hd : d.Shape) (h : Advanced chains buckets d d') (s : Side)
    {f : Buckets κ ν → Buckets κ ν} (hsame : (d'.side s).Same (f (d'.side s)))
    (hlabels : d'.migrating = true → s = .main → ∀ b,
      (((f d'.main).chain b).map Binding.label).Sublist ((d'.main.chain b).map Binding.label)) :
    Advanced chains buckets d (d'.modifySide s f) := by
  cases s with
  | main => exact h.tail hd (fun _ => hsame) (.inl rfl) fun hm => hlabels hm rfl
  | target => exact h.tail hd (fun _ => .refl _) (.inl rfl) fun _ _ => List.Sublist.refl _

theorem Advanced.expand (hd : d.Shape) (h : Advanced chains buckets d d') (size : Nat) :
    Advanced chains buckets d (d'.expand size).2 := by
  refine h.tail hd ?_ (frontier_expand d' size) ?_
  · intro hm
    rw [main_expand hm]
    exact .refl _
  · intro hm b
    rw [Dictionary.expand]
    dsimp only
    rw [if_pos hm]

/-- Nothing that an operation does besides moving a bucket along moves entries on. -/
theorem local_advanced (r : Rules κ ν) (hd : d.Shape) :
    Local r (Advanced chains buckets d) where
  note _ h := ⟨h.settled, h.moving⟩
  hand _ h := ⟨h.settled, h.moving⟩
  issue h := ⟨h.settled, h.moving⟩
  growIfNeeded h :=
    growIfNeeded_of r (fun _ h => ⟨h.settled, h.moving⟩) (fun size h => h.expand hd size) h
  push {d'} i b h := by
    refine h.modifySide hd _ (Buckets.same_push _ i b) ?_
    -- while entries move, it is the target that receives
    intro hm hreceiving
    rw [receiving, if_pos hm] at hreceiving
    exact absurd hreceiving (by simp)
  erase p h := by
    refine h.modifySide hd _ (Buckets.same_erase _ p.index p.id) ?_
    intro _ _ b
    rw [Buckets.chain_erase]
    split
    · rename_i hb
      rw [← hb.1]
      exact List.eraseP_sublist.map _
    · exact List.Sublist.refl _
  revise {d'} s f _ hsame h := by
    refine h.modifySide hd s hsame.same ?_
    rintro _ rfl b
    have hlabel : ((f d'.main).chain b).map Binding.label =
      (d'.main.chain b).map Binding.label := hsame.chain b
    rw [hlabel]

/-- **A bucket that is moved along first** adds one to the budget of chains and ten to that of
buckets. -/
theorem Advanced.head (hd : d.Shape) (h : Advanced chains buckets (d.migrateStep r) d') :
    Advanced (chains + 1) (buckets + 10) d d' := by
  rw [migrateStep] at h
  by_cases hw : d.walks = 0
  · rw [if_pos hw] at h
    rcases hf : d.frontier with _ | i
    · rw [migrate_of_frontier_none r hf] at h
      exact h.mono (Nat.le_add_right _ _) (Nat.le_add_right _ _)
    · obtain ⟨j, hij, hj, hfilled, hend⟩ := migrate_crosses r hd hw hf (le_refl 1)
      refine ⟨fun hnone => absurd (hf.symm.trans hnone) (by simp), ?_⟩
      intro i' hi'
      obtain rfl : i = i' := Option.some.inj (hf.symm.trans hi')
      rcases hend with ⟨-, hnone, -, hsame, hrest⟩ | ⟨-, hfrontier, -, hmain, htarget, hrest⟩
      · -- the migration has ended, and the row is this one
        have ht := (hd.moving i hf).2.1
        obtain ⟨hstays, hzero⟩ := h.settled hnone (hsame.size ▸ ht)
        exact ⟨j, hij, by omega, by omega, .inr ⟨hsame.trans hstays, hzero, hrest⟩⟩
      · -- the row that comes then begins where this one ends
        obtain ⟨k, hjk, hk, hfilled', hend'⟩ := h.moving j hfrontier
        have hsecond : d.main.filled j k ≤ chains := by
          rw [← Buckets.filled_congr fun b hb _ => hrest b hb]
          exact hfilled'
        refine ⟨k, hij.trans hjk, by omega, ?_, ?_⟩
        · rw [d.main.filled_add hij hjk]
          omega
        · rcases hend' with ⟨hsame, hk', hlabels⟩ | ⟨hsame, hzero, hnil⟩
          · refine .inl ⟨hmain.trans hsame, hk', fun b hb => ?_⟩
            rw [← hrest b (hjk.trans hb)]
            exact hlabels b hb
          · refine .inr ⟨htarget.trans hsame, hzero, fun b hb => ?_⟩
            rw [← hrest b (hjk.trans hb)]
            exact hnil b hb
  · rw [if_neg hw] at h
    exact h.mono (Nat.le_add_right _ _) (Nat.le_add_right _ _)

theorem advanced_migrateStep (r : Rules κ ν) (hd : d.Shape) :
    Advanced 1 10 d (d.migrateStep r) :=
  (Advanced.refl 0 0 (d.migrateStep r)).head hd

theorem advanced_migrateSteps (r : Rules κ ν) : ∀ (n : Nat) {d : Dictionary κ ν}, d.Shape →
    Advanced n (10 * n) d (d.migrateSteps r n) := by
  intro n
  induction n with
  | zero => exact fun _ => .refl _ _ _
  | succ n ih =>
    intro d hd
    rw [migrateSteps]
    split
    · exact (ih (hd.shifts (shifts_migrateStep hd))).head hd
    · exact .refl _ _ _

/-! Drawing an entry moves a bucket along, if there is anything to be drawn. -/

section Draws

variable {σ : Type} (g : WordSource σ)

theorem pick_snd (r : Rules κ ν) (d : Dictionary κ ν) (words : σ) :
    (d.pick g r words).2.2 = d ∨ (d.pick g r words).2.2 = d.migrateStep r := by
  rw [pick]
  split
  · exact .inl rfl
  · dsimp only
    split <;> exact .inr rfl

theorem pickFairly_snd (r : Rules κ ν) (d : Dictionary κ ν) (words : σ) :
    (d.pickFairly g r words).2.2 = d ∨ (d.pickFairly g r words).2.2 = d.migrateStep r := by
  rw [pickFairly]
  split
  · exact .inl rfl
  · dsimp only
    split <;> exact .inr rfl

theorem sample_snd (r : Rules κ ν) (d : Dictionary κ ν) (count : Nat) (words : σ) :
    (d.sample g r count words).2.2 = d ∨
      (d.sample g r count words).2.2 = d.migrateSteps r (min count d.size) := by
  rw [sample]
  dsimp only
  split
  · exact .inl rfl
  · exact .inr rfl

end Draws

end Dictionary

namespace Operation

/-- The operations that ask for entries to be moved, so many or for so long. -/
def AsksToMove : Operation κ ν → Prop
  | .migrate _ | .migrateFor _ => True
  | _ => False

/-- How many chains an operation may move along that was not asked to move any: one for each
entry of a sample, and one otherwise. -/
def share (d : Dictionary κ ν) : Operation κ ν → Nat
  | .sample count => min count d.size
  | _ => 1

end Operation

namespace Situation

variable {σ : Type} (K : Keying κ ν) (g : WordSource σ)

open Dictionary

/-- **What an operation moves along.** -/
theorem advanced_perform {s : Situation κ ν σ} (hs : s.dictionary.Shape) {op : Operation κ ν}
    (hop : ¬ op.AsksToMove) (hclear : ¬ op.IsClear) :
    Advanced (op.share s.dictionary) (10 * op.share s.dictionary) s.dictionary
      (s.perform K g op).2.dictionary := by
  have hP : Local (s.rules K) (Advanced 1 10 s.dictionary) := local_advanced (s.rules K) hs
  have hstart : Advanced 1 10 s.dictionary s.dictionary := .refl _ _ _
  have hstep := advanced_migrateStep (s.rules K) hs
  have hresize : ∀ size, Advanced 1 10 s.dictionary (s.dictionary.resizeTo (s.rules K) size).2 := by
    intro size
    rw [resizeTo]
    split
    · exact hstart.expand hs size
    · exact hstart
  cases op with
  | migrate n => exact absurd trivial hop
  | migrateFor rounds => exact absurd trivial hop
  | clear => exact absurd trivial hclear
  | add k v => exact hP.add k v hstep
  | claim k set => exact hP.setAt _ _ (hP.claim k hstep)
  | replace k v => exact hP.replace k v hstep
  | find k set =>
    have hfind : Advanced 1 10 s.dictionary (s.dictionary.find (s.rules K) k).2 := by
      rcases find_snd (s.rules K) s.dictionary k with he | he
      · rwa [he]
      · rwa [he]
    change Advanced 1 10 s.dictionary _
    rw [perform]
    revert hfind
    rcases s.dictionary.find (s.rules K) k with ⟨_ | p, d⟩
    · exact id
    · exact hP.setAt p set
  | unlink k => exact hP.unlink k hstart hstep
  | delete k => exact hP.delete k hstart hstep
  | discard b => exact hP.handAll _ hstart
  | expand size => exact hstart.expand hs size
  | resizeTo size => exact hresize size
  | shrinkToFit => exact hresize _
  | allowResizing allowed => exact hP.note _ hstart
  | pick =>
    change Advanced 1 10 s.dictionary (s.dictionary.pick g (s.rules K) s.words).2.2
    rcases pick_snd g (s.rules K) s.dictionary s.words with he | he
    · rwa [he]
    · rwa [he]
  | pickFairly =>
    change Advanced 1 10 s.dictionary (s.dictionary.pickFairly g (s.rules K) s.words).2.2
    rcases pickFairly_snd g (s.rules K) s.dictionary s.words with he | he
    · rwa [he]
    · rwa [he]
  | sample count =>
    change Advanced _ _ s.dictionary (s.dictionary.sample g (s.rules K) count s.words).2.2
    rcases sample_snd g (s.rules K) s.dictionary count s.words with he | he
    · rw [he]
      exact .refl _ _ _
    · rw [he]
      exact advanced_migrateSteps _ _ hs
  | scanRevising f start cursor => exact hP.reviseBuckets f _ _ _ hstart
  | scan | walk | advance => exact hstart
  | safeWalk => exact ⟨hstart.settled, hstart.moving⟩
  | endWalk w =>
    change Advanced 1 10 s.dictionary (s.dictionary.endWalk w).2
    rw [endWalk]
    split_ifs
    · exact ⟨hstart.settled, hstart.moving⟩
    · exact hstart
    · exact hstart

/-- **As many calls as there are buckets left** end a migration, whatever each is asked for. -/
theorem settled_after_migrates : ∀ (ns : List Nat) {s : Situation κ ν σ},
    s.dictionary.Shape → s.dictionary.walks = 0 → (∀ n ∈ ns, 1 ≤ n) →
    (∀ i, s.dictionary.frontier = some i → s.dictionary.main.size - i ≤ ns.length) →
      (s.after K g (ns.map .migrate)).dictionary.frontier = none := by
  intro ns
  -- induction on the calls: each takes the frontier a bucket on at least, or ends it
  induction ns with
  | nil =>
    intro s hs _ _ hleft
    rcases hf : s.dictionary.frontier with _ | i
    · exact hf
    · have hlt := (hs.moving i hf).1
      have hnone := hleft i hf
      rw [List.length_nil] at hnone
      omega
  | cons n ns ih =>
    intro s hs hw hpos hleft
    have hn : 1 ≤ n := hpos n List.mem_cons_self
    refine ih (hs.shifts (shifts_migrate (s.rules K) hs n)) ((walks_migrate _ _ n).trans hw)
      (fun m hm => hpos m (List.mem_cons_of_mem _ hm)) ?_
    intro j hj
    change (s.dictionary.migrate (s.rules K) n).2.frontier = some j at hj
    change (s.dictionary.migrate (s.rules K) n).2.main.size - j ≤ ns.length
    rcases hf : s.dictionary.frontier with _ | i
    · rw [migrate_of_frontier_none _ hf, hf] at hj
      exact absurd hj (by simp)
    · obtain ⟨k, -, -, -, ⟨-, hnone, -⟩ | ⟨-, hk, hfar, hsame, -⟩⟩ :=
        migrate_crosses (s.rules K) hs hw hf hn
      · rw [hnone] at hj
        exact absurd hj (by simp)
      · obtain rfl : k = j := Option.some.inj (hk.symm.trans hj)
        have hmore := hleft i hf
        rw [List.length_cons] at hmore
        rw [hsame.size]
        omega

/-- **Migrations make progress within bounds.** Take a dictionary with any history.

While entries move and no safe walk is open, a call to move `n` buckets goes through on links,
so that it looks for no bucket past the end and takes no count down from zero. It loses no
entry and makes none up. Either it ends the migration, and the target has become the main array
and holds every entry; or the frontier goes on by `n` buckets at least and by `11 * n - 1` at
most, all of them empty now. So there is an end after as many calls as there are buckets from
the frontier on.

Any other operation moves one chain at most and passes ten buckets at most, a sample as often
as there are entries to find for it. Clearing moves nothing, as nothing is left. -/
theorem migration_progress_bounded (settings : Settings) (words : σ)
    (before : List (Operation κ ν)) :
    let s : Situation κ ν σ := (start settings words).after K g before
    let d := s.dictionary
    (∀ i, d.frontier = some i → d.walks = 0 →
      (∀ n, 1 ≤ n →
        let more := (d.migrate (s.rules K) n).1
        let d' := (d.migrate (s.rules K) n).2
        (∃ l l', (Linked.start settings).after K before = some l ∧ l.migrate K n = some l' ∧
          Linked.Represents s.settings l' d') ∧
        d'.toList.Perm d.toList ∧
        (more = false ∧ d'.frontier = none ∧ d'.target = .unallocated ∧
            d.target.Same d'.main ∧ d'.main.toList.Perm d.toList ∨
          more = true ∧ ∃ j, d'.frontier = some j ∧ i + n ≤ j ∧ j ≤ i + (11 * n - 1) ∧
            ∀ b, b < j → d'.main.chain b = [])) ∧
      ∀ ns : List Nat, (∀ n ∈ ns, 1 ≤ n) → d.main.size - i ≤ ns.length →
        (s.after K g (ns.map .migrate)).dictionary.migrating = false) ∧
    ∀ op : Operation κ ν,
      let d' := (s.perform K g op).2.dictionary
      (op.IsClear → d'.toList = []) ∧
      (¬ op.AsksToMove → ¬ op.IsClear → Advanced (op.share d) (10 * op.share d) d d') := by
  intro s d
  have hd : d.Shape := shape_after K g settings words before
  refine ⟨fun i hf hw => ⟨fun n hn => ?_, fun ns hpos hleft => ?_⟩, fun op => ⟨?_, ?_⟩⟩
  · intro more d'
    have hshifts := shifts_migrate (s.rules K) hd n
    have hshape : d'.Shape := hd.shifts hshifts
    have hperm : d'.toList.Perm d.toList := (hshifts.toList_perm hd).1
    refine ⟨?_, hperm, ?_⟩
    · obtain ⟨l, hl, -, -, hrepresents⟩ := Linked.exists_after_start K g settings words before
      obtain ⟨l', hl', h'⟩ := hrepresents.migrate K hd n
      exact ⟨l, l', hl, hl', h'⟩
    · obtain ⟨j, -, hnear, -, ⟨hmore, hnone, htarget, hsame, -⟩ | ⟨hmore, hj, hfar, -⟩⟩ :=
        migrate_crosses (s.rules K) hd hw hf hn
      · refine .inl ⟨hmore, hnone, htarget, hsame, ?_⟩
        have hall : d'.toList = d'.main.toList := by
          rw [toList, htarget, Buckets.toList_unallocated, List.append_nil]
        rwa [← hall]
      · exact .inr ⟨hmore, j, hj, hfar, hnear, hshape.behind j hj⟩
  · refine migrating_eq_false.mpr (settled_after_migrates K g ns hd hw hpos ?_)
    intro i' hi'
    obtain rfl : i = i' := Option.some.inj (hf.symm.trans hi')
    exact hleft
  · intro hop
    cases op with
    | clear => exact toList_clear d
    | _ => exact absurd hop id
  · exact fun hop hclear => advanced_perform K g hd hop hclear

/-- Four chains on their way to sixteen buckets, asked for by one, by two and by nine: there is
an end after four calls in any case. -/
theorem four_calls_end_four_buckets :
    let K := Keying.numbers String
    let g := WordSource.splitMix
    let s : Situation UInt64 String UInt64 := (start .standard 0).after K g
      [.add 0 "a", .add 1 "b", .add 2 "c", .add 3 "d", .expand 16]
    s.dictionary.outline = ⟨4, 16, some 0⟩ ∧ s.dictionary.walks = 0 ∧
      (s.dictionary.migrate (s.rules K) 2).2.toList.Perm s.dictionary.toList ∧
      (s.after K g [.migrate 1, .migrate 2, .migrate 9, .migrate 1]).dictionary.migrating = false ∧
      Advanced 1 10 s.dictionary (s.perform K g (.delete 3)).2.dictionary := by
  obtain ⟨hmoving, hother⟩ := migration_progress_bounded (Keying.numbers String)
    WordSource.splitMix .standard 0
    [.add 0 "a", .add 1 "b", .add 2 "c", .add 3 "d", .expand 16]
  obtain ⟨hcall, hcalls⟩ := hmoving 0 (by decide +kernel) (by decide +kernel)
  exact ⟨by decide +kernel, by decide +kernel, (hcall 2 (by decide)).2.1,
    hcalls [1, 2, 9, 1] (by decide) (by decide +kernel), (hother (.delete 3)).2 id id⟩

end Situation

end TwinTable
