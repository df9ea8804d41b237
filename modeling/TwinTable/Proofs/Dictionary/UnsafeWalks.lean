/-
When an unsafe walk finds out that the dictionary changed.

The fingerprint that an unsafe walk is compared with knows three numbers of each array: which
array it is, its size and its fill. Chains are no part of it. So that it can tell at all
whether anything happened depends on what may happen: with removals allowed a key can go and
another come, and all three numbers are as they were. Without removals they suffice, and the
reason is that nothing a dictionary does then can be undone. Every change that takes no entry
out leaves the arrays and the labels in all chains as they are (`Still`), or it puts the
dictionary ahead (`Ahead`): an array is made, or the entries have arrived in theirs, or the
array that receives entries has become fuller. In this order of account all changes go up, so
that no later one takes an earlier one back (`Grown.trans`).

What is ahead is seen in the three numbers. If an array was made, the newest one has a number
that neither of the earlier two had; that it is the one that receives (`Newest`) is kept by all
operations, removals included. If the entries have arrived, the place they came from is given
up. And if neither happened, the array that receives is the same one with more entries in it.
-/
import TwinTable.Proofs.Dictionary.NewSizes
import TwinTable.Proofs.Dictionary.Staying

set_option autoImplicit false

namespace TwinTable

variable {κ ν : Type}

/-! ## What a fingerprint is made of -/

/-- What the fingerprint knows of an array: which it is, its size and its fill. -/
def Buckets.vitals (t : Buckets κ ν) : Nat × Nat × Nat := (t.identity, t.size, t.used)

theorem Buckets.SameLabels.vitals {t t' : Buckets κ ν} (h : t.SameLabels t') :
    t'.vitals = t.vitals := by
  rw [Buckets.vitals, h.identity, h.size, h.used]
  rfl

/-- The lengths of the chains add up, however many empty ones from past the end are counted. -/
theorem Buckets.length_toList_of_size_le {t : Buckets κ ν} {n : Nat} (h : t.size ≤ n) :
    t.toList.length = ∑ i ∈ Finset.range n, (t.chain i).length := by
  rw [t.length_toList]
  refine Finset.sum_subset (Finset.range_subset_range.mpr h) ?_
  intro i _ hi
  rw [Buckets.chain_eq_nil (by simpa using hi), List.length_nil]

/-- Where all chains are as long, an array is as full. -/
theorem Buckets.Sound.used_congr {t t' : Buckets κ ν} (ht : t.Sound) (ht' : t'.Sound)
    (h : ∀ i, (t'.chain i).length = (t.chain i).length) : t'.used = t.used := by
  rw [ht.counted, ht'.counted, Buckets.length_toList_of_size_le (le_max_left t.size t'.size),
    Buckets.length_toList_of_size_le (le_max_right t.size t'.size)]
  exact Finset.sum_congr rfl fun i _ => h i

/-- Moving a chain adds it to the fill. -/
theorem Passage.used_moveChain (hash : κ → UInt64) (c : List (Binding κ ν)) :
    ∀ t : Buckets κ ν, (moveChain hash c t).used = t.used + c.length := by
  induction c with
  | nil => intro t; rfl
  | cons b c ih =>
    intro t
    rw [moveChain_cons, ih, List.length_cons]
    change t.used + 1 + c.length = t.used + (c.length + 1)
    omega

namespace Dictionary

variable {d d' d'' : Dictionary κ ν}

/-- What the fingerprint knows of a dictionary. -/
def vitals (d : Dictionary κ ν) : (Nat × Nat × Nat) × (Nat × Nat × Nat) :=
  (d.main.vitals, d.target.vitals)

theorem vitals_side (h : d'.vitals = d.vitals) (s : Side) :
    (d'.side s).vitals = (d.side s).vitals := by
  cases s with
  | main => exact congrArg Prod.fst h
  | target => exact congrArg Prod.snd h

/-- It depends on nothing else. -/
theorem fingerprint_congr (h : d'.vitals = d.vitals) : d'.fingerprint = d.fingerprint := by
  have hwords : ∀ t : Buckets κ ν, t.fingerprintWords =
      [t.vitals.1.toUInt64, t.vitals.2.1.toUInt64, t.vitals.2.2.toUInt64] := fun _ => rfl
  have hmain : d'.main.vitals = d.main.vitals := vitals_side h .main
  have htarget : d'.target.vitals = d.target.vitals := vitals_side h .target
  rw [fingerprint, fingerprint, hwords, hwords, hwords d.main, hwords d.target, hmain, htarget]

/-- The structure of a dictionary has changed: an array was made, or one of the two places has
another array or none any more, or the entries of a chain are not those that they were, in the
order in which they were. -/
def Altered (d d' : Dictionary κ ν) : Prop :=
  d'.nextArray ≠ d.nextArray ∨
    ∃ s, (d'.side s).identity ≠ (d.side s).identity ∨ ∃ i, d'.labelsAt s i ≠ d.labelsAt s i

/-! ## The newest array -/

/-- The newest of the arrays that were made and not given up is the one that receives. -/
structure Newest (d : Dictionary κ ν) : Prop where
  numbered : d.Numbered
  receives : (d.side d.receiving).size ≠ 0 →
    (d.side d.receiving).identity ≠ 0 ∧ (d.side d.receiving).identity + 1 = d.nextArray

theorem receiving_of_frontier_none (h : d.frontier = none) : d.receiving = .main := by
  rw [receiving, migrating, h]
  rfl

theorem receiving_of_frontier_some {i : Nat} (h : d.frontier = some i) :
    d.receiving = .target := by
  rw [receiving, migrating, h]
  rfl

theorem receiving_congr (h : d'.frontier = none ↔ d.frontier = none) :
    d'.receiving = d.receiving := by
  rcases hf : d.frontier with _ | i
  · rw [receiving_of_frontier_none hf, receiving_of_frontier_none (h.mpr hf)]
  · obtain ⟨j, hj⟩ := Option.ne_none_iff_exists'.mp fun hnone => by simp [h.mp hnone] at hf
    rw [receiving_of_frontier_some hf, receiving_of_frontier_some hj]

theorem newest_empty : (empty : Dictionary κ ν).Newest :=
  ⟨⟨Nat.zero_lt_one, Nat.zero_lt_one⟩, fun h => absurd rfl h⟩

/-- Where both arrays are the same ones, so is the one that receives. -/
theorem Newest.of_same (h : d.Newest) (hnumbered : d'.Numbered)
    (hsame : (d.side d.receiving).Same (d'.side d'.receiving))
    (ha : d'.nextArray = d.nextArray) : d'.Newest := by
  refine ⟨hnumbered, ?_⟩
  rw [hsame.identity, hsame.size, ha]
  exact h.receives

/-- An array that is made is made to receive. -/
theorem Change.identity_of_made {r : Rules κ ν} (h : Change r d d')
    (ha : d'.nextArray = d.nextArray + 1) :
    (d'.side d'.receiving).identity = d.nextArray := by
  have hsucc : d.nextArray ≠ d.nextArray + 1 := (Nat.succ_ne_self _).symm
  cases h with
  | shift h =>
    cases h with
    | first size hf hm =>
      have hmain : Dictionary.receiving { d with
          main := .allocate d.nextArray (Buckets.sizeFor size)
          nextArray := d.nextArray + 1 } = .main := receiving_of_frontier_none hf
      rw [hmain]
      rfl
    | begin => rfl
    | aside _ _ _ _ hkept => exact absurd (hkept.symm.trans ha) hsucc
    | pass | move | moveLast | land => exact absurd ha hsucc
  | link =>
    rw [link_eq] at ha
    rcases hr : d.receiving with _ | _ <;> rw [hr] at ha <;> exact absurd ha hsucc
  | @erase p b found =>
    rcases hs : p.side with _ | _ <;> rw [hs] at ha <;> exact absurd ha hsucc
  | revise _ _ _ _ hkept => exact absurd (hkept.symm.trans ha) hsucc
  | clear =>
    obtain ⟨o, ho⟩ := d.clear_eq
    rw [ho] at ha
    exact absurd ha hsucc

/-- **The newest array receives**, whatever happens. -/
theorem Newest.change {r : Rules κ ν} (h : d.Newest) (hchange : Change r d d') : d'.Newest := by
  have hpos := h.numbered.main
  have hnumbered := h.numbered.turn hchange.turn
  rcases hchange.turn with ⟨hm, ht, hf, ha⟩ | ⟨hm, -, hb, hf, ha⟩ | ⟨-, -, ha⟩ | ⟨hm, -, hf, -⟩
  · refine h.of_same hnumbered ?_ ha
    rw [receiving_congr hf]
    rcases d.receiving with _ | _
    · exact hm
    · exact ht
  · obtain ⟨i, hi⟩ := Option.ne_none_iff_exists'.mp hb
    refine h.of_same hnumbered ?_ ha
    rw [receiving_of_frontier_some hi, receiving_of_frontier_none hf]
    exact hm
  · refine ⟨hnumbered, fun _ => ?_⟩
    rw [hchange.identity_of_made ha, ha]
    exact ⟨by omega, rfl⟩
  · refine ⟨hnumbered, fun hne => absurd ?_ hne⟩
    rw [receiving_of_frontier_none hf]
    change d'.main.size = 0
    rw [hm, Buckets.size_unallocated]

theorem Newest.changes {r : Rules κ ν} (h : d.Newest) (hrun : Changes r d d') : d'.Newest := by
  induction hrun with
  | refl => exact h
  | tail _ hstep ih => exact ih.change hstep

/-! ## Standing still and getting ahead -/

/-- Nothing changed but values, the outbox, and empty buckets that were passed. -/
structure Still (d d' : Dictionary κ ν) : Prop where
  main : d.main.SameLabels d'.main
  target : d.target.SameLabels d'.target
  frontier : d'.frontier = none ↔ d.frontier = none
  nextArray : d'.nextArray = d.nextArray

namespace Still

theorem refl (d : Dictionary κ ν) : Still d d := ⟨.refl _, .refl _, Iff.rfl, rfl⟩

theorem trans (h : Still d d') (h' : Still d' d'') : Still d d'' :=
  ⟨h.main.trans h'.main, h.target.trans h'.target, h'.frontier.trans h.frontier,
    h'.nextArray.trans h.nextArray⟩

theorem side (h : Still d d') (s : Side) : (d.side s).SameLabels (d'.side s) := by
  cases s with
  | main => exact h.main
  | target => exact h.target

theorem receives (h : Still d d') :
    (d.side d.receiving).SameLabels (d'.side d'.receiving) := by
  rw [receiving_congr h.frontier]
  exact h.side d.receiving

theorem vitals (h : Still d d') : d'.vitals = d.vitals :=
  Prod.ext h.main.vitals h.target.vitals

theorem not_altered (h : Still d d') : ¬ Altered d d' := by
  rintro (ha | ⟨s, hid | ⟨i, hlabels⟩⟩)
  · exact ha h.nextArray
  · exact hid (h.side s).identity
  · exact hlabels ((h.side s).chain i)

end Still

/-- The arrays that were made, counted twice, and once more if the entries have arrived in the
last of them. -/
def stage (d : Dictionary κ ν) : Nat := 2 * d.nextArray + if d.migrating then 0 else 1

/-- How far a dictionary has come: what was made, and then what has been put into it. -/
def progress (d : Dictionary κ ν) : Nat ×ₗ Nat := toLex (d.stage, (d.side d.receiving).used)

theorem stage_congr (hf : d'.frontier = none ↔ d.frontier = none)
    (ha : d'.nextArray = d.nextArray) : d'.stage = d.stage := by
  have hm : d'.migrating = d.migrating := by
    rw [Bool.eq_iff_iff, migrating, migrating, Option.isSome_iff_ne_none,
      Option.isSome_iff_ne_none, Ne, Ne, hf]
  rw [stage, stage, hm, ha]

theorem stage_of_settled (h : d.frontier = none) : d.stage = 2 * d.nextArray + 1 := by
  rw [stage, if_neg (by simp [migrating, h])]

theorem stage_of_moving {i : Nat} (h : d.frontier = some i) : d.stage = 2 * d.nextArray := by
  rw [stage, if_pos (by simp [migrating, h])]
  rfl

/-- A dictionary has come further, and it has an array to show for it. -/
structure Ahead (d d' : Dictionary κ ν) : Prop where
  further : d.progress < d'.progress
  allocated : (d'.side d'.receiving).size ≠ 0

theorem Still.progress (h : Still d d') : d'.progress = d.progress := by
  rw [Dictionary.progress, Dictionary.progress, stage_congr h.frontier h.nextArray,
    h.receives.used]

theorem Ahead.of_stage (h : d.stage < d'.stage) (ha : (d'.side d'.receiving).size ≠ 0) :
    Ahead d d' :=
  ⟨Prod.Lex.toLex_lt_toLex.mpr (.inl h), ha⟩

theorem Ahead.of_used (h : d'.stage = d.stage)
    (hused : (d.side d.receiving).used < (d'.side d'.receiving).used)
    (ha : (d'.side d'.receiving).size ≠ 0) : Ahead d d' :=
  ⟨Prod.Lex.toLex_lt_toLex.mpr (.inr ⟨h.symm, hused⟩), ha⟩

theorem Ahead.trans (h : Ahead d d') (h' : Ahead d' d'') : Ahead d d'' :=
  ⟨h.further.trans h'.further, h'.allocated⟩

theorem Ahead.trans_still (h : Ahead d d') (h' : Still d' d'') : Ahead d d'' :=
  ⟨h'.progress ▸ h.further, h'.receives.size ▸ h.allocated⟩

theorem Still.trans_ahead (h : Still d d') (h' : Ahead d' d'') : Ahead d d'' :=
  ⟨h.progress ▸ h'.further, h'.allocated⟩

/-- What receives is linked to. -/
theorem receives_link (r : Rules κ ν) (d : Dictionary κ ν) (k : κ) (hash : UInt64) :
    (d.link r k hash).2.receiving = d.receiving ∧ (d.link r k hash).2.stage = d.stage ∧
      (d.link r k hash).2.side d.receiving =
        (d.side d.receiving).push ((d.side d.receiving).index hash) (d.blankFor r k) := by
  have hfrontier : (d.link r k hash).2.frontier = d.frontier := by
    rw [link_eq]
    rcases d.receiving with _ | _ <;> rfl
  have hmade : (d.link r k hash).2.nextArray = d.nextArray := by
    rw [link_eq]
    rcases d.receiving with _ | _ <;> rfl
  refine ⟨receiving_congr (by rw [hfrontier]), stage_congr (by rw [hfrontier]) hmade, ?_⟩
  rw [link_eq, side_modifySide_self, side_hand]
  rcases d.receiving with _ | _ <;> rfl

/-- A table that entries have arrived in. -/
theorem Ahead.of_arrival (hd : d.Shape) {i : Nat} (hf : d.frontier = some i)
    (hsettled : d'.frontier = none) (hm : d'.main.size = d.target.size)
    (ha : d'.nextArray = d.nextArray) : Ahead d d' := by
  refine .of_stage ?_ ?_
  · rw [stage_of_moving hf, stage_of_settled hsettled, ha]
    exact Nat.lt_succ_self _
  · rw [receiving_of_frontier_none hsettled]
    exact hm.symm ▸ (hd.moving i hf).2.1

/-- An array is made, and it is not an empty one. -/
theorem Ahead.of_made (size : Nat) (hf : d.frontier = none)
    (hmade : d'.side d'.receiving = .allocate d.nextArray (Buckets.sizeFor size))
    (ha : d'.nextArray = d.nextArray + 1) : Ahead d d' := by
  obtain ⟨n, -, -, hs⟩ := Buckets.sizeFor_eq size
  refine .of_stage ?_ ?_
  · rw [stage_of_settled hf, stage, ha]
    omega
  · rw [hmade, Buckets.size_allocate, hs]
    exact (Nat.two_pow_pos n).ne'

/-- **What takes no entry out leaves all as it is or goes ahead.** -/
theorem Gain.still_or_ahead {r : Rules κ ν} (hd : d.Shape) (h : Gain r d d') :
    Still d d' ∨ Ahead d d' := by
  cases h with
  | shift h =>
    cases h with
    | aside hm ht hf _ ha => exact .inl ⟨hm ▸ .refl _, ht ▸ .refl _, by rw [hf], ha⟩
    | pass _ hf => exact .inl ⟨.refl _, .refl _, by simp [hf], rfl⟩
    | @move i _ hf hc _ =>
      right
      have hlen := List.length_pos_iff.mpr hc
      have hroom := (hd.moving i hf).2.1
      refine .of_used ?_ ?_ ?_
      · rw [stage_of_moving hf, stage_of_moving (i := i + 1) rfl]
      · rw [receiving_of_frontier_some hf]
        change d.target.used < (Passage.moveChain r.hash (d.main.chain i) d.target).used
        rw [Passage.used_moveChain]
        omega
      · change (Passage.moveChain r.hash (d.main.chain i) d.target).size ≠ 0
        rwa [Passage.size_moveChain]
    | moveLast _ hf => exact .inr (.of_arrival hd hf rfl (Passage.size_moveChain _ _ _) rfl)
    | land _ hf => exact .inr (.of_arrival hd hf rfl rfl rfl)
    | first size hf =>
      have hmain : Dictionary.receiving { d with
          main := .allocate d.nextArray (Buckets.sizeFor size)
          nextArray := d.nextArray + 1 } = .main := receiving_of_frontier_none hf
      refine .inr (.of_made size hf ?_ rfl)
      rw [hmain]
      rfl
    | begin size hf => exact .inr (.of_made size hf rfl rfl)
  | @link k hroom _ =>
    right
    obtain ⟨hreceiving, hstage, hside⟩ := receives_link r d k (r.hash k)
    refine .of_used hstage ?_ ?_
    · rw [hreceiving, hside]
      exact Nat.lt_succ_self _
    · rwa [hreceiving, hside, Buckets.size_push]
  | revise hm ht hf _ ha => exact .inl ⟨hm, ht, by rw [hf], ha⟩

/-! ## What is ahead can be seen -/

/-- **What got ahead shows**: one of the places has another array, or the array that receives
is the one that did before, and fuller. -/
theorem Ahead.shows (h : Ahead d d') (hd : d.Shape) (hd' : d'.Shape) (hnew : d.Newest)
    (hnew' : d'.Newest) :
    ∃ s, (d'.side s).identity ≠ (d.side s).identity ∨ (d.side s).used < (d'.side s).used := by
  have hnumbered : ∀ s, (d.side s).identity < d.nextArray := by
    intro s
    cases s with
    | main => exact hnew.numbered.main
    | target => exact hnew.numbered.target
  obtain ⟨-, hlatest⟩ := hnew'.receives h.allocated
  rcases Prod.Lex.toLex_lt_toLex.mp h.further with hstage | ⟨hstage, hused⟩
  · change d.stage < d'.stage at hstage
    by_cases hmade : d.nextArray < d'.nextArray
    · -- the newest array has a number that was not given out before
      have hbefore := hnumbered d'.receiving
      exact ⟨d'.receiving, .inl (by omega)⟩
    · -- no array was made, so the entries have arrived, and there is no target any more
      rcases hf : d.frontier with _ | i
      · rw [stage_of_settled hf, stage] at hstage
        split at hstage <;> omega
      · have hsettled : d'.frontier = none := by
          by_contra hmoving
          obtain ⟨j, hj⟩ := Option.ne_none_iff_exists'.mp hmoving
          rw [stage_of_moving hf, stage_of_moving hj] at hstage
          omega
        have hroom : (d.side d.receiving).size ≠ 0 := by
          rw [receiving_of_frontier_some hf]
          exact (hd.moving i hf).2.1
        have hgiven := (hnew.receives hroom).1
        rw [receiving_of_frontier_some hf] at hgiven
        refine ⟨.target, .inl ?_⟩
        change d'.target.identity ≠ _
        rw [hd'.settled hsettled]
        exact hgiven.symm
  · -- the same array receives, since both the number of arrays and the half of the stage agree
    change d.stage = d'.stage at hstage
    have hsame : d'.receiving = d.receiving := by
      rw [stage, stage] at hstage
      rw [receiving, receiving]
      split at hstage <;> split at hstage <;> first | omega | simp [*]
    exact ⟨d.receiving, .inr (hsame ▸ hused)⟩

theorem Ahead.vitals_ne (h : Ahead d d') (hd : d.Shape) (hd' : d'.Shape) (hnew : d.Newest)
    (hnew' : d'.Newest) : d'.vitals ≠ d.vitals := by
  intro hsame
  obtain ⟨s, hs⟩ := h.shows hd hd' hnew hnew'
  have hside := vitals_side hsame s
  rcases hs with hid | hused
  · exact hid (congrArg Prod.fst hside)
  · exact absurd (congrArg (fun v => v.2.2) hside) (Nat.ne_of_gt hused)

/-- Where an array is fuller, a chain is longer. -/
theorem Ahead.altered (h : Ahead d d') (hd : d.Shape) (hd' : d'.Shape) (hnew : d.Newest)
    (hnew' : d'.Newest) : Altered d d' := by
  obtain ⟨s, hid | hused⟩ := h.shows hd hd' hnew hnew'
  · exact .inr ⟨s, .inl hid⟩
  · refine .inr ⟨s, .inr ?_⟩
    by_contra hnone
    simp only [not_exists, Ne, not_not] at hnone
    have hlengths : ∀ i, ((d'.side s).chain i).length = ((d.side s).chain i).length := by
      intro i
      have hlabels := congrArg List.length (hnone i)
      simpa only [labelsAt, List.length_map] using hlabels
    exact absurd ((hd.side s).used_congr (hd'.side s) hlengths) (Nat.ne_of_gt hused)

/-- What can be said of a dictionary and of what became of it while no entry was taken out. -/
structure Grown (d d' : Dictionary κ ν) : Prop where
  shape : d.Shape
  shape' : d'.Shape
  newest : d.Newest
  newest' : d'.Newest
  outcome : Still d d' ∨ Ahead d d'

theorem Grown.refl (hd : d.Shape) (hnew : d.Newest) : Grown d d :=
  ⟨hd, hd, hnew, hnew, .inl (.refl d)⟩

/-- No later gain takes an earlier one back. -/
theorem Grown.trans (h : Grown d d') (h' : Grown d' d'') : Grown d d'' := by
  refine ⟨h.shape, h'.shape', h.newest, h'.newest', ?_⟩
  rcases h.outcome, h'.outcome with ⟨hstill | hahead, hstill' | hahead'⟩
  · exact .inl (hstill.trans hstill')
  · exact .inr (hstill.trans_ahead hahead')
  · exact .inr (hahead.trans_still hstill')
  · exact .inr (hahead.trans hahead')

theorem Grown.of_gains {r : Rules κ ν} (hd : d.Shape) (hnew : d.Newest) (h : Gains r d d') :
    Grown d d' := by
  -- induction on the row of gains, from its end
  induction h with
  | refl => exact .refl hd hnew
  | tail _ hstep ih =>
    exact ih.trans ⟨ih.shape', ih.shape'.change hstep.change, ih.newest',
      ih.newest'.change hstep.change, hstep.still_or_ahead ih.shape'⟩

theorem Grown.altered_iff (h : Grown d d') : Altered d d' ↔ Ahead d d' := by
  constructor
  · exact fun haltered => h.outcome.resolve_left fun hstill => hstill.not_altered haltered
  · exact fun hahead => hahead.altered h.shape h.shape' h.newest h.newest'

/-- **Changes do not cancel out.** -/
theorem Grown.altered_trans (h : Grown d d') (h' : Grown d' d'') :
    Altered d d'' ↔ Altered d d' ∨ Altered d' d'' := by
  rw [(h.trans h').altered_iff, h.altered_iff, h'.altered_iff]
  constructor
  · intro hahead
    by_contra hneither
    obtain ⟨hnot, hnot'⟩ := not_or.mp hneither
    have hstill := (h.outcome.resolve_right hnot).trans (h'.outcome.resolve_right hnot')
    exact absurd hstill.progress (ne_of_gt hahead.further)
  · rintro (hahead | hahead)
    · exact h'.outcome.elim hahead.trans_still hahead.trans
    · exact h.outcome.elim (fun hstill => hstill.trans_ahead hahead) fun hbefore =>
        hbefore.trans hahead

/-- **The three numbers of both arrays tell whether the structure changed.** -/
theorem Grown.vitals_iff (h : Grown d d') : d'.vitals = d.vitals ↔ ¬ Altered d d' := by
  rw [h.altered_iff]
  constructor
  · exact fun hsame hahead => hahead.vitals_ne h.shape h.shape' h.newest h.newest' hsame
  · exact fun hahead => (h.outcome.resolve_right hahead).vitals

end Dictionary

/-! ## Unsafe walks with anything in between -/

namespace Walk

theorem enterIn_keeps (w : Walk) (d : Dictionary κ ν) (s : Side) (index : Nat) :
    (w.enterIn d s index).2.isSafe = w.isSafe ∧
      (w.enterIn d s index).2.fingerprint = w.fingerprint := by
  rw [enterIn]
  split <;> exact ⟨rfl, rfl⟩

theorem enter_keeps (w : Walk) (d : Dictionary κ ν) :
    (w.enter d).2.isSafe = w.isSafe ∧ (w.enter d).2.fingerprint = w.fingerprint := by
  have hfirst := w.enterIn_keeps d w.side w.index
  rw [enter]
  revert hfirst
  rcases w.enterIn d w.side w.index with ⟨_ | b, w'⟩
  · intro hfirst
    obtain ⟨hsafe, hfingerprint⟩ := w'.enterIn_keeps d .target 0
    dsimp only
    split
    · exact ⟨hsafe.trans hfirst.1, hfingerprint.trans hfirst.2⟩
    · exact hfirst
  · exact id

/-- What a walk is does not change when it is asked for its next entry. -/
theorem next_keeps (w : Walk) (d : Dictionary κ ν) :
    (w.next d).2.isSafe = w.isSafe ∧ (w.next d).2.fingerprint = w.fingerprint := by
  rw [next]
  split
  · exact w.enter_keeps d
  · split
    · exact ⟨rfl, rfl⟩
    · exact enter_keeps _ d

end Walk

namespace Situation

variable {σ : Type} (K : Keying κ ν) (g : WordSource σ)

open Dictionary

/-- An unsafe walk that begins in a situation, and what is done meanwhile: the situation now,
those that were passed since the walk began, the latest first, and where the walk stands. The
walk is asked for its next entry at any time, and any operation may come in between that takes
no entry out. -/
inductive Stroll (first : Situation κ ν σ) : Situation κ ν σ → List (Situation κ ν σ) →
    Walk → Prop
  | start : Stroll first first [] first.dictionary.walk
  | ask {s : Situation κ ν σ} {passed : List (Situation κ ν σ)} {w : Walk}
      (before : Stroll first s passed w) : Stroll first s passed (w.next s.dictionary).2
  | call {s : Situation κ ν σ} {passed : List (Situation κ ν σ)} {w : Walk}
      (before : Stroll first s passed w) (op : Operation κ ν) (keeps : ¬ op.TakesOut) :
      Stroll first (s.perform K g op).2 (s :: passed) w

/-- What is true all along an unsafe walk: it keeps its fingerprint, and the dictionary has
only grown, until each moment that was passed and from there until now. -/
structure Onlooks (first s : Situation κ ν σ) (passed : List (Situation κ ν σ)) (w : Walk) :
    Prop where
  unsafely : w.isSafe = false
  fingerprint : w.fingerprint = first.dictionary.fingerprint
  grown : Grown first.dictionary s.dictionary
  between : ∀ t ∈ passed, Grown first.dictionary t.dictionary ∧ Grown t.dictionary s.dictionary

variable {K g}

/-- The invariant holds all along. -/
theorem Stroll.onlooks {first s : Situation κ ν σ} {passed : List (Situation κ ν σ)} {w : Walk}
    (hshape : first.dictionary.Shape) (hnew : first.dictionary.Newest)
    (run : Stroll K g first s passed w) : Onlooks first s passed w := by
  -- induction on the run, one case for each thing that can come next
  induction run with
  | start => exact ⟨rfl, rfl, .refl hshape hnew, fun t ht => absurd ht List.not_mem_nil⟩
  | @ask s _ w _ ih =>
    obtain ⟨hsafe, hfingerprint⟩ := w.next_keeps s.dictionary
    exact ⟨hsafe.trans ih.unsafely, hfingerprint.trans ih.fingerprint, ih.grown, ih.between⟩
  | @call s _ _ _ op keeps ih =>
    have hgains := gains_perform K g ih.grown.shape' keeps
    have hgrown := Grown.of_gains ih.grown.shape' ih.grown.newest' hgains
    refine ⟨ih.unsafely, ih.fingerprint, ih.grown.trans hgrown, ?_⟩
    intro t ht
    rcases List.mem_cons.mp ht with rfl | ht
    · exact ⟨ih.grown, hgrown⟩
    · exact ⟨(ih.between t ht).1, (ih.between t ht).2.trans hgrown⟩

variable (K)

theorem newest_after (settings : Settings) (words : σ) (ops : List (Operation κ ν)) :
    ((start settings words).after K g ops).dictionary.Newest :=
  (after_induction K g (P := fun s => s.dictionary.Newest)
    (fun _ op hs h => h.changes (changes_perform K g hs op)) ops _ shape_empty newest_empty).1

/-- **Unsafe walks.** Let an unsafe walk begin in any situation that a new dictionary can come
to, and let anything be done meanwhile that takes no entry out. If the fingerprint tells the
two arrays by number, size and fill now from what they were then, handing the walk back faults
if and only if the structure has changed, and otherwise passes. What changed at any moment in
between has not been taken back. -/
theorem unsafe_walk_faults_iff_altered (settings : Settings) (words : σ)
    (earlier : List (Operation κ ν)) {s : Situation κ ν σ} {passed : List (Situation κ ν σ)}
    {w : Walk} (run : Stroll K g ((start settings words).after K g earlier) s passed w)
    (telling : s.dictionary.fingerprint =
        ((start settings words).after K g earlier).dictionary.fingerprint →
      s.dictionary.vitals = ((start settings words).after K g earlier).dictionary.vitals) :
    let before := ((start settings words).after K g earlier).dictionary
    ((s.dictionary.endWalk w).1 =
        .error (.changedUnderWalk before.fingerprint s.dictionary.fingerprint) ↔
      Altered before s.dictionary) ∧
    ((s.dictionary.endWalk w).1 = .ok () ↔ ¬ Altered before s.dictionary) ∧
    (s.dictionary.endWalk w).2 = s.dictionary ∧
    ∀ t ∈ passed, Altered before t.dictionary ∨ Altered t.dictionary s.dictionary →
      Altered before s.dictionary := by
  intro before
  have h := run.onlooks (shape_after K g settings words earlier)
    (newest_after K settings words earlier)
  have hfingerprint : w.fingerprint = before.fingerprint := h.fingerprint
  have hmeans : s.dictionary.fingerprint = before.fingerprint ↔ ¬ Altered before s.dictionary :=
    ⟨fun heq => h.grown.vitals_iff.mp (telling heq),
      fun hsame => fingerprint_congr (h.grown.vitals_iff.mpr hsame)⟩
  have hlater : ∀ t ∈ passed, Altered before t.dictionary ∨ Altered t.dictionary s.dictionary →
      Altered before s.dictionary := fun t ht =>
    ((h.between t ht).1.altered_trans (h.between t ht).2).mpr
  rw [endWalk, if_neg (by simp [h.unsafely]), hfingerprint]
  by_cases haltered : Altered before s.dictionary
  · rw [if_neg fun heq => hmeans.mp heq haltered]
    exact ⟨⟨fun _ => haltered, fun _ => rfl⟩, ⟨fun h => by simp at h, fun h => absurd haltered h⟩,
      rfl, hlater⟩
  · rw [if_pos (hmeans.mpr haltered)]
    exact ⟨⟨fun h => by simp at h, fun h => absurd h haltered⟩, ⟨fun _ => haltered, fun _ => rfl⟩,
      rfl, hlater⟩

/-- Two unsafe walks over fifteen in sixteen buckets, with four buckets as a target. During the
first the search for fifteen passes over ten empty buckets and another fifteen is refused, and
nothing is altered; during the second the search goes on to move the one chain there is. -/
theorem unsafe_walk_faults_on_a_moved_chain :
    (∃ s passed w, Stroll (Keying.numbers String) WordSource.splitMix
        ((start .standard 0).after (Keying.numbers String) WordSource.splitMix
          [.expand 16, .add 15 "fifteen", .expand 4]) s passed w ∧
      s.dictionary.frontier = some 10 ∧ (s.dictionary.endWalk w).1 = .ok () ∧
      ¬ Altered ((start .standard 0).after (Keying.numbers String) WordSource.splitMix
        [.expand 16, .add 15 "fifteen", .expand 4]).dictionary s.dictionary) ∧
    ∃ s passed w, Stroll (Keying.numbers String) WordSource.splitMix
        ((start .standard 0).after (Keying.numbers String) WordSource.splitMix
          [.expand 16, .add 15 "fifteen", .expand 4]) s passed w ∧
      s.dictionary.migrating = false ∧ (s.dictionary.endWalk w).1 ≠ .ok () ∧
      Altered ((start .standard 0).after (Keying.numbers String) WordSource.splitMix
        [.expand 16, .add 15 "fifteen", .expand 4]).dictionary s.dictionary := by
  have begun : Stroll (Keying.numbers String) WordSource.splitMix
      ((start .standard 0).after (Keying.numbers String) WordSource.splitMix
        [.expand 16, .add 15 "fifteen", .expand 4]) _ _ _ := .ask .start
  have passed := begun.call (.find 15 id) id
  have held := (passed.call .safeWalk id).call (.add 15 "again") id
  have moved := passed.call (.find 15 id) id
  obtain ⟨-, hkept, -⟩ := unsafe_walk_faults_iff_altered (Keying.numbers String) .standard 0 _ held
    (by decide +kernel)
  obtain ⟨hfault, -⟩ := unsafe_walk_faults_iff_altered (Keying.numbers String) .standard 0 _
    moved (by decide +kernel)
  exact ⟨⟨_, _, _, held, by decide +kernel, by decide +kernel, hkept.mp (by decide +kernel)⟩,
    ⟨_, _, _, moved, by decide +kernel, by decide +kernel, hfault.mp (by decide +kernel)⟩⟩

end Situation

end TwinTable
