/-
A dictionary with its links represents one without.

`Linked.Represents` says that both arrays hold the same chains, that what is alive in the
slab is what lies in those chains, and that frontier, walks, handles and settings are the
same. This file shows that moving entries keeps it, and never fails.

The care is needed inside a bucket that moves. While its entries are taken over one by one,
some of them are in no bucket at all: what is left of the chain is held by the loop alone,
and the source counts entries that it does not have any more (`Transit.exists_moveFrom`).
Between buckets everything is in its place again, and then a whole run of moves goes like
the run on lists, by the same induction as in `shifts_run`. It is the sound layout at each
step that says why no bucket is looked for past the end.
-/
import TwinTable.Proofs.Dictionary.Heads

set_option autoImplicit false

namespace TwinTable

/-! ## Moving a bucket -/

namespace Transit

variable {κ ν : Type}

/-- Entries on their way with their links, and without. -/
structure Carries (p : Transit κ ν) (q : Passage κ ν) : Prop where
  source : Heads.Holds p.slab p.source q.source
  target : Heads.Holds p.slab p.target q.target
  next : p.next = q.next

/-- **Entry by entry.** What is left of the chain leads on from `current`, and the source
still counts it. -/
theorem exists_moveFrom (hash : κ → UInt64) {bs : List (Binding κ ν)} : ∀ {fuel : Nat}
    {current : Option Nat} {p : Transit κ ν} {source target : Buckets κ ν},
      Slab.Leads p.slab current bs →
      bs.length ≤ fuel → bs.length ≤ p.source.used →
      Heads.Holds p.slab { p.source with used := p.source.used - bs.length } source →
      Heads.Holds p.slab p.target target → target.Sound → target.size ≠ 0 →
      (bs.map (·.id) ++ (source.handles ++ target.handles)).Nodup →
      ∃ p', moveFrom hash fuel current p = some p' ∧
        p'.Carries ⟨source, Passage.moveChain hash bs target, p.next⟩ ∧
        ∀ id, p'.slab id = none ↔ p.slab id = none := by
  -- induction on the chain still to be moved, with the handles of all three apart
  induction bs with
  | nil =>
    rintro fuel current p source target rfl - - hsource htarget - - -
    exact ⟨p, by unfold moveFrom; rfl, ⟨hsource, htarget, rfl⟩, fun _ => Iff.rfl⟩
  | cons b bs ih =>
    rintro fuel current p source target ⟨rfl, next, hcell, hrest⟩ hfuel hused hsource htarget
      hsound hroom hnodup
    rw [List.length_cons] at hused
    rw [List.map_cons, List.cons_append, List.nodup_cons, List.mem_append, List.mem_append,
      not_or, not_or] at hnodup
    obtain ⟨⟨hbs, hbsource, hbtarget⟩, hothers⟩ := hnodup
    obtain ⟨fuel, rfl, hfuel'⟩ := Slab.exists_fuel hfuel
    obtain ⟨used, hcount⟩ : ∃ n, p.source.used = n + 1 :=
      Nat.exists_eq_succ_of_ne_zero (by omega)
    have hi : target.index (hash b.key) < target.size := hsound.index_lt hroom _
    obtain ⟨t', slab', hpush, hheld, hsame⟩ := htarget.exists_pushFront hi hcell hbtarget
    -- the entry that was linked belongs neither to the rest nor to the source
    have hrest' : Slab.Leads slab' next bs := by
      apply hrest.sameOff hsame
      intro x hx he
      rw [List.mem_singleton] at he
      exact hbs (he ▸ List.mem_map_of_mem hx)
    have hsource' := hsource.sameOff hsame (by
      intro id hid he
      rw [List.mem_singleton] at he
      exact hbsource (he ▸ hid))
    have hdown : p.source.used - (bs.length + 1) = used - bs.length := by omega
    rw [List.length_cons, hdown] at hsource'
    -- one handle went from the rest to the target, and together they are the same
    have hnodup' : (bs.map (·.id) ++ (source.handles ++
        (target.push (target.index (hash b.key)) b).handles)).Nodup := by
      have hperm := (Buckets.toList_push b hi).map (·.id)
      have hall : (bs.map (·.id) ++ (source.handles ++
          (target.push (target.index (hash b.key)) b).handles)).Perm
            (b.id :: (bs.map (·.id) ++ (source.handles ++ target.handles))) := by
        refine ((hperm.append_left _).append_left _).trans ?_
        exact (List.perm_middle.append_left _).trans List.perm_middle
      refine (hall.nodup_iff).mpr (List.nodup_cons.mpr ⟨?_, hothers⟩)
      rw [List.mem_append, List.mem_append, not_or, not_or]
      exact ⟨hbs, hbsource, hbtarget⟩
    have hroom' : (target.push (target.index (hash b.key)) b).size ≠ 0 := by
      rwa [Buckets.size_push]
    have hused' : bs.length ≤ used := by omega
    obtain ⟨p', hrun, hcarries, halive⟩ := ih
      (p := ⟨slab', { p.source with used := used }, t', p.next⟩) hrest' hfuel' hused' hsource'
      hheld (hsound.push b hi) hroom' hnodup'
    refine ⟨p', ?_, hcarries, fun id => (halive id).trans (hsame.alive id)⟩
    rw [← htarget.index_eq] at hpush
    unfold moveFrom
    simp only [hcell, hpush, hcount, countDown, Option.bind_eq_bind, Option.bind_some]
    exact hrun

/-- **A bucket moves** as its chain does. -/
theorem Carries.exists_moveBucket (hash : κ → UInt64) {p : Transit κ ν} {q : Passage κ ν}
    {fuel : Nat} (h : p.Carries q) (hsource : q.source.Sound) (hin : q.next < q.source.size)
    (htarget : q.target.Sound) (hroom : q.target.size ≠ 0)
    (hnodup : (q.source.handles ++ q.target.handles).Nodup)
    (hfuel : (q.source.chain q.next).length ≤ fuel) :
    ∃ p', moveBucket hash fuel p = some p' ∧ p'.Carries (Passage.moveBucket hash q) ∧
      ∀ id, p'.slab id = none ↔ p.slab id = none := by
  have hinp : p.next < p.source.size := by rw [h.next, h.source.size]; exact hin
  obtain ⟨source, hset, hbut, hused, hhead⟩ := Heads.exists_setHead hinp none
  have hleads : Slab.Leads p.slab (p.source.head p.next) (q.source.chain q.next) := by
    rw [h.next]
    exact h.source.leads q.next
  -- the bucket is empty from now on, and counts its chain all the same
  have hleft : Heads.Holds p.slab
      { source with used := source.used - (q.source.chain q.next).length }
        (q.source.clearBucket q.next) := by
    refine h.source.of_bucket (i := q.next) ⟨hbut.size, hbut.mask, ?_⟩ ?_
      (Buckets.size_clearBucket _ _) ?_ ?_ (fun _ _ _ _ => rfl)
    · intro j hj
      exact hbut.head j (by rw [h.next]; exact hj)
    · show source.used - _ = q.source.used - _
      rw [hused, h.source.used]
    · intro j hj
      rw [Buckets.chain_clearBucket, if_neg fun hij => hj hij.1.symm]
    · rw [Buckets.chain_clearBucket, if_pos ⟨rfl, hin⟩, ← h.next]
      exact hhead
  have hcount : (q.source.chain q.next).length ≤ source.used := by
    rw [hused, h.source.used]
    exact hsource.length_chain_le q.next
  have hnodup' : ((q.source.chain q.next).map (·.id) ++
      ((q.source.clearBucket q.next).handles ++ q.target.handles)).Nodup := by
    have hperm := ((Buckets.toList_clearBucket hin).map (·.id)).append_right q.target.handles
    rw [List.map_append, List.append_assoc] at hperm
    exact (hperm.nodup_iff).mp hnodup
  obtain ⟨p', hrun, hcarries, halive⟩ := exists_moveFrom hash
    (p := { p with source := source }) hleads hfuel hcount hleft h.target htarget hroom hnodup'
  refine ⟨{ p' with next := p'.next + 1 }, ?_, ⟨hcarries.source, hcarries.target, ?_⟩, halive⟩
  · simp only [moveBucket, Heads.getElem?_buckets hinp, hset, Option.bind_eq_bind,
      Option.bind_some, hrun]
    rfl
  · show p'.next + 1 = q.next + 1
    rw [hcarries.next, h.next]

end Transit

/-- Passing empty buckets stops where it does on lists, and does not leave the array as long
as there is a chain ahead. -/
theorem Heads.Holds.passEmpty {κ ν : Type} {slab : Slab κ ν} {t : Heads} {b : Buckets κ ν}
    (h : Heads.Holds slab t b) : ∀ {allowance next : Nat}, 0 < allowance →
      (∃ j, next ≤ j ∧ j < b.size ∧ b.chain j ≠ []) →
      t.passEmpty allowance next = some (Passage.passEmpty b allowance next) := by
  intro allowance
  -- induction on the allowance; the chain ahead bounds every bucket that is looked at
  induction allowance with
  | zero => intro next hpos _; exact absurd hpos (Nat.lt_irrefl 0)
  | succ allowance ih =>
    rintro next - ⟨j, hle, hlt, hne⟩
    have hin : next < t.size := by rw [h.size]; omega
    rw [Heads.passEmpty, Passage.passEmpty, Heads.getElem?_buckets hin]
    by_cases hc : b.chain next = []
    · have hnone : t.head next = none := (h.leads next).eq_none_iff.mpr hc
      rw [hnone, if_pos (List.isEmpty_iff.mpr hc)]
      dsimp only
      by_cases hzero : allowance = 0
      · rw [if_pos hzero, hzero]
        rfl
      · rw [if_neg hzero]
        refine ih (Nat.pos_of_ne_zero hzero) ⟨j, ?_, hlt, hne⟩
        -- the chain ahead is not this one, which is empty
        rcases Nat.eq_or_lt_of_le hle with rfl | hlt
        · exact absurd hc hne
        · exact hlt
    · obtain ⟨id, hid⟩ : ∃ id, t.head next = some id := by
        rw [← Option.ne_none_iff_exists']
        exact fun hnone => hc ((h.leads next).eq_none_iff.mp hnone)
      have hfull : ¬ (b.chain next).isEmpty = true := fun h => hc (List.isEmpty_iff.mp h)
      rw [hid, if_neg hfull]

namespace Linked

variable {κ ν : Type} {l : Linked κ ν} {d : Dictionary κ ν} {st : Settings}

/-! ## Representing -/

/-- A dictionary with its links that represents one without, under its settings. -/
structure Represents (st : Settings) (l : Linked κ ν) (d : Dictionary κ ν) : Prop where
  main : Heads.Holds l.slab l.main d.main
  target : Heads.Holds l.slab l.target d.target
  /-- What lives in the slab is what lies in the chains. -/
  alive : ∀ id, l.slab id = none ↔ id ∉ d.handles
  frontier : l.frontier = d.frontier
  walks : l.walks = d.walks
  issued : l.issued = d.nextId
  settings : l.settings = st

/-- A result that is not a failure and represents a dictionary. -/
def Yields (st : Settings) (result : Option (Linked κ ν)) (d : Dictionary κ ν) : Prop :=
  ∃ l, result = some l ∧ Represents st l d

theorem Represents.yields (h : Represents st l d) : Yields st (some l) d := ⟨l, rfl, h⟩

/-- What is done next on links need only be looked at where there is a dictionary to do it to. -/
theorem Yields.bind {result : Option (Linked κ ν)} {f : Linked κ ν → Option (Linked κ ν)}
    {d' : Dictionary κ ν} (h : Yields st result d)
    (hf : ∀ l, Represents st l d → Yields st (f l) d') : Yields st (result.bind f) d' := by
  obtain ⟨l, rfl, hl⟩ := h
  exact hf l hl

/-- A new slab with no arrays is a new dictionary. -/
theorem represents_start (st : Settings) : Represents st (start st : Linked κ ν) .empty where
  main := Heads.holds_unallocated
  target := Heads.holds_unallocated
  alive := fun _ => ⟨fun _ => List.not_mem_nil, fun _ => rfl⟩
  frontier := rfl
  walks := rfl
  issued := rfl
  settings := rfl

theorem Represents.side (h : Represents st l d) (s : Side) :
    Heads.Holds l.slab (l.side s) (d.side s) := by
  cases s with
  | main => exact h.main
  | target => exact h.target

theorem Represents.migrating_eq (h : Represents st l d) : l.migrating = d.migrating := by
  rw [migrating, Dictionary.migrating, h.frontier]

theorem Represents.isEmpty_eq (h : Represents st l d) : l.isEmpty = d.isEmpty := by
  rw [isEmpty, Dictionary.isEmpty, Dictionary.size, h.main.used, h.target.used]

theorem Represents.hasMoved_eq (h : Represents st l d) (i : Nat) :
    l.hasMoved i = d.hasMoved i := by
  rcases hf : d.frontier with _ | next
  · simp [hasMoved, Dictionary.hasMoved, h.frontier, hf]
  · simp [hasMoved, Dictionary.hasMoved, h.frontier, hf]

/-- The seed is the same on both levels, and so are the hashes. -/
theorem Represents.hash_eq (h : Represents st l d) (K : Keying κ ν) :
    l.hash K = (Rules.mk K st).hash := by
  funext k
  rw [hash, h.settings]
  rfl

/-- What is put into the outbox is of no concern here. -/
theorem Represents.of_outbox (h : Represents st l d) (o : Outbox κ ν) :
    Represents st l { d with outbox := o } :=
  ⟨h.main, h.target, h.alive, h.frontier, h.walks, h.issued, h.settings⟩

theorem Represents.note (h : Represents st l d) (n : Notice) : Represents st l (d.note n) :=
  h.of_outbox _

theorem Represents.hand (h : Represents st l d) (c : Custody κ ν) : Represents st l (d.hand c) :=
  h.of_outbox _

theorem Represents.handAll (h : Represents st l d) (cs : List (Custody κ ν)) :
    Represents st l (d.handAll cs) := by
  obtain ⟨o, ho⟩ := Dictionary.exists_outbox_handAll cs d
  rw [ho]
  exact h.of_outbox o

/-- There is enough fuel for every chain. -/
theorem Represents.length_chain_le (h : Represents st l d) (hd : d.Shape) (s : Side) (i : Nat) :
    ((d.side s).chain i).length ≤ l.issued := by
  rw [h.issued]
  exact hd.length_chain_le s i

/-! ## Runs of moves -/

/-- The dictionary with a transit that is under way. -/
def under (l : Linked κ ν) (p : Transit κ ν) : Linked κ ν :=
  { l with slab := p.slab, main := p.source, target := p.target, frontier := some p.next }

/-- Once everything has moved, what lies in the source and in the target lies in the target. -/
theorem Represents.land {p : Transit κ ν} {q : Passage κ ν}
    (h : Represents st (l.under p) (d.under q)) (hsource : q.source.Sound) :
    Represents st (l.land p) (d.land q).2 := by
  have hused : p.source.used = q.source.used := h.main.used
  rw [Linked.land]
  by_cases hu : q.source.used = 0
  · rw [if_pos (hused.trans hu), Dictionary.land_of_used_eq_zero d hu]
    apply Represents.note
    refine ⟨h.target, Heads.holds_unallocated, ?_, rfl, h.walks, h.issued, h.settings⟩
    intro id
    have hids : (d.under q).handles = q.target.handles := by
      rw [Dictionary.handles_eq]
      show q.source.handles ++ _ = _
      rw [Buckets.handles, hsource.used_eq_zero.mp hu]
      rfl
    rw [Dictionary.handles_eq]
    show p.slab id = none ↔ id ∉ q.target.handles ++ []
    rw [List.append_nil, ← hids]
    exact h.alive id
  · rw [if_neg (hused ▸ hu), Dictionary.land_of_used_ne_zero d hu]
    exact h

/-- The bucket at the frontier moves. -/
theorem Represents.exists_moveBucket (hash : κ → UInt64) {p : Transit κ ν} {q : Passage κ ν}
    (h : Represents st (l.under p) (d.under q)) (hd : (d.under q).Shape) :
    ∃ p', Transit.moveBucket hash l.issued p = some p' ∧
      Represents st (l.under p') (d.under (Passage.moveBucket hash q)) := by
  obtain ⟨hin, hroom, -⟩ := hd.moving q.next rfl
  have hlength : (q.source.chain q.next).length ≤ l.issued := h.length_chain_le hd .main q.next
  have hcarries : p.Carries q := ⟨h.main, h.target, Option.some.inj h.frontier⟩
  have hnodup : (q.source.handles ++ q.target.handles).Nodup := by
    have hall := hd.handles
    rwa [Dictionary.toList, List.map_append] at hall
  obtain ⟨p', hrun, hmoved, halive⟩ :=
    hcarries.exists_moveBucket hash hd.main hin hd.target hroom hnodup hlength
  have hperm : (d.under (Passage.moveBucket hash q)).toList.Perm (d.under q).toList :=
    Passage.toList_moveBucket hash hin hd.target hroom
  refine ⟨p', hrun, hmoved.source, hmoved.target, ?_, congrArg some hmoved.next, h.walks,
    h.issued, h.settings⟩
  intro id
  refine (halive id).trans ((h.alive id).trans (not_congr ?_))
  exact (hperm.map (·.id)).mem_iff.symm

/-- **A run of moves** does link by link what it does on lists. The source is counted
correctly at its end, so that landing can tell whether anything is left. -/
theorem exists_run (hash : κ → UInt64) (hw : d.walks = 0) : ∀ (n allowance : Nat)
    {p : Transit κ ν} {q : Passage κ ν}, Represents st (l.under p) (d.under q) →
      (d.under q).Shape → (n ≠ 0 → 0 < allowance) →
      ∃ p', Transit.run hash l.issued n allowance p = some p' ∧
        Represents st (l.under p') (d.under (Passage.run hash n allowance q)) ∧
        (Passage.run hash n allowance q).source.Sound := by
  -- induction on the buckets still asked for; the layout is sound before each of them
  intro n
  induction n with
  | zero =>
    intro allowance p q h hd _
    exact ⟨p, rfl, h, hd.main⟩
  | succ n ih =>
    intro allowance p q h hd hpos
    have hused : p.source.used = q.source.used := h.main.used
    have hnext : p.next = q.next := Option.some.inj h.frontier
    by_cases hu : q.source.used = 0
    · rw [Passage.run_of_used_eq_zero hu, Transit.run, if_pos (hused.trans hu)]
      exact ⟨p, rfl, h, hd.main⟩
    · rw [Transit.run, if_neg (hused ▸ hu), Passage.run, if_neg hu]
      -- something lies ahead, as the source is not empty and nothing is behind the frontier
      have hahead := hd.main.exists_chain_ne_nil hu (hd.behind q.next rfl)
      have hpassed : p.source.passEmpty allowance p.next =
          some (Passage.passEmpty q.source allowance q.next) := by
        rw [hnext]
        exact h.main.passEmpty (hpos (Nat.succ_ne_zero n)) hahead
      have hpass : Dictionary.Shifts hash (d.under q)
          (d.under { q with next := (Passage.passEmpty q.source allowance q.next).1 }) :=
        Dictionary.shifts_passEmpty allowance (d.under q) q.next hw rfl hu
      have hstop := (Passage.passEmpty_spec q.source allowance q.next).2.2.2
      rw [hpassed]
      revert hpass hstop
      rcases Passage.passEmpty q.source allowance q.next with ⟨next, left⟩
      intro hpass hstop
      have hd' := hd.shifts hpass
      have h' : Represents st (l.under { p with next := next })
          (d.under { q with next := next }) :=
        ⟨h.main, h.target, h.alive, rfl, h.walks, h.issued, h.settings⟩
      cases left with
      | zero => exact ⟨_, rfl, h', hd'.main⟩
      | succ left =>
        obtain ⟨p', hrun, h''⟩ := h'.exists_moveBucket hash hd'
        have hsource : (Passage.moveBucket hash { q with next := next }).source.Sound :=
          hd'.main.clearBucket (hd'.moving next rfl).1
        dsimp only
        rw [show Transit.moveBucket hash l.issued { p with next := next } = some p' from hrun,
          Option.bind_some]
        by_cases hlast : (q.source.chain next).length = q.source.used
        · -- the chain was the last one, and both runs end here
          have hempty : (Passage.moveBucket hash { q with next := next }).source.used = 0 := by
            show q.source.used - (q.source.chain next).length = 0
            omega
          rw [Passage.run_of_used_eq_zero hempty]
          refine ⟨p', ?_, h'', hsource⟩
          have hused' : p'.source.used = 0 := h''.main.used.trans hempty
          cases n with
          | zero => rfl
          | succ n => rw [Transit.run, if_pos hused']
        · have hle := hd'.main.length_chain_le next
          have hmove : Dictionary.Shift hash (d.under { q with next := next })
              (d.under (Passage.moveBucket hash { q with next := next })) :=
            .move (i := next) hw rfl (hstop (Nat.succ_ne_zero left))
              (Nat.lt_of_le_of_ne hle hlast)
          exact ih _ h'' (hd'.shift hmove) fun _ => Nat.succ_pos left

/-! ## Moving on request and on the side -/

variable (K : Keying κ ν)

/-- **Moving on request** fails nowhere. While a walk is open, or if nothing is on the move, it
does nothing on either level; otherwise it is one run of moves and its landing. -/
theorem Represents.migrate (h : Represents st l d) (hd : d.Shape) (n : Nat) :
    Yields st (l.migrate K n) (d.migrate ⟨K, st⟩ n).2 := by
  rcases hf : d.frontier with _ | i
  · rw [Linked.migrate, h.frontier, hf, Dictionary.migrate_of_frontier_none _ hf]
    exact h.yields
  · rw [Linked.migrate, h.frontier, hf]
    dsimp only
    by_cases hw : d.walks = 0
    · rw [Dictionary.migrate_of_frontier_some _ hf hw, if_neg (by rw [h.walks, hw]; simp)]
      have hself : d.under ⟨d.main, d.target, i⟩ = d := by
        rw [Dictionary.under, ← hf]
      have hstart : Represents st (l.under ⟨l.slab, l.main, l.target, i⟩)
          (d.under ⟨d.main, d.target, i⟩) :=
        ⟨h.main, h.target, hself.symm ▸ h.alive, rfl, h.walks, h.issued, h.settings⟩
      obtain ⟨p, hrun, hend, hsource⟩ := exists_run (Rules.mk K st).hash hw n
        (Dictionary.emptyPerBucket * n) hstart (hself.symm ▸ hd)
        fun hn => Nat.mul_pos (by decide) (Nat.pos_of_ne_zero hn)
      refine ⟨l.land p, ?_, hend.land hsource⟩
      rw [h.hash_eq, hrun]
      rfl
    · rw [Dictionary.migrate_of_walks_pos _ hf hw,
        if_pos (by rw [h.walks]; exact Nat.pos_of_ne_zero hw)]
      exact h.yields

theorem Represents.migrateStep (h : Represents st l d) (hd : d.Shape) :
    Yields st (l.migrateStep K) (d.migrateStep ⟨K, st⟩) := by
  unfold Linked.migrateStep Dictionary.migrateStep
  rw [h.walks]
  split
  · exact h.migrate K hd 1
  · exact h.yields

/-- Several buckets one after another, for as long as entries are on the move. -/
theorem Represents.migrateSteps : ∀ {n : Nat} {l : Linked κ ν} {d : Dictionary κ ν},
    Represents st l d → d.Shape → Yields st (l.migrateSteps K n) (d.migrateSteps ⟨K, st⟩ n) := by
  intro n
  induction n with
  | zero => intro l d h _; exact h.yields
  | succ n ih =>
    intro l d h hd
    unfold Linked.migrateSteps Dictionary.migrateSteps
    rw [h.migrating_eq]
    split
    · have hstep := Dictionary.shifts_migrateStep (r := ⟨K, st⟩) hd
      exact (h.migrateStep K hd).bind fun l' h' => ih h' (hd.shifts hstep)
    · exact h.yields

/-- Rounds of moves go on while there is more to move, which the answer of the last round says on
the one level and the frontier on the other. -/
theorem Represents.migrateRounds : ∀ {rounds moved : Nat} {l : Linked κ ν} {d : Dictionary κ ν},
    Represents st l d → d.Shape →
      Yields st (l.migrateRounds K rounds) (d.migrateRounds ⟨K, st⟩ rounds moved).2 := by
  intro rounds
  -- induction on the rounds; the clock is the same on both levels
  induction rounds with
  | zero =>
    intro moved l d h hd
    have hyields := h.migrate K hd Dictionary.bucketsPerRound
    rw [Linked.migrateRounds, Dictionary.migrateRounds]
    revert hyields
    rcases d.migrate ⟨K, st⟩ Dictionary.bucketsPerRound with ⟨more, d'⟩
    rintro ⟨l', hl', h'⟩
    cases more with
    | false => exact ⟨l', hl', h'⟩
    | true => exact ⟨l', hl', h'.note _⟩
  | succ rounds ih =>
    intro moved l d h hd
    have hyields := h.migrate K hd Dictionary.bucketsPerRound
    have hmore := Dictionary.migrate_fst ⟨K, st⟩ d Dictionary.bucketsPerRound
    have hshifts := Dictionary.shifts_migrate ⟨K, st⟩ hd Dictionary.bucketsPerRound
    rw [Linked.migrateRounds, Dictionary.migrateRounds]
    revert hyields hmore hshifts
    rcases d.migrate ⟨K, st⟩ Dictionary.bucketsPerRound with ⟨more, d'⟩
    intro hyields hmore hshifts
    apply hyields.bind
    intro l' h'
    rw [h'.migrating_eq, ← hmore]
    cases more with
    | false => exact h'.yields
    | true => exact ih h' (hd.shifts hshifts)

theorem Represents.migrateFor (h : Represents st l d) (hd : d.Shape) (rounds : Nat) :
    Yields st (l.migrateFor K rounds) (d.migrateFor ⟨K, st⟩ rounds).2 := by
  unfold Linked.migrateFor Dictionary.migrateFor
  rw [h.walks]
  split
  · exact h.yields
  · exact h.migrateRounds K hd

/-! ## New sizes -/

/-- **A new array** is allocated in the place of the main array if there was none, and as the
target of a move otherwise. It holds nothing, so the slab is what it was. -/
theorem Represents.expand (h : Represents st l d) (hd : d.Shape) (size : Nat) :
    Represents st (l.expand size) (d.expand size).2 := by
  unfold Linked.expand Dictionary.expand
  rw [h.migrating_eq, h.main.used, h.main.size]
  by_cases hm : d.migrating = true
  · rw [if_pos hm, if_pos hm]
    exact h
  · rw [if_neg hm, if_neg hm]
    have hf : d.frontier = none := Dictionary.migrating_eq_false.mp (by simpa using hm)
    dsimp only
    split
    · exact h
    · by_cases hs : d.main.size = 0
      · -- there was no array, so nothing is in it and nothing is alive
        have hnone : ¬ d.main.isAllocated = true := fun ha =>
          Dictionary.isAllocated_eq_true.mp ha hs
        have hmain : d.main.handles = [] := by
          rw [Buckets.handles, hd.main.eq_unallocated hs]
          rfl
        rw [if_neg (not_not.mpr hs), if_neg hnone]
        apply Represents.note
        refine ⟨Heads.holds_allocate _ _, h.target, ?_, h.frontier, h.walks, h.issued,
          h.settings⟩
        intro id
        have halive := h.alive id
        rw [Dictionary.handles_eq, hmain] at halive
        rw [Dictionary.handles_eq]
        show _ ↔ id ∉ Buckets.handles (.allocate d.nextArray (Buckets.sizeFor size)) ++ _
        rw [Buckets.handles, Buckets.toList_allocate]
        exact halive
      · rw [if_pos hs, if_pos (Dictionary.isAllocated_eq_true.mpr hs)]
        apply Represents.note
        refine ⟨h.main, Heads.holds_allocate _ _, ?_, rfl, h.walks, h.issued, h.settings⟩
        intro id
        have halive := h.alive id
        rw [Dictionary.handles_eq, hd.settled hf] at halive
        rw [Dictionary.handles_eq]
        show _ ↔ id ∉ _ ++ Buckets.handles (.allocate d.nextArray (Buckets.sizeFor size))
        rw [Buckets.handles, Buckets.handles, Buckets.toList_allocate]
        exact halive

theorem Represents.resizeTo (h : Represents st l d) (hd : d.Shape) (size : Nat) :
    Represents st (l.resizeTo size) (d.resizeTo ⟨K, st⟩ size).2 := by
  unfold Linked.resizeTo Dictionary.resizeTo
  rw [h.settings]
  dsimp only
  split
  · exact h.expand hd size
  · exact h

/-- **Growing** asks for the same size on both levels or for none; what else it does is to tell of
it. -/
theorem Represents.growIfNeeded (h : Represents st l d) (hd : d.Shape) :
    Represents st l.growIfNeeded (d.growIfNeeded ⟨K, st⟩) := by
  have hexpand : ∀ (size : Nat) (result : Except Fault Unit) (d' : Dictionary κ ν),
      d.expand size = (result, d') → Represents st (l.expand size) d' := by
    intro size result d' he
    have hsize := h.expand hd size
    rwa [he] at hsize
  have hunallocated : (!d.main.isAllocated) = true ↔ d.main.size = 0 := by
    simp [Buckets.isAllocated]
  unfold Linked.growIfNeeded Dictionary.growIfNeeded
  simp only [h.migrating_eq, h.main.used, h.main.size, h.walks, h.settings, hunallocated]
  split_ifs
  · exact h
  · split
    · exact hexpand _ _ _ ‹_›
    · exact (hexpand _ _ _ ‹_›).note _
  · exact h
  · exact h.note _
  · split
    · exact hexpand _ _ _ ‹_›
    · exact (hexpand _ _ _ ‹_›).note _
  · exact h.note _

end Linked

end TwinTable
