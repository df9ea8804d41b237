/-
A quick draw ends and can come to every entry.

`pick` is not fair, but it must not hang and must leave no entry out. It tries buckets until
one is not empty. What it draws from are the numbers from the frontier on, which leaves out
empty buckets only; so where there is an entry, some number has a chain
(`Shape.exists_chain`), and a source that comes to that number ends the loop. A smaller range
could hang on it, or miss a chain.

The first bucket with a chain is accepted (`FirstHit`), and then a position below the length of
that chain, which is drawn once and never rejected. Such pairs of draws (`Accepts`) and the
entries are in bijection: the chains by number are the list of entries, one behind the other.

How often a bucket is tried is left open. A draw that has more tries than there are misses does
not depend on how many it has (`pickWithin_of_firstHit`), and one that has not so many comes
back with nothing, never with something else (`Shape.pickWithin_eq_none`). Whether the patience
of `pick` is enough for the words at hand is a matter of the source: `Situation.InVain` says of
a draw that it is not.
-/
import TwinTable.Proofs.Dictionary.FairDraws

set_option autoImplicit false

namespace TwinTable

namespace Dictionary

variable {κ ν σ : Type} {d : Dictionary κ ν}

/-! ## Pairs of draws -/

/-- The pairs of draws that can be accepted: the number of a bucket that may hold entries, and
a position in its chain. -/
def Accepts (d : Dictionary κ ν) (draws : Nat × Nat) : Prop :=
  (d.firstLive ≤ draws.1 ∧ draws.1 < d.endLive) ∧ draws.2 < (d.numbered draws.1).length

/-- What is accepted would be a round of a fair draw as well. -/
theorem Accepts.mem_rounds {draws : Nat × Nat} (h : d.Accepts draws) : draws ∈ d.rounds := by
  obtain ⟨⟨hfirst, hend⟩, hposition⟩ := h
  have hnumber : draws.1 ∈ List.range' d.firstLive (d.endLive - d.firstLive) :=
    List.mem_range'_1.mpr ⟨hfirst, by omega⟩
  exact Dictionary.mem_rounds.mpr
    ⟨⟨hfirst, hend⟩, Nat.lt_of_lt_of_le hposition (length_numbered_le hnumber)⟩

/-- **Each entry has its pair of draws**, and no other. -/
theorem Shape.existsUnique_accepts (hd : d.Shape) {b : Binding κ ν} (hb : b ∈ d.toList) :
    ∃! draws, d.Accepts draws ∧ d.hit? draws = some b := by
  obtain ⟨round, ⟨hround, hhit⟩, hunique⟩ := hd.existsUnique_round hb
  obtain ⟨hposition, -⟩ := List.getElem?_eq_some_iff.mp hhit
  exact ⟨round, ⟨⟨(Dictionary.mem_rounds.mp hround).1, hposition⟩, hhit⟩,
    fun draws h => hunique draws ⟨h.1.mem_rounds, h.2⟩⟩

/-- Every pair that can be accepted is that of an entry. -/
theorem exists_of_accepts {draws : Nat × Nat} (h : d.Accepts draws) :
    ∃ b ∈ d.toList, d.hit? draws = some b := by
  have hhit : d.hit? draws = some ((d.numbered draws.1).get ⟨draws.2, h.2⟩) :=
    List.getElem?_eq_getElem h.2
  exact ⟨_, mem_toList_of_hit? hhit, hhit⟩

/-! ## Picks with any number of tries -/

/-- A pick that tries so many buckets. -/
def pickWithin (g : WordSource σ) (r : Rules κ ν) (d : Dictionary κ ν) (tries : Nat) (s : σ) :
    Option (Binding κ ν) × σ × Dictionary κ ν :=
  if d.isEmpty then
    (none, s, d)
  else
    let d := d.migrateStep r
    match d.drawChain g tries s with
    | (none, s) => (none, s, d)
    | (some chain, s) =>
      let (position, s) := g.below chain.length s
      (chain[position]?, s, d)

theorem pick_eq_pickWithin (g : WordSource σ) (r : Rules κ ν) (d : Dictionary κ ν) (s : σ) :
    d.pick g r s = d.pickWithin g r patience s := rfl

variable {g : WordSource σ} {r : Rules κ ν} {s : σ} {t tries : Nat}

/-- The position that is drawn in the chain of the first hit. -/
def positionDrawn (d : Dictionary κ ν) (g : WordSource σ) (s : σ) (t : Nat) : Nat :=
  (g.below (d.numbered (d.drawn g s t)).length (g.skip (t + 1) s)).1

/-- The two draws that end a pick make a pair that can be accepted. -/
theorem accepts_of_firstHit (hbuckets : d.firstLive < d.endLive) (h : d.FirstHit g s t) :
    d.Accepts (d.drawn g s t, d.positionDrawn g s t) :=
  ⟨drawn_bounds hbuckets g s t, Nat.mod_lt _ (List.length_pos_of_ne_nil h.hit)⟩

/-- **The first hit decides what is picked**, together with the one draw behind it. -/
theorem pickWithin_of_firstHit (hne : d.isEmpty = false)
    (h : (d.migrateStep r).FirstHit g s t) (ht : t < tries) :
    d.pickWithin g r tries s =
      ((d.migrateStep r).hit?
          ((d.migrateStep r).drawn g s t, (d.migrateStep r).positionDrawn g s t),
        g.skip (t + 2) s, d.migrateStep r) := by
  rw [pickWithin, if_neg (by simp [hne])]
  dsimp only
  rw [h.drawChain_eq ht, g.skip_succ (t + 1)]
  rfl

/-- **A pick yields an entry** once there are tries enough for a hit. -/
theorem Shape.exists_pickWithin (hd : d.Shape) (hne : d.isEmpty = false)
    (h : (d.migrateStep r).FirstHit g s t) :
    ∃ b ∈ d.toList,
      (d.migrateStep r).hit?
        ((d.migrateStep r).drawn g s t, (d.migrateStep r).positionDrawn g s t) = some b ∧
      ∀ tries, t < tries →
        d.pickWithin g r tries s = (some b, g.skip (t + 2) s, d.migrateStep r) := by
  have hshifts := shifts_migrateStep (r := r) hd
  obtain ⟨hbuckets, -⟩ := (hd.shifts hshifts).exists_round (hd.toList_migrateStep_ne_nil hne)
  obtain ⟨b, hb, hhit⟩ := exists_of_accepts (accepts_of_firstHit hbuckets h)
  refine ⟨b, (hshifts.toList_perm hd).1.mem_iff.mp hb, hhit, fun tries ht => ?_⟩
  rw [pickWithin_of_firstHit hne h ht, hhit]

/-- **Only misses keep a pick from an entry.** -/
theorem Shape.pickWithin_eq_none (hd : d.Shape) (hne : d.isEmpty = false) :
    (d.pickWithin g r tries s).1 = none ↔
      ∀ t < tries, (d.migrateStep r).numbered ((d.migrateStep r).drawn g s t) = [] := by
  rcases misses_or_firstHit (d.migrateStep r) g s tries with hmisses | ⟨t, ht, hhit⟩
  · refine iff_of_true ?_ hmisses
    rw [pickWithin, if_neg (by simp [hne])]
    dsimp only
    rw [drawChain_of_misses hmisses]
  · obtain ⟨b, -, -, hpick⟩ := hd.exists_pickWithin hne hhit
    refine iff_of_false ?_ fun hmisses => hhit.hit (hmisses t ht)
    rw [hpick tries ht]
    exact Option.some_ne_none b

/-- All the tries of a pick miss. -/
def PickInVain (g : WordSource σ) (r : Rules κ ν) (d : Dictionary κ ν) (s : σ) : Prop :=
  ∀ t < patience, (d.migrateStep r).numbered ((d.migrateStep r).drawn g s t) = []

/-- **A pick comes back with nothing** if there are no entries or it was in vain, and not
otherwise. -/
theorem Shape.pick_eq_none (hd : d.Shape) :
    (d.pick g r s).1 = none ↔ d.isEmpty = true ∨ d.PickInVain g r s := by
  by_cases hempty : d.isEmpty = true
  · rw [pick, if_pos hempty]
    exact iff_of_true rfl (.inl hempty)
  · rw [pick_eq_pickWithin, hd.pickWithin_eq_none (Bool.eq_false_iff.mpr hempty)]
    exact (or_iff_right hempty).symm

/-- A pick is in vain unless it hits in time. -/
theorem not_pickInVain :
    ¬ d.PickInVain g r s ↔ ∃ t < patience, (d.migrateStep r).FirstHit g s t := by
  constructor
  · exact (misses_or_firstHit (d.migrateStep r) g s patience).resolve_left
  · rintro ⟨t, ht, hhit⟩ hmisses
    exact hhit.hit (hmisses t ht)

end Dictionary

namespace Situation

variable {κ ν σ : Type} (K : Keying κ ν) (g : WordSource σ)

open Dictionary

/-- In this situation an operation that picks an entry has no luck: all its tries miss. -/
def InVain (s : Situation κ ν σ) : Operation κ ν → Prop
  | .pick => s.dictionary.PickInVain g (s.rules K) s.words
  | .pickFairly => s.dictionary.FairPickInVain g (s.rules K) s.words
  | _ => False

/-- **A quick draw ends and reaches every entry.** Take any dictionary with entries that a new
one can come to, its entries on the move or not, and the bucket that a draw moves along first.
There is a bucket to draw, and one of those that can be drawn is not empty. So a source that
comes to each number of this range comes to a first hit, and within as many draws as it needs
for them all. Behind the hit there is a position to draw, and whatever the source, the pick
yields the entry that the two draws stand for, with any number of tries that is enough for the
misses; it yields none only if all its tries are misses. And each entry is that of exactly one
pair of draws that can be accepted. -/
theorem quick_draw_ends_and_reaches_each_entry (settings : Settings) (words : σ)
    (earlier : List (Operation κ ν)) :
    let s := (start settings words).after K g earlier
    let d := s.dictionary
    let moved := d.migrateStep (s.rules K)
    d.isEmpty = false →
      moved.firstLive < moved.endLive ∧
      (∃ h, moved.firstLive ≤ h ∧ h < moved.endLive ∧ moved.numbered h ≠ []) ∧
      (∀ {τ : Type} (source : WordSource τ) (words' : τ),
        ((∀ h, moved.firstLive ≤ h → h < moved.endLive → ∃ t, moved.drawn source words' t = h) →
          ∃ t, moved.FirstHit source words' t) ∧
        (∀ tries, (∀ h, moved.firstLive ≤ h → h < moved.endLive →
            ∃ t < tries, moved.drawn source words' t = h) →
          ∃ t < tries, moved.FirstHit source words' t) ∧
        (∀ t, moved.FirstHit source words' t →
          let draws := (moved.drawn source words' t, moved.positionDrawn source words' t)
          0 < (moved.numbered draws.1).length ∧ moved.Accepts draws ∧
            ∃ b ∈ d.toList, moved.hit? draws = some b ∧
              ∀ tries, t < tries → d.pickWithin source (s.rules K) tries words' =
                (some b, source.skip (t + 2) words', moved)) ∧
        (∀ tries, (d.pickWithin source (s.rules K) tries words').1 = none ↔
          ∀ t < tries, moved.numbered (moved.drawn source words' t) = []) ∧
        ((∃ t < patience, moved.FirstHit source words' t) →
          ∃ b ∈ d.toList, (d.pick source (s.rules K) words').1 = some b)) ∧
      (∀ b ∈ d.toList, ∃! draws, moved.Accepts draws ∧ moved.hit? draws = some b) ∧
      (∀ draws, moved.Accepts draws → ∃ b ∈ d.toList, moved.hit? draws = some b) := by
  intro s d moved hne
  have hd : d.Shape := shape_after K g settings words earlier
  have hshifts := shifts_migrateStep (r := s.rules K) hd
  have hmoved : moved.Shape := hd.shifts hshifts
  have hperm : moved.toList.Perm d.toList := (hshifts.toList_perm hd).1
  obtain ⟨h, hfirst, hend, hchain⟩ := hmoved.exists_chain (hd.toList_migrateStep_ne_nil hne)
  have hbuckets : moved.firstLive < moved.endLive := Nat.lt_of_le_of_lt hfirst hend
  refine ⟨hbuckets, ⟨h, hfirst, hend, hchain⟩, fun source words' => ?_,
    fun b hb => hmoved.existsUnique_accepts (hperm.mem_iff.mpr hb), fun draws hdraws => ?_⟩
  · -- the number of a chain is a hit, so the first hit is there by then
    have hcomes : ∀ t, moved.drawn source words' t = h →
        ∃ first ≤ t, moved.FirstHit source words' first :=
      fun t hdrawn => exists_firstHit (hdrawn.symm ▸ hchain)
    refine ⟨fun hall => ?_, fun tries hall => ?_, fun t hhit => ?_,
      fun tries => hd.pickWithin_eq_none hne, fun hintime => ?_⟩
    · obtain ⟨t, hdrawn⟩ := hall h hfirst hend
      obtain ⟨first, -, hhit⟩ := hcomes t hdrawn
      exact ⟨first, hhit⟩
    · obtain ⟨t, ht, hdrawn⟩ := hall h hfirst hend
      obtain ⟨first, hle, hhit⟩ := hcomes t hdrawn
      exact ⟨first, Nat.lt_of_le_of_lt hle ht, hhit⟩
    · exact ⟨List.length_pos_of_ne_nil hhit.hit, accepts_of_firstHit hbuckets hhit,
        hd.exists_pickWithin hne hhit⟩
    · obtain ⟨t, ht, hhit⟩ := hintime
      obtain ⟨b, hb, -, hpick⟩ := hd.exists_pickWithin hne hhit
      exact ⟨b, hb, by rw [pick_eq_pickWithin, hpick patience ht]⟩
  · obtain ⟨b, hb, hhit⟩ := exists_of_accepts hdraws
    exact ⟨b, hperm.mem_iff.mp hb, hhit⟩

/-- Five numbers on their way from an array of four buckets to one of eight: a draw chooses
among eleven buckets, and picks one of them. -/
theorem quick_draw_among_five_on_the_move :
    let s := (start .standard 0).after (Keying.numbers String) WordSource.splitMix
      [.add 1 "a", .add 2 "b", .add 3 "c", .add 4 "d", .add 5 "e"]
    let moved := s.dictionary.migrateStep (s.rules (Keying.numbers String))
    s.dictionary.isEmpty = false ∧ moved.migrating = true ∧ moved.firstLive < moved.endLive ∧
      ∀ b ∈ s.dictionary.toList, ∃! draws, moved.Accepts draws ∧ moved.hit? draws = some b := by
  intro s moved
  have hne : s.dictionary.isEmpty = false := by decide +kernel
  obtain ⟨hbuckets, -, -, hunique, -⟩ := quick_draw_ends_and_reaches_each_entry
    (Keying.numbers String) WordSource.splitMix .standard 0 _ hne
  exact ⟨hne, by decide +kernel, hbuckets, hunique⟩

end Situation

end TwinTable
