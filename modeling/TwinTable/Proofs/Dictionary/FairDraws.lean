/-
A fair draw favours no entry.

`pickFairly` draws rounds, each a bucket and a position below the length of the longest chain,
until a round hits an entry. The buckets that can be drawn are the rest of the main array and,
while entries move, the target: their chains, one behind the other, are the list of entries,
since the frontier has left nothing behind (`Shape.flatMap_numbered`). No chain is longer than
the longest, so that the positions below its length reach every entry of every chain. Hence
all rounds together, each made once, hit each entry once (`Shape.filterMap_hit?`), and the
entries and the rounds that hit are in bijection.

From that the odds follow by counting. Among all rows of so many rounds, every entry is the
first hit of equally many: in a row of one round more the first round either hits it, and there
is one such round, or misses, and then the rest decides (`firsts_succ`).
-/
import TwinTable.Proofs.Dictionary.Draws

set_option autoImplicit false

namespace TwinTable

namespace Dictionary

variable {κ ν σ : Type} {d : Dictionary κ ν}

/-! ## Chains by number -/

theorem numbered_of_lt {h : Nat} (hh : h < d.main.size) : d.numbered h = d.main.chain h :=
  if_neg (Nat.not_le.mpr hh)

theorem flatMap_numbered_main (d : Dictionary κ ν) :
    (List.range d.main.size).flatMap d.numbered = d.main.toList := by
  rw [Buckets.toList_eq_flatMap]
  exact List.flatMap_congr fun h hh => numbered_of_lt (List.mem_range.mp hh)

theorem flatMap_numbered_target (d : Dictionary κ ν) :
    (List.range' d.main.size d.target.size).flatMap d.numbered = d.target.toList := by
  rw [List.range'_eq_map_range, List.flatMap_map, Buckets.toList_eq_flatMap]
  refine List.flatMap_congr fun i _ => ?_
  rw [numbered, if_pos (Nat.le_add_right _ _), Nat.add_sub_cancel_left]

/-- The frontier leaves out empty buckets only. -/
theorem Shape.flatMap_numbered_rest (hd : d.Shape) {next : Nat} (hf : d.frontier = some next) :
    (List.range' next (d.main.size - next)).flatMap d.numbered = d.main.toList := by
  have hnext : next < d.main.size := (hd.moving next hf).1
  have hwhole := List.range'_append_1 (s := 0) (m := next) (n := d.main.size - next)
  rw [Nat.zero_add, Nat.add_sub_cancel' hnext.le] at hwhole
  have hbehind : (List.range' 0 next).flatMap d.numbered = [] := by
    refine List.flatMap_eq_nil_iff.mpr fun h hh => ?_
    have hlt : h < next := by simpa using hh
    rw [numbered_of_lt (hlt.trans hnext), hd.behind next hf h hlt]
  rw [← d.flatMap_numbered_main, List.range_eq_range', ← hwhole, List.flatMap_append, hbehind,
    List.nil_append]

/-- **The numbered chains are the entries**, each of the two arrays in its turn. -/
theorem Shape.flatMap_numbered (hd : d.Shape) :
    (List.range' d.firstLive (d.endLive - d.firstLive)).flatMap d.numbered = d.toList := by
  rw [firstLive, endLive, toList]
  rcases hf : d.frontier with _ | next
  · dsimp only [Option.getD_none]
    rw [Nat.sub_zero, ← List.range_eq_range', d.flatMap_numbered_main, hd.settled hf,
      Buckets.toList_unallocated, List.append_nil]
  · dsimp only [Option.getD_some]
    have hnext : next < d.main.size := (hd.moving next hf).1
    -- the numbers from the frontier on, and those of the target behind the main array
    have hcount : d.main.size + d.target.size - next = d.main.size - next + d.target.size := by
      omega
    have hnumbers := List.range'_append_1 (s := next) (m := d.main.size - next)
      (n := d.target.size)
    rw [Nat.add_sub_cancel' hnext.le] at hnumbers
    rw [hcount, ← hnumbers, List.flatMap_append, hd.flatMap_numbered_rest hf,
      d.flatMap_numbered_target]

theorem le_foldl_max {α : Type} (f : α → Nat) : ∀ (xs : List α) (most : Nat),
    most ≤ xs.foldl (fun most x => max most (f x)) most ∧
      ∀ x ∈ xs, f x ≤ xs.foldl (fun most x => max most (f x)) most := by
  intro xs
  induction xs with
  | nil => exact fun most => ⟨le_refl most, fun x hx => absurd hx List.not_mem_nil⟩
  | cons y xs ih =>
    intro most
    obtain ⟨hmost, hall⟩ := ih (max most (f y))
    rw [List.foldl_cons]
    refine ⟨(Nat.le_max_left _ _).trans hmost, fun x hx => ?_⟩
    rcases List.mem_cons.mp hx with rfl | hx
    · exact (Nat.le_max_right _ _).trans hmost
    · exact hall x hx

/-- No chain that can be drawn is longer than the longest. -/
theorem length_numbered_le {h : Nat}
    (hh : h ∈ List.range' d.firstLive (d.endLive - d.firstLive)) :
    (d.numbered h).length ≤ d.longestChain :=
  (le_foldl_max (fun h => (d.numbered h).length) _ 0).2 h hh

/-! ## Rounds -/

/-- The rounds that can be drawn: a bucket that may hold entries, and a position below the
length of the longest chain. -/
def rounds (d : Dictionary κ ν) : List (Nat × Nat) :=
  List.range' d.firstLive (d.endLive - d.firstLive) ×ˢ List.range d.longestChain

/-- The entry that a round hits. -/
def hit? (d : Dictionary κ ν) (round : Nat × Nat) : Option (Binding κ ν) :=
  (d.numbered round.1)[round.2]?

theorem mem_rounds {round : Nat × Nat} :
    round ∈ d.rounds ↔
      (d.firstLive ≤ round.1 ∧ round.1 < d.endLive) ∧ round.2 < d.longestChain := by
  obtain ⟨h, position⟩ := round
  rw [rounds, List.mem_product, List.mem_range, List.mem_range'_1]
  constructor
  · rintro ⟨⟨hfirst, hend⟩, hposition⟩
    exact ⟨⟨hfirst, by omega⟩, hposition⟩
  · rintro ⟨⟨hfirst, hend⟩, hposition⟩
    exact ⟨⟨hfirst, by omega⟩, hposition⟩

theorem nodup_rounds (d : Dictionary κ ν) : d.rounds.Nodup :=
  List.Nodup.product List.nodup_range' List.nodup_range

/-- Positions beyond the end of a list yield nothing more. -/
theorem filterMap_getElem?_range {α : Type} : ∀ (xs : List α) (n : Nat), xs.length ≤ n →
    (List.range n).filterMap (fun i => xs[i]?) = xs := by
  intro xs
  induction xs with
  | nil => intro n _; simp
  | cons x xs ih =>
    intro n hn
    obtain ⟨n, rfl⟩ := Nat.exists_eq_succ_of_ne_zero (Nat.ne_of_gt (Nat.zero_lt_of_lt hn))
    rw [List.range_succ_eq_map, List.filterMap_cons_some List.getElem?_cons_zero,
      List.filterMap_map]
    exact congrArg (x :: ·) (ih n (Nat.le_of_succ_le_succ hn))

/-- **All rounds together hit each entry once.** -/
theorem Shape.filterMap_hit? (hd : d.Shape) : d.rounds.filterMap d.hit? = d.toList := by
  rw [← hd.flatMap_numbered]
  change (List.flatMap _ _).filterMap d.hit? = _
  rw [List.filterMap_flatMap]
  refine List.flatMap_congr fun h hh => ?_
  rw [List.filterMap_map]
  exact filterMap_getElem?_range _ _ (length_numbered_le hh)

/-- Two rounds that hit one entry are one round. -/
theorem Shape.round_unique (hd : d.Shape) {round round' : Nat × Nat} {b : Binding κ ν}
    (h : round ∈ d.rounds) (h' : round' ∈ d.rounds) (hb : d.hit? round = some b)
    (hb' : d.hit? round' = some b) : round = round' := by
  have hdistinct : (d.rounds.filterMap d.hit?).Pairwise (· ≠ ·) := by
    rw [hd.filterMap_hit?]
    exact hd.handles.of_map
  have hpairs := List.pairwise_filterMap.mp hdistinct
  have hsymm : Std.Symm fun x y : Nat × Nat => ∀ b, d.hit? x = some b →
      ∀ b', d.hit? y = some b' → b ≠ b' := ⟨fun x y hxy b hb b' hb' => (hxy b' hb' b hb).symm⟩
  by_contra hne
  exact hpairs.forall h h' hne b hb b hb' rfl

/-- **Each entry has its round.** -/
theorem Shape.existsUnique_round (hd : d.Shape) {b : Binding κ ν} (hb : b ∈ d.toList) :
    ∃! round, round ∈ d.rounds ∧ d.hit? round = some b := by
  rw [← hd.filterMap_hit?] at hb
  obtain ⟨round, hround, hhit⟩ := List.mem_filterMap.mp hb
  exact ⟨round, ⟨hround, hhit⟩, fun round' h => hd.round_unique h.1 hround h.2 hhit⟩

theorem mem_toList_of_hit? {round : Nat × Nat} {b : Binding κ ν} (h : d.hit? round = some b) :
    b ∈ d.toList :=
  mem_toList_of_mem_numbered (List.mem_of_getElem? h)

/-- Where there is an entry, there are rounds to draw. -/
theorem Shape.exists_round (hd : d.Shape) (hne : d.toList ≠ []) :
    d.firstLive < d.endLive ∧ 0 < d.longestChain := by
  obtain ⟨b, hb⟩ := List.exists_mem_of_ne_nil _ hne
  obtain ⟨round, ⟨hround, -⟩, -⟩ := hd.existsUnique_round hb
  obtain ⟨⟨hfirst, hend⟩, hposition⟩ := mem_rounds.mp hround
  exact ⟨Nat.lt_of_le_of_lt hfirst hend, Nat.zero_lt_of_lt hposition⟩

/-! ## Drawing rounds -/

/-- The rounds that words make, as many as there are tries. -/
def roundsDrawn (g : WordSource σ) (d : Dictionary κ ν) (longest : Nat) :
    (tries : Nat) → σ → List (Nat × Nat)
  | 0, _ => []
  | tries + 1, s =>
    let (h, s) := d.drawBucket g s
    let (position, s) := g.below longest s
    (h, position) :: roundsDrawn g d longest tries s

/-- **The loop of a fair draw** returns the first hit of the rounds it draws. -/
theorem drawEntry_eq_findSome? (g : WordSource σ) (longest : Nat) : ∀ (tries : Nat) (s : σ),
    (d.drawEntry g longest tries s).1 = (d.roundsDrawn g longest tries s).findSome? d.hit? := by
  intro tries
  induction tries with
  | zero => exact fun s => rfl
  | succ tries ih =>
    intro s
    rw [drawEntry, roundsDrawn]
    rcases d.drawBucket g s with ⟨h, s₁⟩
    rcases hposition : g.below longest s₁ with ⟨position, s₂⟩
    dsimp only
    rw [hposition]
    dsimp only
    rw [List.findSome?_cons, hit?]
    cases (d.numbered h)[position]? with
    | none => exact ih s₂
    | some b => rfl

/-- Only rounds that can be drawn are drawn. -/
theorem mem_rounds_of_drawn (g : WordSource σ) (hbuckets : d.firstLive < d.endLive)
    (hpositions : 0 < d.longestChain) : ∀ (tries : Nat) (s : σ),
    ∀ round ∈ d.roundsDrawn g d.longestChain tries s, round ∈ d.rounds := by
  intro tries
  induction tries with
  | zero => exact fun s round hround => absurd hround List.not_mem_nil
  | succ tries ih =>
    intro s round hround
    rw [roundsDrawn, drawBucket_eq] at hround
    rcases List.mem_cons.mp hround with rfl | hlater
    · have hx : (g.draw s).1.toNat % (d.endLive - d.firstLive) < d.endLive - d.firstLive :=
        Nat.mod_lt _ (Nat.sub_pos_of_lt hbuckets)
      exact mem_rounds.mpr ⟨⟨Nat.le_add_right _ _, by dsimp only; omega⟩,
        Nat.mod_lt _ hpositions⟩
    · exact ih _ round hlater

/-- **A fair draw** never returns for want of a chain: it is the loop, on the dictionary with
one more bucket moved along. -/
theorem pickFairly_eq (g : WordSource σ) (r : Rules κ ν) (hne : d.isEmpty = false)
    (hpositions : 0 < (d.migrateStep r).longestChain) (s : σ) :
    (d.pickFairly g r s).1 = ((d.migrateStep r).roundsDrawn g (d.migrateStep r).longestChain
        patience s).findSome? (d.migrateStep r).hit? ∧
      (d.pickFairly g r s).2.2 = d.migrateStep r := by
  rw [pickFairly, if_neg (by simp [hne])]
  dsimp only
  rw [if_neg hpositions.ne']
  exact ⟨drawEntry_eq_findSome? g _ patience s, rfl⟩

/-- All rounds that a fair pick draws miss. -/
def FairPickInVain (g : WordSource σ) (r : Rules κ ν) (d : Dictionary κ ν) (s : σ) : Prop :=
  ∀ round ∈ (d.migrateStep r).roundsDrawn g (d.migrateStep r).longestChain patience s,
    (d.migrateStep r).hit? round = none

/-- **Only misses keep a fair pick from an entry**, if there are entries at all. -/
theorem Shape.pickFairly_eq_none (hd : d.Shape) (g : WordSource σ) (r : Rules κ ν) (s : σ) :
    (d.pickFairly g r s).1 = none ↔ d.isEmpty = true ∨ d.FairPickInVain g r s := by
  by_cases hempty : d.isEmpty = true
  · rw [pickFairly, if_pos hempty]
    exact iff_of_true rfl (.inl hempty)
  · have hne : d.isEmpty = false := Bool.eq_false_iff.mpr hempty
    have hmoved : (d.migrateStep r).Shape := hd.shifts (shifts_migrateStep hd)
    obtain ⟨-, hpositions⟩ := hmoved.exists_round (hd.toList_migrateStep_ne_nil hne)
    rw [(pickFairly_eq g r hne hpositions s).1, List.findSome?_eq_none_iff]
    exact (or_iff_right hempty).symm

/-! ## Odds -/

/-- All rows of so many rounds. -/
def rows (d : Dictionary κ ν) : (n : Nat) → List (List (Nat × Nat))
  | 0 => [[]]
  | n + 1 => d.rounds.flatMap fun round => (d.rows n).map (round :: ·)

/-- In how many rows of so many rounds the first hit is the entry with a given handle. -/
def firsts (d : Dictionary κ ν) (id n : Nat) : Nat :=
  (d.rows n).countP fun row => (row.findSome? d.hit?).any (·.id = id)

/-- How many rounds hit nothing. -/
def misses (d : Dictionary κ ν) : Nat := d.rounds.countP fun round => (d.hit? round).isNone

theorem length_rows (d : Dictionary κ ν) (n : Nat) : (d.rows n).length = d.rounds.length ^ n := by
  induction n with
  | zero => rfl
  | succ n ih =>
    rw [rows, List.length_flatMap]
    simp only [List.length_map, ih, List.map_const', List.sum_replicate, smul_eq_mul, pow_succ,
      Nat.mul_comm]

/-- A round hits an entry or misses. -/
theorem Shape.size_add_misses (hd : d.Shape) : d.size + d.misses = d.rounds.length := by
  rw [hd.size_eq, ← hd.filterMap_hit?, List.length_filterMap_eq_countP, misses]
  have hsplit := List.length_eq_countP_add_countP (l := d.rounds) fun round =>
    (d.hit? round).isSome
  rw [hsplit]
  congr 1
  refine List.countP_congr fun round _ => ?_
  simp

/-- A sum over a row of attempts, of which the successful ones count by what they yield and the
others all count the same. -/
theorem sum_map_attempts {α β : Type} (f : α → Option β) (wanted : β → Bool) (won lost : Nat)
    (xs : List α) :
    (xs.map fun x => (f x).elim lost fun y => if wanted y then won else 0).sum =
      (xs.filterMap f).countP wanted * won + xs.countP (fun x => (f x).isNone) * lost := by
  induction xs with
  | nil => simp
  | cons x xs ih =>
    rw [List.map_cons, List.sum_cons, ih, List.filterMap_cons, List.countP_cons]
    cases f x with
    | none =>
      simp only [Option.elim_none, Option.isNone_none, if_true]
      ring
    | some y =>
      rw [List.countP_cons, Option.elim_some]
      simp only [Option.isNone_some, Bool.false_eq_true, if_false, Nat.add_zero]
      split <;> ring

/-- The rows that begin with a given round, by what becomes of it. -/
theorem countP_rows_cons (d : Dictionary κ ν) (id n : Nat) (round : Nat × Nat) :
    ((d.rows n).map (round :: ·)).countP
        (fun row => (row.findSome? d.hit?).any (·.id = id)) =
      (d.hit? round).elim (d.firsts id n) fun b =>
        if decide (b.id = id) then d.rounds.length ^ n else 0 := by
  rw [List.countP_map]
  cases hhit : d.hit? round with
  | none =>
    rw [firsts]
    refine List.countP_congr fun row _ => ?_
    simp [hhit]
  | some b =>
    have hrow : ∀ row : List (Nat × Nat), ((fun row : List (Nat × Nat) =>
        (row.findSome? d.hit?).any (·.id = id)) ∘ (round :: ·)) row = decide (b.id = id) := by
      intro row
      simp [hhit]
    rw [Option.elim_some]
    split
    · rename_i hid
      rw [← d.length_rows n]
      exact List.countP_eq_length.mpr fun row _ => (hrow row).trans hid
    · rename_i hid
      exact List.countP_eq_zero.mpr fun row _ => by rw [hrow row]; exact hid

theorem Shape.countP_id (hd : d.Shape) {b : Binding κ ν} (hb : b ∈ d.toList) :
    d.toList.countP (fun x => x.id = b.id) = 1 := by
  have hone := List.count_eq_one_of_mem hd.handles (List.mem_map_of_mem (f := (·.id)) hb)
  rw [List.count, List.countP_map] at hone
  rw [← hone]
  exact List.countP_congr fun x _ => by simp

/-- **One more round in front**: it hits the entry in one case, and then the rest does not
matter; if it misses, the rest decides. -/
theorem Shape.firsts_succ (hd : d.Shape) {b : Binding κ ν} (hb : b ∈ d.toList) (n : Nat) :
    d.firsts b.id (n + 1) = d.rounds.length ^ n + d.misses * d.firsts b.id n := by
  have hsum := sum_map_attempts d.hit? (fun x => decide (x.id = b.id)) (d.rounds.length ^ n)
    (d.firsts b.id n) d.rounds
  rw [hd.filterMap_hit?, hd.countP_id hb, Nat.one_mul] at hsum
  rw [firsts, rows, List.countP_flatMap, misses, ← hsum]
  exact congrArg List.sum (List.map_congr_left fun round _ => d.countP_rows_cons b.id n round)

/-- **The odds of an entry** do not depend on which it is. A row hits one of the entries first,
each in equally many cases, or consists of misses. -/
theorem Shape.firsts_spec (hd : d.Shape) {b : Binding κ ν} (hb : b ∈ d.toList) (n : Nat) :
    d.size * d.firsts b.id n + d.misses ^ n = d.rounds.length ^ n := by
  induction n with
  | zero => simp [firsts, rows]
  | succ n ih =>
    calc d.size * d.firsts b.id (n + 1) + d.misses ^ (n + 1)
        = d.size * d.rounds.length ^ n +
            d.misses * (d.size * d.firsts b.id n + d.misses ^ n) := by
          rw [hd.firsts_succ hb]
          ring
      _ = (d.size + d.misses) * d.rounds.length ^ n := by
          rw [ih]
          ring
      _ = d.rounds.length ^ (n + 1) := by
          rw [hd.size_add_misses, pow_succ']

/-- **All entries have the same odds**, over rows of any length. -/
theorem Shape.firsts_eq (hd : d.Shape) {b b' : Binding κ ν} (hb : b ∈ d.toList)
    (hb' : b' ∈ d.toList) (n : Nat) : d.firsts b.id n = d.firsts b'.id n := by
  have hsize : 0 < d.size := by
    rw [hd.size_eq]
    exact List.length_pos_of_mem hb
  have hsame := (hd.firsts_spec hb n).trans (hd.firsts_spec hb' n).symm
  exact Nat.eq_of_mul_eq_mul_left hsize (Nat.add_right_cancel hsame)

end Dictionary

namespace Situation

variable {κ ν σ : Type} (K : Keying κ ν) (g : WordSource σ)

open Dictionary

/-- **A fair draw is fair.** Take any dictionary with entries that a new one can come to, its
entries on the move or not, and the bucket that a draw moves along first. There is a bucket to
draw and a position to draw. Each entry is hit by one of the rounds and by no other, and what a
round hits is an entry. A draw, whatever its words are, returns the first hit of the rounds
that the words make. So rounds that are equally likely favour no entry: among all rows of `n`
rounds each entry is the first hit of equally many, and the rows left over are those of misses
only, of which the share shrinks with `n`. -/
theorem fair_draw_hits_each_entry_by_one_round (settings : Settings) (words : σ)
    (earlier : List (Operation κ ν)) :
    let s := (start settings words).after K g earlier
    let d := s.dictionary
    let moved := d.migrateStep (s.rules K)
    d.isEmpty = false →
      (moved.firstLive < moved.endLive ∧ 0 < moved.longestChain) ∧ moved.rounds.Nodup ∧
      (∀ b ∈ d.toList, ∃! round, round ∈ moved.rounds ∧ moved.hit? round = some b) ∧
      (∀ round b, moved.hit? round = some b → b ∈ d.toList) ∧
      (∀ words' : σ,
        (d.pickFairly g (s.rules K) words').1 =
            (moved.roundsDrawn g moved.longestChain patience words').findSome? moved.hit? ∧
          ∀ round ∈ moved.roundsDrawn g moved.longestChain patience words',
            round ∈ moved.rounds) ∧
      (d.toList.map (·.id)).Nodup ∧
      (∀ b ∈ d.toList, ∀ b' ∈ d.toList, ∀ n, moved.firsts b.id n = moved.firsts b'.id n) ∧
      (∀ b ∈ d.toList, ∀ n,
        d.size * moved.firsts b.id n + moved.misses ^ n = moved.rounds.length ^ n) ∧
      moved.misses < moved.rounds.length := by
  intro s d moved hne
  have hd : d.Shape := shape_after K g settings words earlier
  have hshifts := shifts_migrateStep (r := s.rules K) hd
  have hmoved : moved.Shape := hd.shifts hshifts
  have hperm : moved.toList.Perm d.toList := (hshifts.toList_perm hd).1
  have hsize : moved.size = d.size := by rw [hmoved.size_eq, hperm.length_eq, hd.size_eq]
  have hin : ∀ b ∈ d.toList, b ∈ moved.toList := fun b hb => hperm.mem_iff.mpr hb
  have hlist : moved.toList ≠ [] := hd.toList_migrateStep_ne_nil hne
  obtain ⟨hbuckets, hpositions⟩ := hmoved.exists_round hlist
  refine ⟨⟨hbuckets, hpositions⟩, moved.nodup_rounds,
    fun b hb => hmoved.existsUnique_round (hin b hb),
    fun round b h => hperm.mem_iff.mp (mem_toList_of_hit? h), fun words' => ?_, hd.handles,
    fun b hb b' hb' => hmoved.firsts_eq (hin b hb) (hin b' hb'), fun b hb n => ?_, ?_⟩
  · exact ⟨(pickFairly_eq g (s.rules K) hne hpositions words').1,
      mem_rounds_of_drawn g hbuckets hpositions patience words'⟩
  · rw [← hsize]
    exact hmoved.firsts_spec (hin b hb) n
  · have htotal := hmoved.size_add_misses
    have hpos := List.length_pos_of_ne_nil hlist
    rw [← hmoved.size_eq] at hpos
    omega

/-- Five numbers on their way from an array of four buckets to one of eight: a draw moves a
chain along and then chooses among eleven buckets. -/
theorem fair_draw_among_five_on_the_move :
    let s := (start .standard 0).after (Keying.numbers String) WordSource.splitMix
      [.add 1 "a", .add 2 "b", .add 3 "c", .add 4 "d", .add 5 "e"]
    let moved := s.dictionary.migrateStep (s.rules (Keying.numbers String))
    s.dictionary.isEmpty = false ∧ moved.migrating = true ∧
      (∀ b ∈ s.dictionary.toList, ∃! round, round ∈ moved.rounds ∧ moved.hit? round = some b) ∧
      moved.misses < moved.rounds.length := by
  intro s moved
  have hne : s.dictionary.isEmpty = false := by decide +kernel
  obtain ⟨-, -, hround, -, -, -, -, -, hmisses⟩ := fair_draw_hits_each_entry_by_one_round
    (Keying.numbers String) WordSource.splitMix .standard 0 _ hne
  exact ⟨hne, by decide +kernel, hround, hmisses⟩

end Situation

end TwinTable
