/-
A walk over a dictionary that is left alone returns each entry once.

On lists there is little to say: a walk that begins has all entries before it
(`Walk.toCome`), each step takes the head off, and so many steps take so many
(`Walk.take_eq`). That no entry stands in the list twice is the layout's.

On links it is another matter. There the walk is a loop (`Linked.next`): it holds the handle
that the last entry led to, or none, enters a bucket by taking its head for that handle, goes
to the other array at the end of the first, and turns back by one bucket where nothing lives
under the handle any more. Nothing in the loop says that it comes to an end; a bucket whose head
is dead would be entered for ever. So the loop has fuel here, and what has to be shown is that
it does not run out: the buckets of both arrays, and four rounds more, are enough, whatever
the walk has behind it (`Represents.next`). It then returns what the walk on lists returns and
stands where that stands.
-/
import TwinTable.Proofs.Dictionary.LinkedOperations
import TwinTable.Proofs.Dictionary.WalkOrder

set_option autoImplicit false

namespace TwinTable

variable {κ ν : Type}

/-! ## On lists -/

namespace Walk

open Dictionary

variable {d : Dictionary κ ν}

/-- **So many steps** take so many entries off what is to come, and come to the end if there
are not so many. -/
theorem take_eq (hd : d.Shape) : ∀ (n : Nat) {w : Walk}, w.Placed d →
    (w.take d n).1 = (w.toCome d).take n ∧
      (w.take d n).2.1 = decide ((w.toCome d).length < n) ∧
      (w.take d n).2.2.toCome d = (w.toCome d).drop n ∧ (w.take d n).2.2.Placed d := by
  intro n
  -- induction on the steps, each of which takes the head off
  induction n with
  | zero => exact fun hw => ⟨rfl, by simp [take], rfl, hw⟩
  | succ n ih =>
    intro w hw
    obtain ⟨hhead, htail, hplaced⟩ := next_eq hd hw
    obtain ⟨hfirst, hended, hrest, hstays⟩ := ih hplaced
    rw [take]
    revert hhead htail hplaced hfirst hended hrest hstays
    rcases w.next d with ⟨_ | b, w'⟩
    · intro hhead htail hplaced _ _ _ _
      have hnil : w.toCome d = [] := List.head?_eq_none_iff.mp hhead.symm
      dsimp only at htail ⊢
      rw [htail, hnil]
      exact ⟨rfl, by simp, rfl, hplaced⟩
    · intro hhead htail hplaced hfirst hended hrest hstays
      obtain ⟨rest, hcome⟩ := List.head?_eq_some_iff.mp hhead.symm
      rw [hcome, List.tail_cons] at htail
      dsimp only at hfirst hended hrest hstays htail ⊢
      rw [hcome, hfirst, hended, hrest, htail]
      exact ⟨rfl, by simp, rfl, hstays⟩

end Walk

/-! ## On links -/

namespace Linked

/-- The next entry and what becomes of the walk, if the loop takes no more rounds than there
is fuel. -/
def next (l : Linked κ ν) : (fuel : Nat) → Walk → Option (Option (Binding κ ν) × Walk)
  | 0, _ => none
  | fuel + 1, w =>
    match w.upcoming with
    | some id =>
      match l.slab id with
      | some cell => some (some ⟨id, cell.key, cell.value⟩, { w with upcoming := cell.next })
      -- the entry is gone, and its bucket is entered once more
      | none => next l fuel { w with upcoming := none, index := w.index - 1 }
    | none =>
      if w.index < (l.side w.side).size then
        next l fuel { w with upcoming := (l.side w.side).head w.index, index := w.index + 1 }
      else if w.side = .main && l.migrating then
        next l fuel { w with side := .target, index := 0 }
      else
        some (none, w)

/-- Up to `n` entries, and whether the walk ended before that. -/
def take (l : Linked κ ν) (fuel : Nat) : (n : Nat) → Walk →
    Option (List (Binding κ ν) × Bool × Walk)
  | 0, w => some ([], false, w)
  | n + 1, w =>
    (l.next fuel w).bind fun
      | (none, w) => some ([], true, w)
      | (some b, w) => (take l fuel n w).map fun (bs, ended, w) => (b :: bs, ended, w)

variable {l : Linked κ ν} {d : Dictionary κ ν} {st : Settings}

/-- A handle that an entry lives under is followed in one round. -/
theorem next_of_leads {b : Binding κ ν} {rest : List (Binding κ ν)} {current : Option Nat}
    (hleads : Slab.Leads l.slab current (b :: rest)) (w : Walk) (fuel : Nat) :
    l.next (fuel + 1) { w with upcoming := current } =
      some (some b, w.after w.side w.index rest) := by
  obtain ⟨rfl, next, hcell, hrest⟩ := hleads
  rw [Linked.next]
  dsimp only
  rw [hcell, hrest.current_eq]
  rfl

/-- Where a handle leads nowhere, or nothing lives under it any more, the loop goes on to a
bucket. One that is inside the array is entered. -/
theorem next_of_lt (w : Walk) {s : Side} {index : Nat} (hi : index < (l.side s).size)
    (fuel : Nat) :
    l.next (fuel + 1) { w with side := s, index := index, upcoming := none } =
      l.next fuel
        { w with side := s, index := index + 1, upcoming := (l.side s).head index } := by
  rw [Linked.next]
  dsimp only
  rw [if_pos hi]

/-- At the end of an array it goes to the other one, or the walk is over. -/
theorem next_of_size_le (w : Walk) {s : Side} {index : Nat} (hi : (l.side s).size ≤ index)
    (fuel : Nat) :
    l.next (fuel + 1) { w with side := s, index := index, upcoming := none } =
      if s = .main && l.migrating then
        l.next fuel { w with side := .target, index := 0, upcoming := none }
      else
        some (none, { w with side := s, index := index, upcoming := none }) := by
  rw [Linked.next]
  dsimp only
  rw [if_neg (Nat.not_lt.mpr hi)]

/-- **Entering a bucket that is not empty.** Each round before passes an empty one. -/
theorem Represents.next_of_nextChain?_eq_some (h : Represents st l d) (s : Side) (w : Walk)
    {i : Nat} {b : Binding κ ν} {rest : List (Binding κ ν)} : ∀ (count index fuel : Nat),
      count = (d.side s).size - index → count + 1 ≤ fuel →
      (d.side s).nextChain? count index = some (i, b, rest) →
      l.next fuel { w with side := s, index := index, upcoming := none } =
        some (some b, w.after s (i + 1) rest) := by
  intro count
  -- induction on the buckets that are left, each of which takes one round
  induction count with
  | zero => exact fun _ _ _ _ hsome => absurd hsome (by simp [Buckets.nextChain?])
  | succ count ih =>
    intro index fuel hcount hfuel hsome
    obtain ⟨fuel, rfl⟩ : ∃ n, fuel = n + 2 := ⟨fuel - 2, by omega⟩
    have hi : index < (l.side s).size := by rw [(h.side s).size]; omega
    have hleads := (h.side s).leads index
    rw [next_of_lt w hi]
    rw [Buckets.nextChain?] at hsome
    revert hsome hleads
    rcases (d.side s).chain index with _ | ⟨b', rest'⟩
    · intro hsome hleads
      rw [hleads.current_eq]
      exact ih (index + 1) (fuel + 1) (by omega) (by omega) hsome
    · intro hsome hleads
      obtain ⟨rfl, rfl, rfl⟩ : index = i ∧ b' = b ∧ rest' = rest := by simpa using hsome
      exact next_of_leads hleads { w with side := s, index := index + 1, upcoming := none } fuel

/-- Passing the empty buckets that are left. -/
theorem Represents.next_of_nextChain?_eq_none (h : Represents st l d) (s : Side) (w : Walk)
    (fuel : Nat) : ∀ count index : Nat, count = (d.side s).size - index →
      (d.side s).nextChain? count index = none →
      l.next (fuel + count) { w with side := s, index := index, upcoming := none } =
        l.next fuel
          { w with side := s, index := max index (d.side s).size, upcoming := none } := by
  intro count
  induction count with
  | zero =>
    intro index hcount _
    rw [Nat.add_zero, Nat.max_eq_left (by omega)]
  | succ count ih =>
    intro index hcount hnone
    have hi : index < (l.side s).size := by rw [(h.side s).size]; omega
    have hleads := (h.side s).leads index
    rw [← Nat.add_assoc, next_of_lt w hi]
    rw [Buckets.nextChain?] at hnone
    revert hnone hleads
    rcases (d.side s).chain index with _ | ⟨b, rest⟩
    · intro hnone hleads
      rw [hleads.current_eq]
      have hmore := ih (index + 1) (by omega) hnone
      rwa [show max (index + 1) (d.side s).size = max index (d.side s).size by omega] at hmore
    · intro hnone _
      exact absurd hnone (by simp)

/-- Entering the next bucket of one array, or coming to its end, in no more rounds than there
are buckets. -/
theorem Represents.next_enterIn (h : Represents st l d) (s : Side) (w : Walk) (index : Nat) :
    (∃ b w', w.enterIn d s index = (some b, w') ∧ ∀ fuel, (d.side s).size + 1 ≤ fuel →
        l.next fuel { w with side := s, index := index, upcoming := none } =
          some (some b, w')) ∨
      ∃ index' rounds, (d.side s).size ≤ index' ∧ rounds ≤ (d.side s).size ∧
        w.enterIn d s index = (none, { w with side := s, index := index', upcoming := none }) ∧
        ∀ fuel, l.next (fuel + rounds) { w with side := s, index := index, upcoming := none } =
          l.next fuel { w with side := s, index := index', upcoming := none } := by
  rw [Walk.enterIn]
  rcases hchain : (d.side s).nextChain? ((d.side s).size - index) index with _ | ⟨i, b, rest⟩
  · exact .inr ⟨_, _, le_max_right _ _, Nat.sub_le _ _, rfl, fun fuel =>
      h.next_of_nextChain?_eq_none s w fuel _ index rfl hchain⟩
  · exact .inl ⟨b, _, rfl, fun fuel hfuel =>
      h.next_of_nextChain?_eq_some s w _ index fuel rfl (by omega) hchain⟩

/-- Entering the next bucket, of the other array too if it comes to that. -/
theorem Represents.next_enter (h : Represents st l d) (w : Walk) {fuel : Nat}
    (hfuel : d.main.size + d.target.size + 3 ≤ fuel) :
    l.next fuel { w with upcoming := none } = some (w.enter d) := by
  have hle : ∀ s, (d.side s).size ≤ d.main.size + d.target.size := by
    intro s
    cases s with
    | main => exact Nat.le_add_right _ _
    | target => exact Nat.le_add_left _ _
  have hbound := hle w.side
  rw [Walk.enter]
  rcases h.next_enterIn w.side w w.index with ⟨b, w', henter, hnext⟩ |
    ⟨index', rounds, hend, hrounds, henter, hnext⟩
  · rw [henter]
    exact hnext fuel (by omega)
  · rw [henter]
    dsimp only
    obtain ⟨left, rfl⟩ : ∃ n, fuel = n + 1 + rounds := ⟨fuel - 1 - rounds, by omega⟩
    refine (hnext (left + 1)).trans ?_
    rw [next_of_size_le w (by rw [(h.side w.side).size]; exact hend), h.migrating_eq]
    split
    · -- the main array has come to its end, and the target is next
      rename_i hmain
      rw [Bool.and_eq_true, decide_eq_true_eq] at hmain
      have hmainsize : (d.side w.side).size = d.main.size := by rw [hmain.1]; rfl
      rcases h.next_enterIn .target { w with side := w.side, index := index', upcoming := none } 0
        with ⟨b, w', henter', hnext'⟩ | ⟨index'', rounds', hend', hrounds', henter', hnext'⟩
      · rw [henter']
        exact hnext' left (by change d.target.size + 1 ≤ left; omega)
      · rw [henter']
        change rounds' ≤ d.target.size at hrounds'
        obtain ⟨rest, rfl⟩ : ∃ n, left = n + 1 + rounds' := ⟨left - 1 - rounds', by omega⟩
        refine (hnext' (rest + 1)).trans ?_
        rw [next_of_size_le w (by rw [(h.side .target).size]; exact hend')]
        rfl
    · rfl

/-- **The loop ends, and returns what the walk on lists returns.** -/
theorem Represents.next (h : Represents st l d) {w : Walk} (hw : w.Placed d) {fuel : Nat}
    (hfuel : l.main.size + l.target.size + 4 ≤ fuel) :
    l.next fuel w = some (w.next d) := by
  rw [h.main.size, h.target.size] at hfuel
  rw [Walk.next]
  rcases hup : w.upcoming with _ | u
  · have hself : { w with upcoming := none } = w := by rw [← hup]
    have hnext := h.next_enter w (show d.main.size + d.target.size + 3 ≤ fuel by omega)
    rwa [hself] at hnext
  · obtain ⟨fuel, rfl⟩ : ∃ n, fuel = n + 1 := ⟨fuel - 1, by omega⟩
    obtain ⟨-, -, hplace⟩ := hw u hup
    dsimp only
    by_cases hthere : u ∈ ((d.side w.side).chain (w.index - 1)).map (·.id)
    · -- the entry is in the bucket entered last, and the links lead on from it
      obtain ⟨⟨b, rest⟩, hfound⟩ := Option.ne_none_iff_exists'.mp fun hnone =>
        Dictionary.suffix?_eq_none.mp hnone hthere
      obtain ⟨rfl, -, before, hchain⟩ := Dictionary.suffix?_eq_some hfound
      have hleads := (h.side w.side).leads (w.index - 1)
      rw [hchain] at hleads
      obtain ⟨current, hrest⟩ := hleads.exists_rest
      have hself : { w with upcoming := current } = w := by
        obtain rfl : current = w.upcoming := hrest.current_eq.trans hup.symm
        rfl
      have hnext := next_of_leads hrest w fuel
      rw [hself] at hnext
      rw [Dictionary.resume?, hfound]
      exact hnext
    · have hgone : l.slab u = none := by
        refine (h.alive u).mpr fun hmem => hthere ?_
        obtain ⟨b, hb, rfl⟩ := List.mem_map.mp hmem
        obtain ⟨s, i, hi⟩ := Dictionary.mem_toList.mp hb
        obtain ⟨rfl, rfl⟩ := hplace s i b hi rfl
        exact List.mem_map_of_mem hi
      rw [Walk.resume?_eq_none hplace hthere, Linked.next, hup]
      dsimp only
      rw [hgone]
      exact h.next_enter { w with index := w.index - 1 } (by omega)

/-- So it is with any number of steps. -/
theorem Represents.take (h : Represents st l d) (hd : d.Shape) {fuel : Nat}
    (hfuel : l.main.size + l.target.size + 4 ≤ fuel) : ∀ (n : Nat) {w : Walk}, w.Placed d →
      l.take fuel n w = some (w.take d n) := by
  intro n
  induction n with
  | zero => exact fun _ => rfl
  | succ n ih =>
    intro w hw
    have hplaced := (Walk.next_eq hd hw).2.2
    rw [Linked.take, Walk.take, h.next hw hfuel, Option.bind_some]
    revert hplaced
    rcases w.next d with ⟨_ | b, w'⟩
    · exact fun _ => rfl
    · intro hplaced
      dsimp only
      rw [ih hplaced]
      rfl

end Linked

/-! ## Whole walks -/

/-- A walk goes through a whole dictionary: it returns the entries in the order in which they
are listed, from the first on, and then none. On links the loop comes to an end each time, and
does the same. -/
def Walk.IsWhole (w : Walk) (d : Dictionary κ ν) (l : Linked κ ν) : Prop :=
  ∀ n, (w.take d n).1 = d.toList.take n ∧
    (w.take d n).2.1 = decide (d.toList.length < n) ∧
    (d.toList.length ≤ n → ((w.take d n).2.2.next d).1 = none) ∧
    ∀ fuel, l.main.size + l.target.size + 4 ≤ fuel → l.take fuel n w = some (w.take d n)

theorem Walk.isWhole_of_start {w : Walk} {d : Dictionary κ ν} {l : Linked κ ν} {st : Settings}
    (h : Linked.Represents st l d) (hd : d.Shape) (hside : w.side = .main)
    (hindex : w.index = 0) (hup : w.upcoming = none) : w.IsWhole d l := by
  intro n
  have hw := placed_of_upcoming_eq_none (d := d) hup
  obtain ⟨hfirst, hended, hrest, hplaced⟩ := Walk.take_eq hd n hw
  rw [toCome_of_start hside hindex hup] at hfirst hended hrest
  refine ⟨hfirst, hended, ?_, fun fuel hfuel => h.take hd hfuel n hw⟩
  intro hn
  rw [(Walk.next_eq hd hplaced).1, hrest, List.drop_eq_nil_of_le hn]
  rfl

namespace Situation

variable {σ : Type} (K : Keying κ ν) (g : WordSource σ)

open Dictionary

/-- **Whole walks.** In every situation that a new dictionary can come to, whether entries are
moving or not, the three kinds of walk return the same entries in the same order, and then
none: those of the main array by ascending bucket, then those of the target by ascending
bucket, each chain from its head. No entry is listed twice, all that is alive is listed, and
there are as many as the dictionary counts. -/
theorem whole_walk_returns_each_entry_once (settings : Settings) (words : σ)
    (ops : List (Operation κ ν)) :
    let d := ((start settings words).after K g ops).dictionary
    d.toList = (List.range d.main.size).flatMap d.main.chain ++
        (List.range d.target.size).flatMap d.target.chain ∧
      (d.toList.map (·.id)).Nodup ∧ d.toList.length = d.size ∧ d.safeWalk.2.toList = d.toList ∧
      ∃ l l', (Linked.start settings).after K ops = some l ∧ l.perform K .safeWalk = some l' ∧
        (∀ id, (l.slab id).isSome ↔ id ∈ d.toList.map (·.id)) ∧
        Walk.browse.IsWhole d l ∧ d.walk.IsWhole d l ∧ d.safeWalk.1.IsWhole d.safeWalk.2 l' := by
  intro d
  have hshape := shape_after K g settings words ops
  obtain ⟨l, hl, h⟩ := Linked.Represents.after K g ops (s := start settings words)
    (Linked.represents_start settings) shape_empty
  obtain ⟨l', hl', h'⟩ := h.perform K g hshape .safeWalk
  have hshape' := hshape.changes (changes_perform K g hshape .safeWalk)
  refine ⟨?_, hshape.handles, hshape.size_eq.symm, rfl, l, l', hl, hl', ?_,
    Walk.isWhole_of_start h hshape rfl rfl rfl, Walk.isWhole_of_start h hshape rfl rfl rfl,
    Walk.isWhole_of_start h' hshape' rfl rfl rfl⟩
  · rw [toList, Buckets.toList_eq_flatMap, Buckets.toList_eq_flatMap]
  · intro id
    rw [← Option.ne_none_iff_isSome, Ne, h.alive id, not_not]
    exact Iff.rfl

/-- Five entries, of which the chain of three has moved to two buckets of the target. -/
example : (Walk.browse.take ((start .standard 0).after (Keying.numbers String)
    WordSource.splitMix [.add 0 "a", .add 4 "b", .add 8 "c", .add 1 "d", .add 2 "e",
      .find 1 id]).dictionary 9).1.map (·.key) = [1, 0, 8, 2, 4] := by
  decide +kernel

end Situation

end TwinTable
