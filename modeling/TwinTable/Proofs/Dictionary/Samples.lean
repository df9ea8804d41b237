/-
Several entries at once: a sample is honest, and where the table is dense it is full.

A sample is taken by a walk over bucket numbers, of which each step looks into both arrays
at one position. The walk is given a budget of steps and stops early when nothing more is
wanted, so its result is one of a walk without a budget (`Dictionary.Strolls`), and what is
said of samples is said by induction on such walks.

Honesty needs nothing but a sound layout (`Honest`). A bucket is taken from once, since it is
remembered; its chain holds no handle twice; and no handle lies in two buckets. So wherever
the walk is sent, the entries are different ones.

Fullness is about a walk that is not sent anywhere (`Swept`). While nothing moves, it goes
round the main array from where it began, and jumps only after a run of empty buckets that
is longer than `max 4 count`. As long as it has not come round, the buckets of a run are
different ones, so there are no more of them than empty buckets in the array. If these are
too few for a jump, every bucket is looked into in the end, and all that are wanted are found.
-/
import TwinTable.Proofs.Dictionary.Handles
import TwinTable.Proofs.Dictionary.History
import TwinTable.Proofs.Dictionary.Members

set_option autoImplicit false

namespace TwinTable

namespace Buckets

variable {κ ν : Type}

/-- How many buckets are empty. -/
def vacant (t : Buckets κ ν) : Nat := (List.range t.size).countP fun i => (t.chain i).isEmpty

/-- Different empty buckets are no more than there are. -/
theorem length_le_vacant {t : Buckets κ ν} {buckets : List Nat} (hnodup : buckets.Nodup)
    (hempty : ∀ i ∈ buckets, i < t.size ∧ t.chain i = []) : buckets.length ≤ t.vacant := by
  rw [vacant, List.countP_eq_length_filter]
  refine (List.subperm_of_subset hnodup ?_).length_le
  intro i hi
  obtain ⟨hlt, hnil⟩ := hempty i hi
  exact List.mem_filter.mpr ⟨List.mem_range.mpr hlt, List.isEmpty_iff.mpr hnil⟩

end Buckets

/-- Positions on the way round an array, before it is closed, are different. -/
theorem add_mod_inj {size start j k : Nat} (hj : j < size) (hk : k < size)
    (h : (start + j) % size = (start + k) % size) : j = k := by
  have hmod : j ≡ k [MOD size] := Nat.ModEq.add_left_cancel' start h
  rwa [Nat.ModEq, Nat.mod_eq_of_lt hj, Nat.mod_eq_of_lt hk] at hmod

/-- Every position is on the way round. -/
theorem exists_add_mod {size start i : Nat} (hstart : start < size) (hi : i < size) :
    ∃ j, j < size ∧ (start + j) % size = i := by
  by_cases hle : start ≤ i
  · refine ⟨i - start, by omega, ?_⟩
    rw [Nat.add_sub_cancel' hle, Nat.mod_eq_of_lt hi]
  · refine ⟨i + size - start, by omega, ?_⟩
    rw [Nat.add_sub_cancel' (by omega), Nat.add_mod_right, Nat.mod_eq_of_lt hi]

namespace Dictionary

variable {κ ν σ : Type}

/-! ## Walks without a budget -/

/-- How many positions a walk goes round. -/
def span (d : Dictionary κ ν) : Nat :=
  if d.migrating then max d.main.size d.target.size else d.main.size

/-- A sampling before its first step. -/
def sampleStart (g : WordSource σ) (d : Dictionary κ ν) (count : Nat) (words : σ) :
    Sampling κ ν σ :=
  ⟨(g.below d.span words).1, 0, [], [], count, (g.below d.span words).2⟩

/-- One step of a walk: both arrays are looked into, the target only while entries move and
more of them are wanted. -/
def sampleAt (g : WordSource σ) (d : Dictionary κ ν) (count : Nat) (p : Sampling κ ν σ) :
    Sampling κ ν σ :=
  let q := d.sampleIn g count d.span .main p
  if q.wanted = 0 then q else if d.migrating then d.sampleIn g count d.span .target q else q

/-- On to the next position. -/
def onward (d : Dictionary κ ν) (p : Sampling κ ν σ) : Sampling κ ν σ :=
  { p with position := (p.position + 1) % d.span }

/-- A walk of so many steps: it is over as soon as nothing more is wanted. -/
inductive Strolls (g : WordSource σ) (d : Dictionary κ ν) (count : Nat) :
    Nat → Sampling κ ν σ → Sampling κ ν σ → Prop
  | rest (p : Sampling κ ν σ) : Strolls g d count 0 p p
  | last {p : Sampling κ ν σ} (full : (d.sampleAt g count p).wanted = 0) :
      Strolls g d count 1 p (d.sampleAt g count p)
  | further {n : Nat} {p q : Sampling κ ν σ} (more : (d.sampleAt g count p).wanted ≠ 0)
      (walk : Strolls g d count n (d.onward (d.sampleAt g count p)) q) :
      Strolls g d count (n + 1) p q

variable (g : WordSource σ) (d : Dictionary κ ν) (count : Nat)

theorem sampleFrom_succ (steps : Nat) (p : Sampling κ ν σ) :
    d.sampleFrom g count d.span (steps + 1) p =
      if (d.sampleAt g count p).wanted = 0 then d.sampleAt g count p
      else d.sampleFrom g count d.span steps (d.onward (d.sampleAt g count p)) := by
  rw [sampleFrom, sampleAt]
  dsimp only
  split <;> rfl

/-- A walk with a budget is a walk of no more steps than that. If it is still short of what
is wanted, it has spent the budget. -/
theorem exists_strolls : ∀ (steps : Nat) (p : Sampling κ ν σ),
    ∃ n, n ≤ steps ∧ Strolls g d count n p (d.sampleFrom g count d.span steps p) ∧
      ((d.sampleFrom g count d.span steps p).wanted ≠ 0 → n = steps) := by
  intro steps
  -- induction on the budget: a step is the last one, or leaves a smaller budget
  induction steps with
  | zero => intro p; exact ⟨0, le_refl _, .rest p, fun _ => rfl⟩
  | succ steps ih =>
    intro p
    rw [sampleFrom_succ]
    by_cases hfull : (d.sampleAt g count p).wanted = 0
    · rw [if_pos hfull]
      exact ⟨1, by omega, .last hfull, fun h => absurd hfull h⟩
    · rw [if_neg hfull]
      obtain ⟨n, hn, hwalk, hshort⟩ := ih (d.onward (d.sampleAt g count p))
      exact ⟨n + 1, by omega, .further hfull hwalk, fun h => by rw [hshort h]⟩

/-- A sample of something is what a walk finds, in the order in which it finds it, after one
bucket was moved along for each entry asked for. -/
theorem sample_eq (r : Rules κ ν) (words : σ) (h : min count d.size ≠ 0) :
    let c := min count d.size
    let moved := d.migrateSteps r c
    let p := moved.sampleFrom g c moved.span (stepsPerEntry * c) (moved.sampleStart g c words)
    d.sample g r count words = (p.taken.reverse, p.words, moved) := by
  rw [sample]
  dsimp only
  rw [if_neg h]
  rfl

/-! ## Honest samples -/

variable {d count}

/-- What is taken was found in buckets that are remembered, no entry is taken twice, and with
what is still wanted it makes up what was asked for. -/
structure Honest (d : Dictionary κ ν) (count : Nat) (p : Sampling κ ν σ) : Prop where
  found : ∀ b ∈ p.taken, ∃ bucket ∈ p.visited, b ∈ (d.side bucket.1).chain bucket.2
  apart : (p.taken.map (·.id)).Nodup
  whole : p.taken.length + p.wanted = count

/-- **What one look into a bucket does**: nothing is taken, or the head of the chain of a
bucket that was not taken from. -/
theorem sampleIn_cases (count span : Nat) (side : Side) (p : Sampling κ ν σ) :
    let q := d.sampleIn g count span side p
    (q.visited = p.visited ∧ q.taken = p.taken ∧ q.wanted = p.wanted) ∨
      ∃ i, (side, i) ∉ p.visited ∧ q.visited = (side, i) :: p.visited ∧
        q.taken = (((d.side side).chain i).take p.wanted).reverse ++ p.taken ∧
        q.wanted = p.wanted - (((d.side side).chain i).take p.wanted).length := by
  dsimp only
  rw [sampleIn]
  dsimp only
  split
  · exact .inl ⟨rfl, rfl, rfl⟩
  · -- a position behind the frontier takes the frontier's place; nothing is taken by that
    obtain ⟨p', hp', hvisited, htaken, hwanted⟩ : ∃ p' : Sampling κ ν σ,
        (if (decide (side = .main) && d.hasMoved p.position) = true then
          { p with position := d.firstLive } else p) = p' ∧
        p'.visited = p.visited ∧ p'.taken = p.taken ∧ p'.wanted = p.wanted := by
      refine ⟨_, rfl, ?_⟩
      split <;> exact ⟨rfl, rfl, rfl⟩
    rw [hp', ← hvisited, ← htaken, ← hwanted]
    split_ifs with hpast hempty hjump hold
    · exact .inl ⟨rfl, rfl, rfl⟩
    · exact .inl ⟨rfl, rfl, rfl⟩
    · exact .inl ⟨rfl, rfl, rfl⟩
    · exact .inl ⟨rfl, rfl, rfl⟩
    · refine .inr ⟨p'.position, ?_, rfl, rfl, rfl⟩
      intro hmem
      exact hold (List.contains_iff_mem.mpr hmem)

variable {g}

theorem honest_sampleStart (words : σ) :
    Honest d count (d.sampleStart g count words) :=
  ⟨fun _ hb => absurd hb List.not_mem_nil, List.nodup_nil, Nat.zero_add count⟩

/-- A bucket that was not taken from holds nothing that was taken. -/
theorem Honest.notMem_taken (hd : d.Shape) {p : Sampling κ ν σ} (hp : Honest d count p)
    {side : Side} {i : Nat} (hnew : (side, i) ∉ p.visited) {b : Binding κ ν}
    (hb : b ∈ (d.side side).chain i) : b.id ∉ p.taken.map (·.id) := by
  intro hmem
  obtain ⟨x, hx, hid⟩ := List.mem_map.mp hmem
  obtain ⟨bucket, hbucket, hplace⟩ := hp.found x hx
  obtain ⟨hside, hindex⟩ := hd.place_unique hb hplace hid.symm
  rw [hside, hindex] at hnew
  exact hnew hbucket

/-- **A look keeps a sample honest.** -/
theorem Honest.sampleIn (hd : d.Shape) {p : Sampling κ ν σ} (hp : Honest d count p)
    (span : Nat) (side : Side) : Honest d count (d.sampleIn g count span side p) := by
  rcases sampleIn_cases g (d := d) count span side p with
    ⟨hvisited, htaken, hwanted⟩ | ⟨i, hnew, hvisited, htaken, hwanted⟩
  · refine ⟨?_, ?_, ?_⟩
    · rw [hvisited, htaken]
      exact hp.found
    · rw [htaken]
      exact hp.apart
    · rw [htaken, hwanted]
      exact hp.whole
  · have hhead : ∀ b ∈ ((d.side side).chain i).take p.wanted, b ∈ (d.side side).chain i :=
      fun b hb => List.mem_of_mem_take hb
    refine ⟨?_, ?_, ?_⟩
    · intro b hb
      rw [htaken] at hb
      rw [hvisited]
      rcases List.mem_append.mp hb with hb | hb
      · exact ⟨(side, i), List.mem_cons_self, hhead b (List.mem_reverse.mp hb)⟩
      · obtain ⟨bucket, hbucket, hplace⟩ := hp.found b hb
        exact ⟨bucket, List.mem_cons_of_mem _ hbucket, hplace⟩
    · rw [htaken, List.map_append, List.map_reverse, List.nodup_append]
      refine ⟨?_, hp.apart, ?_⟩
      · have hchain := Buckets.nodup_chain (hd.nodup_side side) i
        rw [List.nodup_reverse]
        exact hchain.sublist ((List.take_sublist _ _).map _)
      · rintro _ hid _ hid' rfl
        obtain ⟨b, hb, rfl⟩ := List.mem_map.mp (List.mem_reverse.mp hid)
        exact hp.notMem_taken hd hnew (hhead b hb) hid'
    · have hgot : (((d.side side).chain i).take p.wanted).length ≤ p.wanted :=
        List.length_take_le _ _
      rw [htaken, hwanted, List.length_append, List.length_reverse, ← hp.whole]
      omega

theorem Honest.sampleAt (hd : d.Shape) {p : Sampling κ ν σ} (hp : Honest d count p) :
    Honest d count (d.sampleAt g count p) := by
  rw [Dictionary.sampleAt]
  split_ifs
  · exact hp.sampleIn hd _ .main
  · exact (hp.sampleIn hd _ .main).sampleIn hd _ .target
  · exact hp.sampleIn hd _ .main

/-- Where a walk goes next has no part in what it has found. -/
theorem Honest.onward {p : Sampling κ ν σ} (hp : Honest d count p) :
    Honest d count (d.onward p) :=
  ⟨hp.found, hp.apart, hp.whole⟩

theorem Honest.strolls (hd : d.Shape) {n : Nat} {p q : Sampling κ ν σ}
    (h : Strolls g d count n p q) (hp : Honest d count p) : Honest d count q := by
  -- induction on the walk, from its front
  induction h with
  | rest => exact hp
  | last => exact hp.sampleAt hd
  | further _ _ ih => exact ih (hp.sampleAt hd).onward

/-! ## Full samples -/

/-- Once round, `k` positions from `start` on: the entries of every bucket that was looked
into are taken, no other bucket is remembered, and the buckets of the run, the latest ones,
are empty. -/
structure Swept (d : Dictionary κ ν) (start k : Nat) (p : Sampling κ ν σ) : Prop where
  position : p.position = (start + k) % d.main.size
  taken : ∀ j, j < k → ∀ b ∈ d.main.chain ((start + j) % d.main.size), b ∈ p.taken
  visited : ∀ bucket ∈ p.visited, ∃ j, j < k ∧ bucket = (.main, (start + j) % d.main.size)
  short : p.emptyRun ≤ k
  run : ∀ j, k - p.emptyRun ≤ j → j < k → d.main.chain ((start + j) % d.main.size) = []

/-- While nothing moves, a look into a bucket of the main array is one at an empty bucket, at
one that was taken from, or at a new one. -/
theorem sampleAt_of_settled (count : Nat) (hf : d.frontier = none) {p : Sampling κ ν σ}
    (hi : p.position < d.main.size) :
    d.sampleAt g count p =
      if (d.main.chain p.position).isEmpty then
        if shortRun ≤ p.emptyRun + 1 && count < p.emptyRun + 1 then
          { p with position := (g.below d.span p.words).1, emptyRun := 0,
                   words := (g.below d.span p.words).2 }
        else { p with emptyRun := p.emptyRun + 1 }
      else if p.visited.contains (.main, p.position) then { p with emptyRun := 0 }
      else { p with emptyRun := 0, visited := (.main, p.position) :: p.visited }.takeFrom
        (d.main.chain p.position) := by
  have hsettled : d.migrating = false := migrating_eq_false.mpr hf
  have hmoved : d.hasMoved p.position = false := by rw [hasMoved, hf]
  have hsize : ¬ d.main.size ≤ p.position := Nat.not_le.mpr hi
  simp only [sampleAt, hsettled, Bool.false_eq_true, if_false, ite_self]
  simp only [sampleIn, hmoved, Bool.and_false, Bool.false_and, Bool.false_eq_true, if_false,
    side, hsize]

theorem swept_sampleStart (count : Nat) (hf : d.frontier = none) (hm : d.main.size ≠ 0)
    (words : σ) :
    Swept d (d.sampleStart g count words).position 0 (d.sampleStart g count words) := by
  have hspan : d.span = d.main.size := by rw [span, if_neg (by simp [migrating, hf])]
  have hlt : (d.sampleStart g count words).position < d.main.size := by
    rw [← hspan] at hm ⊢
    exact Nat.mod_lt _ (Nat.pos_of_ne_zero hm)
  exact ⟨(Nat.mod_eq_of_lt hlt).symm, fun _ hj => absurd hj (Nat.not_lt_zero _),
    fun _ hb => absurd hb List.not_mem_nil, le_refl _, fun _ _ hj => absurd hj (Nat.not_lt_zero _)⟩

/-- A run of empty buckets that has not come round is no longer than there are such. -/
theorem length_run_le {t : Buckets κ ν} {start a k : Nat} (hk : k ≤ t.size)
    (hrun : ∀ j, a ≤ j → j < k → t.chain ((start + j) % t.size) = []) : k - a ≤ t.vacant := by
  have hnodup : ((List.range' a (k - a)).map fun j => (start + j) % t.size).Nodup := by
    refine List.Nodup.map_on ?_ (List.nodup_range')
    intro i hi j hj hij
    rw [List.mem_range'_1] at hi hj
    exact add_mod_inj (by omega) (by omega) hij
  have hlen := t.length_le_vacant hnodup ?_
  · simpa using hlen
  · intro i hi
    obtain ⟨j, hj, rfl⟩ := List.mem_map.mp hi
    rw [List.mem_range'_1] at hj
    exact ⟨Nat.mod_lt _ (by omega), hrun j hj.1 (by omega)⟩

/-- What one step has to do to bring a walk one bucket further round. -/
theorem Swept.advance (hf : d.frontier = none) {start k : Nat} {p q : Sampling κ ν σ}
    (hp : Swept d start k p) (hposition : q.position = p.position)
    (htaken : ∀ b ∈ p.taken, b ∈ q.taken) (hhere : ∀ b ∈ d.main.chain p.position, b ∈ q.taken)
    (hvisited : ∀ bucket ∈ q.visited, bucket = (.main, p.position) ∨ bucket ∈ p.visited)
    (hshort : q.emptyRun ≤ k + 1)
    (hrun : ∀ j, k + 1 - q.emptyRun ≤ j → j < k + 1 →
      d.main.chain ((start + j) % d.main.size) = []) :
    Swept d start (k + 1) (d.onward q) := by
  refine ⟨?_, ?_, ?_, hshort, hrun⟩
  · have hspan : d.span = d.main.size := by rw [span, if_neg (by simp [migrating, hf])]
    change (q.position + 1) % d.span = _
    rw [hspan, hposition, hp.position, Nat.mod_add_mod, Nat.add_assoc]
  · intro j hj b hb
    rcases Nat.lt_succ_iff_lt_or_eq.mp hj with hlt | rfl
    · exact htaken b (hp.taken j hlt b hb)
    · rw [← hp.position] at hb
      exact hhere b hb
  · intro bucket hbucket
    rcases hvisited bucket hbucket with rfl | hold
    · exact ⟨k, Nat.lt_succ_self k, by rw [hp.position]⟩
    · obtain ⟨j, hj, he⟩ := hp.visited bucket hold
      exact ⟨j, Nat.lt_succ_of_lt hj, he⟩

theorem Swept.position_lt {start k : Nat} {p : Sampling κ ν σ} (hp : Swept d start k p)
    (hk : k < d.main.size) : p.position < d.main.size := by
  rw [hp.position]
  exact Nat.mod_lt _ (by omega)

/-- The bucket that comes next was not taken from. -/
theorem Swept.notMem_visited {start k : Nat} {p : Sampling κ ν σ} (hp : Swept d start k p)
    (hk : k < d.main.size) : (Side.main, p.position) ∉ p.visited := by
  intro hold
  obtain ⟨j, hj, he⟩ := hp.visited _ hold
  have hsame : p.position = (start + j) % d.main.size := congrArg Prod.snd he
  rw [hp.position] at hsame
  have hjk := add_mod_inj hk (by omega) hsame
  omega

/-- An empty bucket makes the run longer, and not too long: there is no jump. -/
theorem Swept.step_empty (hf : d.frontier = none) {start k : Nat} {p : Sampling κ ν σ}
    (hp : Swept d start k p) (hk : k < d.main.size) (hvacant : d.main.vacant ≤ max 4 count)
    (hchain : d.main.chain p.position = []) :
    Swept d start (k + 1) (d.onward (d.sampleAt g count p)) := by
  have hrun : ∀ j, k - p.emptyRun ≤ j → j < k + 1 →
      d.main.chain ((start + j) % d.main.size) = [] := by
    intro j hle hj
    rcases Nat.lt_succ_iff_lt_or_eq.mp hj with hlt | rfl
    · exact hp.run j hle hlt
    · rw [← hp.position]
      exact hchain
  have hlen := length_run_le (a := k - p.emptyRun) (k := k + 1) hk hrun
  have hshort := hp.short
  have hstay : ¬ (shortRun ≤ p.emptyRun + 1 && count < p.emptyRun + 1) = true := by
    intro hjump
    rw [Bool.and_eq_true, decide_eq_true_eq, decide_eq_true_eq, shortRun] at hjump
    omega
  have hlook : d.sampleAt g count p = { p with emptyRun := p.emptyRun + 1 } := by
    rw [sampleAt_of_settled count hf (hp.position_lt hk), hchain, List.isEmpty_nil, if_pos rfl,
      if_neg hstay]
  rw [hlook]
  refine hp.advance hf rfl (fun _ => id) ?_ (fun _ => .inr) (Nat.succ_le_succ hshort) ?_
  · intro x hx
    rw [hchain] at hx
    exact absurd hx List.not_mem_nil
  · intro j hle hj
    refine hrun j ?_ hj
    dsimp only at hle
    omega

/-- Any other bucket is a new one, and with more still wanted all of its chain was taken. -/
theorem Swept.step_filled (hf : d.frontier = none) {start k : Nat} {p : Sampling κ ν σ}
    (hp : Swept d start k p) (hk : k < d.main.size) (hchain : d.main.chain p.position ≠ [])
    (hmore : (d.sampleAt g count p).wanted ≠ 0) :
    Swept d start (k + 1) (d.onward (d.sampleAt g count p)) := by
  have hempty : ¬ (d.main.chain p.position).isEmpty = true :=
    fun h => hchain (List.isEmpty_iff.mp h)
  have hold : ¬ p.visited.contains (.main, p.position) = true :=
    fun h => hp.notMem_visited hk (List.contains_iff_mem.mp h)
  have hlook := sampleAt_of_settled (g := g) count hf (hp.position_lt hk)
  rw [if_neg hempty, if_neg hold] at hlook
  rw [hlook] at hmore ⊢
  have hall : (d.main.chain p.position).take p.wanted = d.main.chain p.position := by
    have hleft : p.wanted - ((d.main.chain p.position).take p.wanted).length ≠ 0 := hmore
    rw [List.length_take] at hleft
    exact List.take_of_length_le (by omega)
  refine hp.advance hf rfl (fun x hx => ?_) (fun x hx => ?_) (fun _ => List.mem_cons.mp)
    (Nat.zero_le _) (fun j hle hj => ?_)
  · exact List.mem_append_right _ hx
  · rw [Sampling.takeFrom, hall]
    exact List.mem_append_left _ (List.mem_reverse.mpr hx)
  · change k + 1 - 0 ≤ j at hle
    omega

/-- **One step further round.** -/
theorem Swept.step (hf : d.frontier = none) {start k : Nat} {p : Sampling κ ν σ}
    (hp : Swept d start k p) (hk : k < d.main.size) (hvacant : d.main.vacant ≤ max 4 count)
    (hmore : (d.sampleAt g count p).wanted ≠ 0) :
    Swept d start (k + 1) (d.onward (d.sampleAt g count p)) := by
  by_cases hchain : d.main.chain p.position = []
  · exact hp.step_empty hf hk hvacant hchain
  · exact hp.step_filled hf hk hchain hmore

/-- A walk that came round has taken everything. -/
theorem Swept.lt_size (hd : d.Shape) (hf : d.frontier = none) {start k : Nat}
    {p : Sampling κ ν σ} (hp : Swept d start k p) (hhonest : Honest d count p)
    (hstart : start < d.main.size) (hk : k ≤ d.main.size) (hcount : count ≤ d.size)
    (hmore : p.wanted ≠ 0) : k < d.main.size := by
  by_contra hround
  have hall : d.toList.map (·.id) ⊆ p.taken.map (·.id) := by
    intro id hid
    obtain ⟨b, hb, rfl⟩ := List.mem_map.mp hid
    rw [toList, hd.settled hf, Buckets.toList_unallocated, List.append_nil] at hb
    obtain ⟨i, hi⟩ := Buckets.mem_toList.mp hb
    obtain ⟨j, hj, rfl⟩ := exists_add_mod hstart (Buckets.lt_size_of_mem hi)
    exact List.mem_map_of_mem (hp.taken j (by omega) b hi)
  have hlen := (List.subperm_of_subset hd.handles hall).length_le
  rw [List.length_map, List.length_map, ← hd.size_eq] at hlen
  have hwhole := hhonest.whole
  omega

/-- **A walk round a dense table** finds all that is wanted, or has not come round. -/
theorem Swept.strolls (hd : d.Shape) (hf : d.frontier = none)
    (hvacant : d.main.vacant ≤ max 4 count) (hcount : count ≤ d.size) {start n : Nat}
    (hstart : start < d.main.size) {p q : Sampling κ ν σ} (h : Strolls g d count n p q) :
    ∀ k, k ≤ d.main.size → Swept d start k p → Honest d count p → p.wanted ≠ 0 →
      q.wanted = 0 ∨ k + n < d.main.size := by
  -- induction on the walk, from its front, with the buckets round that are behind it
  induction h with
  | rest p =>
    intro k hk hp hhonest hmore
    exact .inr (hp.lt_size hd hf hhonest hstart hk hcount hmore)
  | last hfull =>
    intro k hk hp hhonest hmore
    exact .inl hfull
  | @further n p q hmore _ ih =>
    intro k hk hp hhonest hwanted
    have hlt := hp.lt_size hd hf hhonest hstart hk hcount hwanted
    have hstep := hp.step hf hlt hvacant hmore
    rcases ih (k + 1) hlt hstep (hhonest.sampleAt hd).onward hmore with hfull | hrest
    · exact .inl hfull
    · exact .inr (by omega)

end Dictionary

namespace Situation

variable {κ ν σ τ : Type} (K : Keying κ ν) (g : WordSource σ)

open Dictionary

/-- **Samples.** Whatever words a sample is drawn with, from whatever history: its entries are
entries of the dictionary, no two of them the same, and with `c` the lesser of the count asked
for and the number of entries, there are `c` of them at most. They are what a walk of at most
`10 * c` steps finds; and `c` of them it finds for sure if nothing is moving by then, if
the table has no more than `10 * c` buckets, and if `max 4 c` of these at most are empty. -/
theorem sample_honest_and_full_when_dense (settings : Settings) (words : σ)
    (before : List (Operation κ ν)) (h : WordSource τ) (words' : τ) (count : Nat) :
    let s : Situation κ ν σ := (start settings words).after K g before
    let d := s.dictionary
    let c := min count d.size
    let moved := d.migrateSteps (s.rules K) c
    let result := d.sample h (s.rules K) count words'
    let answer := result.1
    let d' := result.2.2
    (answer.map (·.id)).Nodup ∧ (∀ b ∈ answer, b ∈ d.toList) ∧ answer.length ≤ c ∧
      d'.toList.Perm d.toList ∧
      (c ≠ 0 → d' = moved ∧ ∃ n ≤ 10 * c, ∃ p,
        Strolls h moved c n (moved.sampleStart h c words') p ∧ answer = p.taken.reverse) ∧
      (moved.migrating = false → moved.main.size ≤ 10 * c → moved.main.vacant ≤ max 4 c →
        answer.length = c) := by
  intro s d c moved result answer d'
  have hd : d.Shape := shape_after K g settings words before
  have hshifts : Shifts (s.rules K).hash d moved :=
    ((steady_shifts (s.rules K) d).migrateSteps c ⟨hd, .refl⟩).2
  have hmoved : moved.Shape := hd.shifts hshifts
  have hperm : moved.toList.Perm d.toList := (hshifts.toList_perm hd).1
  by_cases hc : c = 0
  · -- nothing is wanted, or there is nothing
    have hnone : result = ([], words', d) := if_pos hc
    simp only [answer, d', hnone]
    exact ⟨List.nodup_nil, fun _ hb => absurd hb List.not_mem_nil, Nat.zero_le c, .refl _,
      fun h => absurd hc h, fun _ _ _ => hc.symm⟩
  · have hresult := sample_eq h d count (s.rules K) words' hc
    simp only [answer, d', result, hresult]
    obtain ⟨n, hn, hwalk, hspent⟩ := exists_strolls h moved c (stepsPerEntry * c)
      (moved.sampleStart h c words')
    have hfirst : Honest moved c (moved.sampleStart h c words') := honest_sampleStart words'
    have hhonest := hfirst.strolls hmoved hwalk
    have hwhole := hhonest.whole
    refine ⟨?_, ?_, ?_, hperm, fun _ => ⟨rfl, n, hn, _, hwalk, rfl⟩, ?_⟩
    · rw [List.map_reverse, List.nodup_reverse]
      exact hhonest.apart
    · intro b hb
      obtain ⟨bucket, -, hplace⟩ := hhonest.found b (List.mem_reverse.mp hb)
      exact hperm.mem_iff.mp (mem_toList_of_mem_chain hplace)
    · rw [List.length_reverse]
      exact Nat.le.intro hwhole
    · intro hsettled hsize hvacant
      have hf : moved.frontier = none := migrating_eq_false.mp hsettled
      have hcount : c ≤ moved.size := by
        rw [size_of_shifts hd hshifts]
        exact Nat.min_le_right _ _
      have hused : moved.size = moved.main.used := by
        rw [size, hmoved.settled hf]
        rfl
      have hm : moved.main.size ≠ 0 := by
        intro hzero
        rw [hused, hmoved.main.eq_unallocated hzero] at hcount
        exact hc (Nat.le_zero.mp hcount)
      have hswept := swept_sampleStart (g := h) c hf hm words'
      have hstart : (moved.sampleStart h c words').position < moved.main.size := by
        rw [hswept.position]
        exact Nat.mod_lt _ (Nat.pos_of_ne_zero hm)
      have hfull : (moved.sampleFrom h c moved.span (stepsPerEntry * c)
          (moved.sampleStart h c words')).wanted = 0 := by
        rcases Swept.strolls hmoved hf hvacant hcount hstart hwalk 0 (Nat.zero_le _) hswept
          hfirst hc with hfull | hrest
        · exact hfull
        · -- the budget was for more steps than there are buckets
          by_contra hshort
          rw [hspent hshort, stepsPerEntry] at hrest
          omega
      rw [List.length_reverse, ← hwhole, hfull, Nat.add_zero]

/-- Six entries in eight buckets: three are always found, from wherever the walk begins. -/
theorem sample_finds_three_of_six :
    let K := Keying.numbers String
    let g := WordSource.splitMix
    let s : Situation UInt64 String UInt64 := (start .standard 0).after K g
      [.add 0 "a", .add 1 "b", .add 2 "c", .add 3 "d", .add 12 "e", .add 5 "f", .migrate 9]
    let d := s.dictionary
    d.migrating = false ∧ d.main.size = 8 ∧ d.main.vacant = 2 ∧
      ∀ words, (d.sample g (s.rules K) 3 words).1.length = 3 := by
  refine ⟨by decide +kernel, by decide +kernel, by decide +kernel, fun words => ?_⟩
  exact (sample_honest_and_full_when_dense (Keying.numbers String) WordSource.splitMix .standard 0
    _ WordSource.splitMix words 3).2.2.2.2.2 (by decide +kernel) (by decide +kernel)
    (by decide +kernel)

end Situation

end TwinTable
